import Playbook.Program.Basic
import Playbook.Run.Report
import Playbook.Text.Search

/-!
# `Playbook.CommandLine.Outline` — programs and reports for a reader

## Contents
- **Programs.** `Program.outline` has a line for each agent and one for each statement, indented by how deep the statement
  stands; comments have none.
- **Reports.** `RunReport.summary`.
-/

namespace Playbook

/-! ## Programs -/

/-- An agent on a line. -/
def Agent.outline (a : Agent) : String :=
  "agent " ++ a.name ++ " (model: " ++ a.model.getD "default" ++ ", persist: " ++
    toString a.persists ++ ")"

/-- A call on a line, after the word for its kind. -/
def SessionCall.outline (label : String) (call : SessionCall) : String :=
  label ++ " " ++ call.agent.getD defaultAgentName ++ " \"" ++ call.title ++ "\""

/-- A branch on a line. -/
def Branch.outline (b : Branch) : String :=
  "  [" ++ b.name.getD "-" ++ "] " ++ b.stmt.label

/-- A line deeper by one level. -/
def deeper (line : String) : String :=
  "  " ++ line

mutual

/-- The lines of a statement. -/
def Stmt.outline : Stmt → List String
  | .session call => [call.outline "session"]
  | .resume call => [call.outline "resume"]
  | .assign name _ => ["let " ++ name]
  | .output name _ => ["output " ++ name]
  | .attempt body _ handler final =>
    "try" :: (outlineAll body).map deeper ++ outlinePart "catch" handler ++
      outlinePart "finally" final
  | .parallel policy branches =>
    ("parallel (" ++ policy.name ++ ")") :: branches.map (·.outline)
  | .loop count body => ("repeat " ++ toString count) :: (outlineAll body).map deeper
  | .comment _ => []

/-- The lines of statements. -/
def outlineAll : List Stmt → List String
  | [] => []
  | stmt :: rest => stmt.outline ++ outlineAll rest

/-- The lines of a part that may be missing. -/
def outlinePart (label : String) : Option (List Stmt) → List String
  | none => []
  | some body => label :: (outlineAll body).map deeper

end

/-- The lines of a program. -/
def Program.outline (p : Program) : List String :=
  p.agents.map (·.2.outline) ++ outlineAll p.statements

/-! ## Reports -/

/-- A text whose further lines are indented. -/
def hanging (indent text : String) : String :=
  ("\n" ++ indent).intercalate ((Text.splitOn '\n' text.toList).map String.ofList)

/-- How a status is shown at the head of a summary. -/
def RunStatus.title : RunStatus → String
  | succeeded => "Succeeded"
  | failed => "Failed"
  | canceled => "Canceled"

/-- The lines of an output. -/
def Binding.outline (b : Binding) : List String :=
  ["  output " ++ b.name ++ " -> " ++ b.contentRef, "    " ++ hanging "    " b.preview]

/-- The line of an outcome. -/
def RunOutcome.outline (o : RunOutcome) : String :=
  "  sessions: " ++ toString o.counters.sessionsCreated ++ " created, " ++
    toString o.counters.sessionsResumed ++ " resumed; tokens: " ++ toString o.usage.total

/-- The lines of a report. -/
def RunReport.summary (r : RunReport) : List String :=
  ("run " ++ r.runId ++ ": " ++ r.status.title) ::
    (r.error.toList.map ("  error: " ++ ·) ++ r.outputs.flatMap (·.outline) ++
      r.outcome.toList.map (·.outline))

end Playbook
