import Playbook.Run.State

/-!
# `Playbook.Run.Report` — how a run ended

## Contents
- **The type.** `RunStatus`, `RunReport`.
- **Endings.** `RunReport.succeeded`, `RunReport.failed`, `RunReport.canceled`.
- **JSON.** `RunReport.toJson`.
-/

namespace Playbook

/-- How a run ended. -/
inductive RunStatus where
  | succeeded
  | failed
  | canceled
  deriving DecidableEq, Repr

/-- The word for a status. -/
def RunStatus.name : RunStatus → String
  | succeeded => "succeeded"
  | failed => "failed"
  | canceled => "canceled"

/-- How a run ended, and what it has to show. -/
structure RunReport where
  runId : String
  status : RunStatus
  /-- What went wrong. -/
  error : Option String
  /-- The kind of what went wrong. -/
  errorKind : Option Failure.Kind
  outputs : List Binding
  /-- All that a run that went well has to show. -/
  outcome : Option RunOutcome
  deriving Repr, DecidableEq

namespace RunReport

/-- The report of a run that went well. -/
def succeeded (o : RunOutcome) : RunReport :=
  ⟨o.runId, .succeeded, none, none, o.outputs, some o⟩

/-- The report of a run that failed, or that could not begin. -/
def failed (runId : String) (e : Failure) : RunReport :=
  ⟨runId, .failed, some e.message, some e.kind, [], none⟩

/-- The report of a run that was canceled. -/
def canceled (runId : String) : RunReport :=
  ⟨runId, .canceled, some "run canceled", some .canceled, [], none⟩

/-- Whether the run went well. -/
def isSuccess (r : RunReport) : Bool :=
  r.status = .succeeded

/-- A report as an object. -/
def toJson (r : RunReport) : Json :=
  .obj ([("runId", .str r.runId), ("status", .str r.status.name)] ++
    Json.present "error" .str r.error ++
    Json.present "errorKind" (fun k => .str k.name) r.errorKind ++
    [("outputs", .arr (r.outputs.map (·.toJson)))] ++
    Json.present "outcome" (·.toJson) r.outcome)

end RunReport

end Playbook
