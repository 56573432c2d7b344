import Playbook.KeyMap
import Playbook.Text.Blank

/-!
# `Playbook.Program.Basic` — programs

A program names agents and says in which order sessions with them are held and what happens to their
results.

## Contents
- **Agents.** `Agent` and whether it `persists`.
- **Calls and values.** `SessionCall`, `Expr`.
- **Statements.** `Stmt` and `Branch`, with `Stmt.label`.
- **Programs.** `Program` and `Program.agent?`.
-/

namespace Playbook

/-! ## Agents -/

/-- The agent of a session that names none. -/
def defaultAgentName : String := "default"

/-- Who a session is held with. -/
structure Agent where
  /-- The name, under which sessions and records are kept. -/
  name : String
  /-- The model to ask for. -/
  model : Option String
  /-- What the agent is told about itself. -/
  prompt : Option String
  /-- The persistence policy. -/
  persist : Option String
  deriving DecidableEq, Repr

namespace Agent

/-- An agent of which only the name is known. -/
def named (name : String) : Agent :=
  ⟨name, none, none, none⟩

/-- The policies that turn persistence off. -/
def offPolicies : List String :=
  ["", "false", "no", "off", "0", "none"]

/-- Whether the agent's sessions are taken up again later: it has a policy, and that is none of
    `offPolicies`, blanks around it and the case of ASCII letters aside. -/
def persists (a : Agent) : Bool :=
  match a.persist with
  | none => false
  | some policy =>
    !offPolicies.contains (String.ofList ((Text.trim policy.toList).map Char.toLower))

end Agent

/-! ## Calls and values -/

/-- A session to hold: with whom, and about what. -/
structure SessionCall where
  /-- The agent's name; none stands for the default agent. -/
  agent : Option String
  /-- The task. -/
  title : String
  deriving DecidableEq, Repr

/-- What a name can be bound to. -/
inductive Expr where
  /-- A text. -/
  | str (value : String)
  /-- The text bound to another name. -/
  | var (name : String)
  /-- The result of a new session. -/
  | session (call : SessionCall)
  /-- The result of a session taken up again. -/
  | resume (call : SessionCall)
  deriving DecidableEq, Repr

/-! ## Statements -/

/-- What a parallel block does about branches that fail. It waits for all of them in any case. -/
inductive FailurePolicy where
  /-- Fail as the first one did. -/
  | failFast
  /-- Fail as the first one did. -/
  | proceed
  /-- Do not fail. -/
  | ignore
  deriving DecidableEq, Repr

namespace FailurePolicy

/-- The name of a policy in programs. -/
def name : FailurePolicy → String
  | failFast => "fail-fast"
  | proceed => "continue"
  | ignore => "ignore"

/-- Every policy. -/
def all : List FailurePolicy :=
  [failFast, proceed, ignore]

/-- The policy with a name. -/
def ofName? (s : String) : Option FailurePolicy :=
  all.find? (·.name == s)

end FailurePolicy

mutual

/-- A statement. -/
inductive Stmt where
  | session (call : SessionCall)
  | resume (call : SessionCall)
  /-- Bind a name. -/
  | assign (name : String) (value : Expr)
  /-- Bind a name as an output of the run. -/
  | output (name : String) (value : Expr)
  /-- Run a body; if it fails in a way that can be caught, run the handler with the message bound
      to the given name; at last run the final body whatever happened. -/
  | attempt (body : List Stmt) (catchName : Option String) (handler : Option (List Stmt))
      (final : Option (List Stmt))
  /-- Run branches side by side. -/
  | parallel (policy : FailurePolicy) (branches : List Branch)
  /-- Run a body a number of times. -/
  | loop (count : UInt32) (body : List Stmt)
  | comment (text : String)

/-- A branch of a parallel block; a session or resume branch may bind its result to a name. -/
inductive Branch where
  | mk (name : Option String) (stmt : Stmt)

end

deriving instance Repr, BEq for Stmt, Branch

namespace Branch

/-- The name that the branch binds its result to. -/
def name : Branch → Option String
  | mk name _ => name

/-- What the branch runs. -/
def stmt : Branch → Stmt
  | mk _ stmt => stmt

end Branch

/-- The word that names a statement's kind. -/
def Stmt.label : Stmt → String
  | session _ => "session"
  | resume _ => "resume"
  | assign _ _ => "let"
  | output _ _ => "output"
  | attempt _ _ _ _ => "try"
  | parallel _ _ => "parallel"
  | loop _ _ => "repeat"
  | comment _ => "comment"

/-! ## Programs -/

/-- A program. -/
structure Program where
  /-- The comment lines at its head, with their marks. -/
  header : List String
  /-- The agents under the names by which they are called. -/
  agents : KeyMap Agent
  /-- The statements. -/
  statements : List Stmt
  deriving Repr, BEq

/-- The agent called by a name. -/
def Program.agent? (p : Program) (name : String) : Option Agent :=
  p.agents.get? name

end Playbook
