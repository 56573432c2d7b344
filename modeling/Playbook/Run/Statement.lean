import Playbook.Run.Session

/-!
# `Playbook.Run.Statement` — running statements

Statements run one after another. A failure ends the block in which it happens; a `try` may handle it if it is
of a kind that can be caught, and runs its final body in any case. The branches of a parallel block run side by
side, each to its own end.

## Contents
- **Values.** `Host.eval`.
- **Failures.** `Host.guard` is a `try`, `Host.settle` the end of a parallel block.
- **Statements.** `Host.exec`, `Host.execBlock`, `Host.execBranch`.
-/

namespace Playbook

namespace Host

variable {τ η κ δ : Type}

/-! ## Values -/

/-- The text of an expression. -/
def eval (h : Host τ η κ δ) (p : Program) : Expr → Work τ κ δ String
  | .str value => return value
  | .var name => do
    match ← Script.observe fun s => s.scope.value? name with
    | some value => return value
    | none => Script.fail (Failure.Cause.unknownVariable name).failure
  | .session call => h.callSession p call false
  | .resume call => h.callSession p call true

/-- Count a statement. -/
def begin : Work τ κ δ Unit :=
  Script.update (·.count fun c => { c with statements := c.statements + 1 })

/-! ## Failures -/

/-- Bind the message of a failure to the name that its handler knows it by, if there is one. -/
def bindMessage (h : Host τ η κ δ) (catchName : Option String) (e : Failure) : Work τ κ δ Unit :=
  match catchName with
  | some name => h.writeBinding name .assigned e.message
  | none => return ()

/-- Let a handler deal with the failure of a body, if there is a handler and the failure can be
    caught. -/
def handle (h : Host τ η κ δ) (catchName : Option String) (handler : Option (Work τ κ δ Unit)) :
    Outcome → Work τ κ δ Unit
  | .ok () => return ()
  | .error e =>
    match handler with
    | none => Script.fail e
    | some handler =>
      if e.isCatchable then do
        -- A message that cannot be bound is a failure of the handler.
        h.bindMessage catchName e
        handler
      else Script.fail e

/-- Run a body, let the handler deal with its failure, and at last run the final body whatever
    happened. A failure of the final body counts before all others. -/
def guard (h : Host τ η κ δ) (body : Work τ κ δ Unit) (catchName : Option String)
    (handler final : Option (Work τ κ δ Unit)) : Work τ κ δ Unit := do
  let outcome ← body.hold
  let outcome ← (h.handle catchName handler outcome).hold
  -- The outcome is held back, so the final body runs after a failed handler too.
  final.getD (return ())
  Script.ofExcept outcome

/-- The first failure among outcomes. -/
def firstFailure : List Outcome → Outcome
  | [] => .ok ()
  | .ok () :: rest => firstFailure rest
  | .error e :: _ => .error e

/-- How a parallel block went, of which the branches went as given, in the order in which they
    ended. -/
def settle (policy : FailurePolicy) (outcomes : List Outcome) : Outcome :=
  match policy with
  | .ignore => .ok ()
  | .failFast | .proceed => firstFailure outcomes

/-! ## Statements -/

/-- Bind a name to the result of a session. -/
def bindSession (h : Host τ η κ δ) (p : Program) (name : String) (call : SessionCall)
    (resume : Bool) : Work τ κ δ Unit := do
  begin
  let text ← h.callSession p call resume
  h.writeBinding name .assigned text

/-- Bind a name to a value. -/
def bindValue (h : Host τ η κ δ) (p : Program) (name : String) (kind : BindingKind) (value : Expr) :
    Work τ κ δ Unit := do
  let text ← h.eval p value
  h.writeBinding name kind text

mutual

/-- Run a statement. -/
def exec (h : Host τ η κ δ) (p : Program) : Stmt → Work τ κ δ Unit
  | .comment _ => begin
  | .session call => do
    begin
    let _ ← h.callSession p call false
    return ()
  | .resume call => do
    begin
    let _ ← h.callSession p call true
    return ()
  | .assign name value => do
    begin
    h.bindValue p name .assigned value
  | .output name value => do
    begin
    h.bindValue p name .output value
  | .attempt body catchName handler final => do
    begin
    h.guard (h.execBlock p body) catchName (h.execOptional p handler) (h.execOptional p final)
  | .parallel policy branches => do
    begin
    let outcomes ← Script.together (h.execBranches p branches)
    Script.ofExcept (settle policy outcomes)
  | .loop count body => do
    begin
    Script.repeatTimes (h.execBlock p body) count.toNat

/-- Run statements one after another. -/
def execBlock (h : Host τ η κ δ) (p : Program) : List Stmt → Work τ κ δ Unit
  | [] => return ()
  | s :: rest => do
    h.exec p s
    h.execBlock p rest

/-- The run of a block that may be missing. -/
def execOptional (h : Host τ η κ δ) (p : Program) : Option (List Stmt) → Option (Work τ κ δ Unit)
  | none => none
  | some block => some (h.execBlock p block)

/-- Run a branch of a parallel block. -/
def execBranch (h : Host τ η κ δ) (p : Program) : Branch → Work τ κ δ Unit
  | .mk (some name) (.session call) => h.bindSession p name call false
  | .mk (some name) (.resume call) => h.bindSession p name call true
  | .mk _ stmt => h.exec p stmt

/-- The runs of branches. -/
def execBranches (h : Host τ η κ δ) (p : Program) : List Branch → List (Work τ κ δ Unit)
  | [] => []
  | b :: rest => h.execBranch p b :: h.execBranches p rest

end

/-- Bind the inputs of a run. -/
def bindInputs (h : Host τ η κ δ) : List (String × String) → Work τ κ δ Unit
  | [] => return ()
  | (name, text) :: rest => do
    h.writeBinding name .input text
    h.bindInputs rest

/-- Run a program on inputs. -/
def script (h : Host τ η κ δ) (p : Program) (inputs : KeyMap String) : Work τ κ δ Unit := do
  h.bindInputs inputs
  h.execBlock p p.statements

end Host

end Playbook
