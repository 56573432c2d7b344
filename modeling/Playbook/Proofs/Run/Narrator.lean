import Playbook.Run.Statement

/-!
# `Proofs.Run.Narrator` — running a program and telling of it

To say what ran in a run, the run is repeated by one that takes notes. What is noted is up to a *narrator*, which sees all that begins
in the run, makes its session calls and writes its bindings; all else goes as in the run itself. Everything that runs stands at a
`Place` of its own in the program: a statement of a block, a round of a loop, a branch.

There are two narrators: one keeps a journal (`Proofs.Run.Journal`), the other one notes what becomes of sessions
(`Proofs.Run.Watch`). That a run with a narrator goes as the run without is shown for both at once in `Proofs.Run.Chronicle`.

## Contents
- **Places.** `Leg`, `Place`, `Task`.
- **Narrators.** `Narrator`.
- **Values and failures.** `Narrator.eval`, `Narrator.guard`.
- **Programs.** `Narrator.stmt`, `Narrator.block`, `Narrator.branch`, `Narrator.script`.
-/

namespace Playbook

/-! ## Places -/

/-- One step on the way from a place in a program to a place within. -/
inductive Leg where
  /-- The program. -/
  | main
  /-- An input, by its position. -/
  | input (i : Nat)
  /-- A statement of a block, by its position. -/
  | stmt (i : Nat)
  /-- A round of a loop. -/
  | round (i : Nat)
  /-- A branch of a parallel block, by its position. -/
  | branch (i : Nat)
  /-- The body of a `try`. -/
  | body
  /-- The message that a `try` binds. -/
  | message
  /-- The handler of a `try`. -/
  | handler
  /-- The final body of a `try`. -/
  | final
  deriving DecidableEq, Repr

/-- A place in the run of a program: the way to it, its last step first. What is at a place within has this place at its end. -/
abbrev Place := List Leg

/-- What can begin at a place. -/
inductive Task where
  | stmt (s : Stmt)
  | block (b : List Stmt)
  | branch (b : Branch)

/-- No place lies on two different legs from one. -/
theorem leg_eq_of_suffix {x z : Place} {a b : Leg} (ha : (a :: x) <:+ z) (hb : (b :: x) <:+ z) :
    a = b := by
  have hsuffix : (a :: x) <:+ (b :: x) :=
    List.suffix_of_suffix_length_le ha hb (Nat.le_refl _)
  have heq := hsuffix.eq_of_length rfl
  exact (List.cons.inj heq).1

/-- A place does not lie within one that lies within it. -/
theorem not_suffix_of_leg {x y : Place} {a : Leg} (h : (a :: x) <:+ y) : ¬y <:+ x := by
  intro hxy
  have hlength : (a :: x).length ≤ x.length := Nat.le_trans h.length_le hxy.length_le
  rw [List.length_cons] at hlength
  omega

/-! ## Narrators -/

/-- How a run is told: what is done about all that begins at a place, about session calls and about writes. What is told lies
    within the state of the run. -/
structure Narrator (τ σ δ : Type) where
  /-- Run what begins at a place. -/
  enter : Place → Task → Work τ σ δ Unit → Work τ σ δ Unit
  /-- Make a session call, anew or to resume a session. -/
  call : Place → SessionCall → Bool → Work τ σ δ String
  /-- Bind a name to a text. -/
  write : Place → String → BindingKind → String → Work τ σ δ Unit

namespace Narrator

variable {τ σ δ : Type} (n : Narrator τ σ δ)

/-! ## Values and failures -/

/-- The text of an expression. -/
def eval (x : Place) : Expr → Work τ σ δ String
  | .str value => return value
  | .var name => do
    match ← Script.observe fun s => s.scope.value? name with
    | some value => return value
    | none => Script.fail (Failure.Cause.unknownVariable name).failure
  | .session call => n.call x call false
  | .resume call => n.call x call true

/-- Bind the message of a failure. -/
def message (x : Place) (catchName : Option String) (e : Failure) : Work τ σ δ Unit :=
  match catchName with
  | some name => n.write (.message :: x) name .assigned e.message
  | none => return ()

/-- Let a handler deal with the failure of a body. -/
def handle (x : Place) (catchName : Option String) (handler : Option (Work τ σ δ Unit)) :
    Outcome → Work τ σ δ Unit
  | .ok () => return ()
  | .error e =>
    match handler with
    | none => Script.fail e
    | some handler =>
      if e.isCatchable then do
        n.message x catchName e
        handler
      else Script.fail e

/-- Run a body with a handler and a final body. -/
def guard (x : Place) (body : Work τ σ δ Unit) (catchName : Option String)
    (handler final : Option (Work τ σ δ Unit)) : Work τ σ δ Unit := do
  let outcome ← body.hold
  let outcome ← (n.handle x catchName handler outcome).hold
  final.getD (return ())
  Script.ofExcept outcome

/-! ## Programs -/

/-- Run a body a number of times, from a round on. -/
def rounds (x : Place) (b : List Stmt) (body : Place → Work τ σ δ Unit) (i : Nat) :
    Nat → Work τ σ δ Unit
  | 0 => Script.pure ()
  | count + 1 => do
    Script.observe fun _ => ()
    n.enter (.round i :: x) (.block b) (body (.round i :: x))
    rounds x b body (i + 1) count

/-- Bind a name to the result of a session. -/
def bindSession (x : Place) (name : String) (call : SessionCall) (resume : Bool) :
    Work τ σ δ Unit := do
  Host.begin
  let text ← n.call x call resume
  n.write x name .assigned text

/-- Bind a name to a value. -/
def bindValue (x : Place) (name : String) (kind : BindingKind) (value : Expr) :
    Work τ σ δ Unit := do
  let text ← n.eval x value
  n.write x name kind text

mutual

/-- Run a statement at a place. -/
def stmt (x : Place) : Stmt → Work τ σ δ Unit
  | .comment _ => Host.begin
  | .session call => do
    Host.begin
    let _ ← n.call x call false
    return ()
  | .resume call => do
    Host.begin
    let _ ← n.call x call true
    return ()
  | .assign name value => do
    Host.begin
    n.bindValue x name .assigned value
  | .output name value => do
    Host.begin
    n.bindValue x name .output value
  | .attempt body catchName handler final => do
    Host.begin
    n.guard x (n.enter (.body :: x) (.block body) (block (.body :: x) 0 body)) catchName
      (optional (.handler :: x) handler) (optional (.final :: x) final)
  | .parallel policy bs => do
    Host.begin
    let outcomes ← Script.together (branches x 0 bs)
    Script.ofExcept (Host.settle policy outcomes)
  | .loop count body => do
    Host.begin
    n.rounds x body (fun y => block y 0 body) 0 count.toNat

/-- Run the statements of a block at a place, from a position on. -/
def block (x : Place) (i : Nat) : List Stmt → Work τ σ δ Unit
  | [] => return ()
  | s :: rest => do
    n.enter (.stmt i :: x) (.stmt s) (stmt (.stmt i :: x) s)
    block x (i + 1) rest

/-- The run of a block that may be missing. -/
def optional (x : Place) : Option (List Stmt) → Option (Work τ σ δ Unit)
  | none => none
  | some b => some (n.enter x (.block b) (block x 0 b))

/-- Run a branch of a parallel block at a place. -/
def branch (x : Place) : Branch → Work τ σ δ Unit
  | .mk (some name) (.session call) => n.bindSession x name call false
  | .mk (some name) (.resume call) => n.bindSession x name call true
  | .mk _ s => n.enter (.stmt 0 :: x) (.stmt s) (stmt (.stmt 0 :: x) s)

/-- The runs of branches, from a position on. -/
def branches (x : Place) (i : Nat) : List Branch → List (Work τ σ δ Unit)
  | [] => []
  | b :: rest =>
    n.enter (.branch i :: x) (.branch b) (branch (.branch i :: x) b) :: branches x (i + 1) rest

end

/-- Bind the inputs of a run, from a position on. -/
def inputs (i : Nat) : List (String × String) → Work τ σ δ Unit
  | [] => return ()
  | (name, text) :: rest => do
    n.write [.input i] name .input text
    inputs (i + 1) rest

/-- Run a program on inputs. -/
def script (p : Program) (given : KeyMap String) : Work τ σ δ Unit := do
  n.inputs 0 given
  n.enter [.main] (.block p.statements) (n.block [.main] 0 p.statements)

end Narrator

end Playbook
