import Playbook.Proofs.Run.CallLog
import Playbook.Proofs.Run.Telling

/-!
# `Proofs.Run.Edits` — programs that may be written in another way

A parallel block may fail as its first failure whether it is told to or not; a branch that binds a name to the result of a session may
assign it; a loop in a block may be written out. Such *edits* can be made at any places of a program and all at once, and the run of the
program stays the same, but for one statement each time that a loop would have begun which is written out.

## Contents
- **Rewriting.** `FailurePolicy.switched`, `Branch.unnamed`, `Stmt.unrolled`.
- **Edits.** `siteOf`, `Edits` and `Edits.program`; `Edits.shed`, the statements that an edited program saves, as a journal tells them.
- **Two programs.** `Edits.mirror` ties the run that keeps a journal to the run of the edited program.
- **Telling.** What is told is not done by the run of the edited program: `enter_alike`, `call_alike`, `write_alike`.
- **Statements.** `stmt_alike`, `script_alike`.
- **Runs.** `RunState.raise`; `run_edited`.
-/

namespace Playbook

variable {τ η κ δ α : Type}

/-! ## Scripts -/

namespace Script

variable {σ β γ : Type}

theorem bind_assoc (s : Script σ α) (f : α → Script σ β) (g : β → Script σ γ) :
    s >>= f >>= g = s >>= fun a => f a >>= g := by
  funext next
  show s _ = s _
  congr 1

theorem bind_pure (s : Script σ Unit) : (s >>= fun _ => return ()) = s := by
  funext next
  show s _ = s _
  congr 1
  funext r
  cases r <;> rfl

end Script

/-! ## Rewriting -/

/-- The other one of the two policies under which a parallel block fails as its first failure. -/
def FailurePolicy.switched : FailurePolicy → FailurePolicy
  | failFast => proceed
  | proceed => failFast
  | ignore => ignore

theorem Host.settle_switched (policy : FailurePolicy) (outcomes : List Outcome) :
    settle policy.switched outcomes = settle policy outcomes := by
  cases policy <;> rfl

/-- A branch that binds a name to the result of a session, as one that assigns the result. -/
def Branch.unnamed : Branch → Branch
  | .mk (some name) (.session call) => .mk none (.assign name (.session call))
  | .mk (some name) (.resume call) => .mk none (.assign name (.resume call))
  | b => b

/-- A loop, written out. -/
def Stmt.unrolled : Stmt → List Stmt
  | .loop count body => (List.replicate count.toNat body).flatten
  | s => [s]

/-! ## Edits -/

/-- Where in its text a program is when it is at a place: the rounds of its loops do not count. -/
def siteOf (x : Place) : Place :=
  x.filter fun
    | .round _ => false
    | _ => true

/-- What is written in another way: parallel blocks, branches, and loops that stand in a block, by where they are in the program. -/
structure Edits where
  switches : Place → Bool
  unnames : Place → Bool
  unrolls : Place → Bool

namespace Edits

/-- No edits. -/
def empty : Edits :=
  ⟨fun _ => false, fun _ => false, fun _ => false⟩

variable (e : Edits)

/-- What becomes of a policy. -/
def policy (x : Place) (p : FailurePolicy) : FailurePolicy :=
  if e.switches x then p.switched else p

/-- What becomes of a branch in which everything has been edited. -/
def rename (x : Place) (b : Branch) : Branch :=
  if e.unnames x then b.unnamed else b

/-- What becomes of a statement of a block in which everything has been edited. -/
def spread (x : Place) (s : Stmt) : List Stmt :=
  if e.unrolls x then s.unrolled else [s]

mutual

/-- Edit what is in a statement. -/
def stmt (x : Place) : Stmt → Stmt
  | .attempt body catchName handler final =>
    .attempt (block (.body :: x) 0 body) catchName (optional (.handler :: x) handler) (optional (.final :: x) final)
  | .parallel p bs => .parallel (e.policy x p) (branches x 0 bs)
  | .loop count body => .loop count (block x 0 body)
  | .comment text => .comment text
  | .session call => .session call
  | .resume call => .resume call
  | .assign name value => .assign name value
  | .output name value => .output name value

/-- Edit the statements of a block, from a position on. -/
def block (x : Place) (i : Nat) : List Stmt → List Stmt
  | [] => []
  | s :: rest => e.spread (.stmt i :: x) (stmt (.stmt i :: x) s) ++ block x (i + 1) rest

/-- Edit a block that may be missing. -/
def optional (x : Place) : Option (List Stmt) → Option (List Stmt)
  | none => none
  | some b => some (block x 0 b)

/-- Edit a branch. -/
def branch (x : Place) : Branch → Branch
  | .mk name s => e.rename x (.mk name (stmt (.stmt 0 :: x) s))

/-- Edit branches, from a position on. -/
def branches (x : Place) (i : Nat) : List Branch → List Branch
  | [] => []
  | b :: rest => branch (.branch i :: x) b :: branches x (i + 1) rest

end

/-- Edit a program. -/
def program (p : Program) : Program :=
  { p with statements := e.block [.main] 0 p.statements }

/-- Whether an entry of a journal tells that a loop begins which is written out. -/
def sheds : Entry → Bool
  | .began (.stmt i :: x) (.stmt (.loop _ _)) =>
    match x with
    | .branch _ :: _ => false
    | _ => e.unrolls (siteOf (.stmt i :: x))
  | _ => false

/-- How often loops begin that are written out. -/
def shed (l : Journal) : Nat :=
  l.countP e.sheds

theorem shed_tell (l : Journal) (entry : Entry) :
    e.shed (l ++ [entry]) = e.shed l + if e.sheds entry then 1 else 0 := by
  rw [shed, List.countP_append, List.countP_singleton]
  rfl

mutual

theorem stmt_empty (x : Place) : ∀ s : Stmt, empty.stmt x s = s
  | .attempt body catchName handler final => by
    rw [stmt, block_empty, optional_empty, optional_empty]
  | .parallel p bs => by
    rw [stmt, branches_empty]
    rfl
  | .loop count body => by rw [stmt, block_empty]
  | .comment _ | .session _ | .resume _ | .assign _ _ | .output _ _ => rfl

theorem block_empty (x : Place) (i : Nat) : ∀ b : List Stmt, empty.block x i b = b
  | [] => rfl
  | s :: rest => by
    rw [block, stmt_empty, block_empty]
    rfl

theorem optional_empty (x : Place) : ∀ b : Option (List Stmt), empty.optional x b = b
  | none => rfl
  | some b => by rw [optional, block_empty]

theorem branch_empty (x : Place) : ∀ b : Branch, empty.branch x b = b
  | .mk name s => by
    rw [branch, stmt_empty]
    rfl

theorem branches_empty (x : Place) (i : Nat) : ∀ bs : List Branch, empty.branches x i bs = bs
  | [] => rfl
  | b :: rest => by rw [branches, branch_empty, branches_empty]

end

theorem program_empty (p : Program) : empty.program p = p := by
  rw [program, block_empty]

theorem shed_empty (l : Journal) : empty.shed l = 0 := by
  rw [shed, List.countP_eq_zero]
  intro entry _
  unfold sheds
  split
  · split <;> simp [empty]
  · simp

/-! ## Two programs -/

/-- The run that keeps a journal does what the run without does, and is ahead of it by the statements that are saved. -/
def mirror (h : Host τ η κ δ) : Host.Mirror h.journaled h where
  backend := Eq
  session := Eq
  store k k' := k.1 = k'
  lead k := e.shed k.2
  courier := rfl
  sessionId x x' hx := by rw [hx]; rfl
  latency c c' b b' hc hb := by
    subst hb
    cases hc with
    | send hx prompt => rw [hx]; rfl
    | close hx => rw [hx]; rfl
    | _ => rfl
  create args b b' hb := by
    subst hb
    exact ⟨.of_eq rfl, rfl⟩
  resume args id b b' hb := by
    subst hb
    exact ⟨.of_eq rfl, rfl⟩
  send prompt x x' b b' hx hb := by
    subst hx hb
    exact ⟨rfl, rfl, rfl⟩
  stream x x' b b' hx hb := by
    subst hx hb
    exact ⟨(Agree.of_eq rfl).mono fun stream _ heq => heq ▸ stream.alike_refl, rfl, rfl⟩
  close x x' b b' hx hb := by
    subst hx hb
    rfl
  storeLatency c k k' hk := by
    subst hk
    rfl
  put key bytes mime k k' hk := by
    subst hk
    exact ⟨rfl, rfl, rfl⟩
  get key k k' hk := by
    subst hk
    exact ⟨rfl, rfl, rfl⟩

section

variable {e} {h : Host τ η κ δ} {s : ToldState τ κ δ} {s' : RunState τ κ δ} {entry : Entry}

/-- A state that `World` ties to another one stays tied when something is told of it that the edit keeps. -/
theorem world_tell (hs : (e.mirror h).World s s') (hentry : e.sheds entry = false) :
    (e.mirror h).World (s.tell entry) s' := by
  refine ⟨hs.scope, hs.sessions, ?_, hs.usage, hs.backend, hs.store, hs.outbox⟩
  have hshed : e.shed (s.journal ++ [entry]) = e.shed s.journal := by
    rw [shed_tell, hentry]
    rfl
  rw [RunState.counters_tell, hs.counters]
  exact congrArg s'.counters.raise hshed.symm

/-- A loop begins that is written out. -/
theorem world_begin (hs : (e.mirror h).World s s') (hentry : e.sheds entry = true) :
    (e.mirror h).World (Deed.begin.apply (s.tell entry)) s' := by
  refine ⟨hs.scope, hs.sessions, ?_, hs.usage, hs.backend, hs.store, hs.outbox⟩
  have hshed : e.shed (s.journal ++ [entry]) = e.shed s.journal + 1 := by
    rw [shed_tell, hentry]
    rfl
  have hcounters : s.counters = s'.counters.raise (e.shed s.journal) := hs.counters
  have hraise : (s'.counters.raise (e.shed s.journal)).raise 1 = s'.counters.raise (e.shed s.journal + 1) := rfl
  rw [show (e.mirror h).lead (Deed.begin.apply (s.tell entry)).store = e.shed s.journal + 1 from hshed, ← hraise,
    ← hcounters]
  rfl

/-! ## Telling -/

/-- Scripts of the run that keeps a journal and of the run of the edited program that go on alike. -/
abbrev Matches (e : Edits) (h : Host τ η κ δ) (work : ToldWork τ κ δ α) (work' : Work τ κ δ α) : Prop :=
  Script.Alike (e.mirror h).World Eq work work'

theorem conclude_alike (x : Place) {work : ToldWork τ κ δ Unit} {work' : Work τ κ δ Unit} (hwork : e.Matches h work work') :
    e.Matches h (Host.conclude x work) work' :=
  hwork.asideAfter fun _ _ _ hs => world_tell hs rfl

theorem enter_alike {x : Place} {t : Task} {work : ToldWork τ κ δ Unit} {work' : Work τ κ δ Unit}
    (hshed : e.sheds (.began x t) = false) (hwork : e.Matches h work work') : e.Matches h (Host.enter x t work) work' :=
  Script.Alike.aside (fun _ _ hs => world_tell hs hshed) fun _ => conclude_alike x hwork

/-- A loop that is written out begins where no statement does. -/
theorem enter_loop_alike {x : Place} {t : Task} {work : ToldWork τ κ δ Unit} {work' : Work τ κ δ Unit}
    (hshed : e.sheds (.began x t) = true) (hwork : e.Matches h work work') :
    e.Matches h (Host.enter x t (Host.begin >>= fun _ => work)) work' := by
  intro next next' hnext
  have hrest := conclude_alike x hwork next next' hnext
  exact @Plan.Alike.aside _ _ _ _ _ (fun s => Deed.begin.apply (s.tell (.began x t))) (fun _ => Host.conclude x work next) _
    (fun _ _ _ _ => rfl) (fun _ _ hs => world_begin hs hshed) fun _ _ _ => hrest

variable {p p' : Program}

theorem call_alike (hagents : ∀ call, p.agentFor call = p'.agentFor call) (x : Place) (call : SessionCall) (resume : Bool) :
    e.Matches h (h.tellCall p x call resume) (h.callSession p' call resume) := by
  have hcall : e.Matches h (h.journaled.callSession p call resume) (h.callSession p' call resume) :=
    (e.mirror h).bridge.callSession hagents call resume
  exact Script.Alike.aside (fun _ _ hs => world_tell hs rfl) fun _ => hcall.asideAfter fun _ _ _ hs => world_tell hs rfl

theorem write_alike (x : Place) (name : String) (kind : BindingKind) (text : String) :
    e.Matches h (h.tellWrite x name kind text) (h.writeBinding name kind text) := by
  refine .bind (V := Eq) (.act fun s s' hs => ?_) ?_
  · have hnumbered := hs.deed .number
    exact ⟨(e.mirror h).bridge.written _ _ hnumbered, world_tell hnumbered rfl⟩
  rintro n _ rfl
  refine .bind (V := Eq) ?_ ?_
  · refine .bind (.pause fun s s' hs => by rw [← hs.store]) fun _ _ _ => ?_
    refine .bind (V := Eq) (.act fun s s' hs => ?_) fun r r' hr => .ofExcept (.of_eq hr)
    obtain ⟨hreceipt, hstore, hlead⟩ := (e.mirror h).put (Host.bindingKey h.context.runId name n)
      (Text.Utf8.encode text.toList) "text/plain" _ _ hs.store
    exact ⟨hreceipt, world_tell (hs.withStore hstore hlead) rfl⟩
  rintro receipt _ rfl
  exact .update fun s s' hs => world_tell (hs.deed (.bind (Host.bindingOf name kind text receipt) text)) rfl

theorem eval_alike (hagents : ∀ call, p.agentFor call = p'.agentFor call) (x : Place) (value : Expr) :
    e.Matches h ((h.teller p).eval x value) (h.eval p' value) := by
  cases value with
  | str text => exact .pure rfl
  | session call => exact call_alike hagents x call false
  | resume call => exact call_alike hagents x call true
  | var name =>
    refine .bind (V := Eq) (.observe fun s s' hs => by rw [hs.scope]) ?_
    rintro bound _ rfl
    cases bound with
    | none => exact .fail _
    | some text => exact .pure rfl

theorem begin_alike : e.Matches h Host.begin Host.begin :=
  (e.mirror h).bridge.begin

theorem bindValue_alike (hagents : ∀ call, p.agentFor call = p'.agentFor call) (x : Place) (name : String)
    (kind : BindingKind) (value : Expr) :
    e.Matches h ((h.teller p).bindValue x name kind value) (h.bindValue p' name kind value) := by
  refine .bind (eval_alike hagents x value) ?_
  rintro text _ rfl
  exact write_alike x name kind text

/-- Blocks that may be missing. -/
abbrev MatchesOptional (e : Edits) (h : Host τ η κ δ) :=
  Option.Rel (e.Matches (α := Unit) h)

theorem handle_alike (x : Place) (catchName : Option String) {handler : Option (ToldWork τ κ δ Unit)}
    {handler' : Option (Work τ κ δ Unit)} (hhandler : e.MatchesOptional h handler handler') (outcome : Outcome) :
    e.Matches h ((h.teller p).handle x catchName handler outcome) (h.handle catchName handler' outcome) := by
  cases outcome with
  | ok _ => exact .pure rfl
  | error f =>
    cases hhandler with
    | none => exact .fail f
    | some hblock =>
      simp only [Narrator.handle, Host.handle]
      split
      · refine .bind (V := Eq) ?_ fun _ _ _ => hblock
        cases catchName with
        | none => exact .pure rfl
        | some name => exact write_alike (.message :: x) name _ _
      · exact .fail f

theorem guard_alike (x : Place) (catchName : Option String) {body : ToldWork τ κ δ Unit} {body' : Work τ κ δ Unit}
    {handler final : Option (ToldWork τ κ δ Unit)} {handler' final' : Option (Work τ κ δ Unit)}
    (hbody : e.Matches h body body') (hhandler : e.MatchesOptional h handler handler')
    (hfinal : e.MatchesOptional h final final') :
    e.Matches h ((h.teller p).guard x body catchName handler final) (h.guard body' catchName handler' final') := by
  refine .bind (.hold hbody) fun outcome outcome' houtcome => ?_
  rw [houtcome.eq]
  refine .bind (.hold (handle_alike x catchName hhandler outcome')) fun held held' hheld => ?_
  refine .bind (V := Eq) ?_ fun _ _ _ => .ofExcept hheld
  cases hfinal with
  | none => exact .pure rfl
  | some hblock => exact hblock

/-! ## Statements -/

/-- A place at which a block begins, so that statements next to one another stand in it. -/
def IsBlock (x : Place) : Prop :=
  ∀ i y, x ≠ .branch i :: y

/-- One block after another. -/
theorem execBlock_append (h : Host τ η κ δ) (p : Program) (b b' : List Stmt) :
    h.execBlock p (b ++ b') = h.execBlock p b >>= fun _ => h.execBlock p b' := by
  induction b with
  | nil => rfl
  | cons s rest ih =>
    rw [List.cons_append, Host.execBlock, ih, Host.execBlock, Script.bind_assoc]

/-- A block of one statement. -/
theorem execBlock_single (h : Host τ η κ δ) (p : Program) (s : Stmt) : h.execBlock p [s] = h.exec p s := by
  rw [Host.execBlock, Host.execBlock]
  exact Script.bind_pure _

theorem exec_policy (h : Host τ η κ δ) (p : Program) (x : Place) (policy : FailurePolicy) (bs : List Branch) :
    h.exec p (.parallel (e.policy x policy) bs) = h.exec p (.parallel policy bs) := by
  unfold Edits.policy
  split
  · simp only [Host.exec, Host.settle_switched]
  · rfl

theorem exec_rename (h : Host τ η κ δ) (p : Program) (x : Place) (b : Branch) :
    h.execBranch p (e.rename x b) = h.execBranch p b := by
  unfold rename
  split
  · unfold Branch.unnamed
    split
    · simp only [Host.execBranch, Host.exec]
      rfl
    · simp only [Host.execBranch, Host.exec]
      rfl
    · rfl
  · rfl

/-- Rounds that are run one after another, next to those of a loop. -/
theorem rounds_alike (x : Place) (b : List Stmt) {body : Place → ToldWork τ κ δ Unit} {body' : Work τ κ δ Unit}
    (hbody : ∀ i, e.Matches h (body (.round i :: x)) body') (i n : Nat) :
    e.Matches h ((h.teller p).rounds x b body i n) (Script.repeatTimes body' n) := by
  induction n generalizing i with
  | zero => exact .pure rfl
  | succ n ih =>
    refine .bind (V := Eq) (.observe fun _ _ _ => rfl) fun _ _ _ => ?_
    exact .bind (enter_alike rfl (hbody i)) fun _ _ _ => ih (i + 1)

/-- Rounds that are run one after another, next to those of a loop that is written out. -/
theorem rounds_unrolled_alike (x : Place) (b : List Stmt) {body : Place → ToldWork τ κ δ Unit} {b' : List Stmt}
    (hbody : ∀ i, e.Matches h (body (.round i :: x)) (h.execBlock p' b')) (i n : Nat) :
    e.Matches h ((h.teller p).rounds x b body i n) (h.execBlock p' (List.replicate n b').flatten) := by
  induction n generalizing i with
  | zero => exact .pure rfl
  | succ n ih =>
    rw [List.replicate_succ, List.flatten_cons, execBlock_append]
    refine Script.Alike.glance fun _ => ?_
    exact .bind (enter_alike rfl (hbody i)) fun _ _ _ => ih (i + 1)

theorem sheds_loop {x : Place} (hx : IsBlock x) (i : Nat) (count : UInt32) (body : List Stmt) :
    e.sheds (.began (.stmt i :: x) (.stmt (.loop count body))) = e.unrolls (siteOf (.stmt i :: x)) := by
  simp only [sheds]
  split
  · rename_i j y
    exact absurd rfl (hx j y)
  · rfl

theorem sheds_of_not_unrolls {x : Place} (hx : IsBlock x) (i : Nat) (s : Stmt)
    (hstays : e.unrolls (siteOf (.stmt i :: x)) = false) : e.sheds (.began (.stmt i :: x) (.stmt s)) = false := by
  cases s with
  | loop count body => rw [sheds_loop hx, hstays]
  | _ => rfl

/-- A statement of a block, which may be a loop that is written out. -/
theorem spread_alike {x : Place} (hx : IsBlock x) (i : Nat) (s : Stmt)
    (hs : e.Matches h ((h.teller p).stmt (.stmt i :: x) s) (h.exec p' (e.stmt (siteOf (.stmt i :: x)) s)))
    (hloop : ∀ count body, s = .loop count body →
      e.Matches h ((h.teller p).rounds (.stmt i :: x) body (fun y => (h.teller p).block y 0 body) 0 count.toNat)
        (h.execBlock p' (e.stmt (siteOf (.stmt i :: x)) s).unrolled)) :
    e.Matches h ((h.teller p).enter (.stmt i :: x) (.stmt s) ((h.teller p).stmt (.stmt i :: x) s))
      (h.execBlock p' (e.spread (siteOf (.stmt i :: x)) (e.stmt (siteOf (.stmt i :: x)) s))) := by
  unfold spread
  split
  · rename_i hunrolls
    cases s with
    | loop count body => exact enter_loop_alike ((sheds_loop hx i count body).trans hunrolls) (hloop count body rfl)
    | _ =>
      rw [← execBlock_single] at hs
      exact enter_alike rfl hs
  · rename_i hstays
    rw [← execBlock_single] at hs
    exact enter_alike (sheds_of_not_unrolls hx i s (by simpa using hstays)) hs

/-- What stands alone in a branch is never written out. -/
theorem sheds_branch (i : Nat) (x : Place) (s : Stmt) : e.sheds (.began (.stmt 0 :: .branch i :: x) (.stmt s)) = false := by
  cases s <;> rfl

theorem bindSession_alike (hagents : ∀ call, p.agentFor call = p'.agentFor call) (x : Place) (name : String)
    (call : SessionCall) (resume : Bool) :
    e.Matches h ((h.teller p).bindSession x name call resume) (h.bindSession p' name call resume) := by
  refine .bind begin_alike fun _ _ _ => ?_
  refine .bind (call_alike hagents x call resume) ?_
  rintro text _ rfl
  exact write_alike x name _ text

/-- A branch that binds no name runs like its statement. -/
theorem plainBranch_alike {i : Nat} {x : Place} {b : Branch} {s : Stmt}
    (htold : (h.teller p).branch (.branch i :: x) b =
      (h.teller p).enter (.stmt 0 :: .branch i :: x) (.stmt s) ((h.teller p).stmt (.stmt 0 :: .branch i :: x) s))
    (hplain : h.execBranch p' (e.branch (siteOf (.branch i :: x)) b) =
      h.exec p' (e.stmt (siteOf (.stmt 0 :: .branch i :: x)) s))
    (hs : e.Matches h ((h.teller p).stmt (.stmt 0 :: .branch i :: x) s)
      (h.exec p' (e.stmt (siteOf (.stmt 0 :: .branch i :: x)) s))) :
    e.Matches h ((h.teller p).branch (.branch i :: x) b) (h.execBranch p' (e.branch (siteOf (.branch i :: x)) b)) := by
  rw [htold, hplain]
  exact enter_alike (sheds_branch i x s) hs

theorem sheds_block (x : Place) (b : List Stmt) : e.sheds (.began x (.block b)) = false := by
  unfold sheds
  split
  · rename_i heq
    cases heq
  · rfl

mutual

/-- A statement runs as it does when it is edited. -/
theorem stmt_alike (hagents : ∀ call, p.agentFor call = p'.agentFor call) : ∀ (s : Stmt) (x : Place),
    e.Matches h ((h.teller p).stmt x s) (h.exec p' (e.stmt (siteOf x) s))
  | .comment _, _ => begin_alike
  | .session call, x =>
    .bind begin_alike fun _ _ _ => .bind (call_alike hagents x call false) fun _ _ _ => .pure rfl
  | .resume call, x =>
    .bind begin_alike fun _ _ _ => .bind (call_alike hagents x call true) fun _ _ _ => .pure rfl
  | .assign name value, x => .bind begin_alike fun _ _ _ => bindValue_alike hagents x name _ value
  | .output name value, x => .bind begin_alike fun _ _ _ => bindValue_alike hagents x name _ value
  | .attempt body catchName handler final, x =>
    .bind begin_alike fun _ _ _ =>
      guard_alike x catchName (enter_alike rfl (block_alike hagents body (.body :: x) nofun 0))
        (optional_alike hagents handler (.handler :: x) nofun) (optional_alike hagents final (.final :: x) nofun)
  | .parallel policy bs, x => by
    rw [Edits.stmt, exec_policy]
    refine .bind begin_alike fun _ _ _ => ?_
    refine .bind (.together (branches_alike hagents bs x 0)) ?_
    rintro outcomes _ rfl
    exact .ofExcept (.of_eq rfl)
  | .loop count body, x =>
    .bind begin_alike fun _ _ _ =>
      rounds_alike x body (fun i => block_alike hagents body (.round i :: x) nofun 0) 0 count.toNat

/-- The rounds of a loop run as the loop does when it is written out. -/
theorem unrolled_alike (hagents : ∀ call, p.agentFor call = p'.agentFor call) : ∀ (s : Stmt) (x : Place),
    ∀ count body, s = .loop count body →
      e.Matches h ((h.teller p).rounds x body (fun y => (h.teller p).block y 0 body) 0 count.toNat)
        (h.execBlock p' (e.stmt (siteOf x) s).unrolled)
  | .loop count body, x, _, _, rfl =>
    rounds_unrolled_alike x body (fun i => block_alike hagents body (.round i :: x) nofun 0) 0 count.toNat

/-- A block runs as it does when it is edited. -/
theorem block_alike (hagents : ∀ call, p.agentFor call = p'.agentFor call) : ∀ (b : List Stmt) (x : Place),
    IsBlock x → ∀ i, e.Matches h ((h.teller p).block x i b) (h.execBlock p' (e.block (siteOf x) i b))
  | [], _, _, _ => .pure rfl
  | s :: rest, x, hx, i => by
    rw [Edits.block, execBlock_append]
    refine .bind (V := Eq) ?_ fun _ _ _ => block_alike hagents rest x hx (i + 1)
    exact spread_alike hx i s (stmt_alike hagents s (.stmt i :: x)) (unrolled_alike hagents s (.stmt i :: x))

/-- A block that may be missing runs as it does when it is edited. -/
theorem optional_alike (hagents : ∀ call, p.agentFor call = p'.agentFor call) : ∀ (o : Option (List Stmt)) (x : Place),
    IsBlock x → e.MatchesOptional h ((h.teller p).optional x o) (h.execOptional p' (e.optional (siteOf x) o))
  | none, _, _ => .none
  | some b, x, hx => .some (enter_alike (sheds_block x b) (block_alike hagents b x hx 0))

/-- A branch runs as it does when it is edited. -/
theorem branch_alike (hagents : ∀ call, p.agentFor call = p'.agentFor call) : ∀ (b : Branch) (x : Place) (i : Nat),
    e.Matches h ((h.teller p).branch (.branch i :: x) b) (h.execBranch p' (e.branch (siteOf (.branch i :: x)) b))
  | .mk name s, x, i => by
    have hs := stmt_alike hagents s (.stmt 0 :: .branch i :: x)
    cases name with
    | none =>
      refine plainBranch_alike (by simp only [Narrator.branch]) ?_ hs
      rw [Edits.branch, exec_rename]
      rfl
    | some name =>
      cases s with
      | session call =>
        rw [Edits.branch, exec_rename]
        exact bindSession_alike hagents _ name call false
      | resume call =>
        rw [Edits.branch, exec_rename]
        exact bindSession_alike hagents _ name call true
      | _ =>
        refine plainBranch_alike (by simp only [Narrator.branch]) ?_ hs
        rw [Edits.branch, exec_rename]
        rfl

/-- Branches run as they do when they are edited. -/
theorem branches_alike (hagents : ∀ call, p.agentFor call = p'.agentFor call) : ∀ (bs : List Branch) (x : Place) (i : Nat),
    List.Forall₂ (e.Matches h) ((h.teller p).branches x i bs) (h.execBranches p' (e.branches (siteOf x) i bs))
  | [], _, _ => .nil
  | b :: rest, x, i => .cons (enter_alike rfl (branch_alike hagents b x i)) (branches_alike hagents rest x (i + 1))

end

theorem inputs_alike (i : Nat) (inputs : List (String × String)) :
    e.Matches h ((h.teller p).inputs i inputs) (h.bindInputs inputs) := by
  induction inputs generalizing i with
  | nil => exact .pure rfl
  | cons input rest ih => exact .bind (write_alike [.input i] _ _ _) fun _ _ _ => ih (i + 1)

/-- A program runs as it does when it is edited. -/
theorem script_alike (p : Program) (inputs : KeyMap String) :
    e.Matches h ((h.teller p).script p inputs) (h.script (e.program p) inputs) := by
  refine .bind (inputs_alike 0 inputs) fun _ _ _ => ?_
  have hagents : ∀ call, p.agentFor call = (e.program p).agentFor call := fun _ => rfl
  exact enter_alike (sheds_block [.main] p.statements) (block_alike hagents p.statements [.main] nofun 0)

end

end Edits

/-! ## Runs -/

/-- The state of a run that has begun some statements more. -/
def RunState.raise (s : RunState τ κ δ) (n : Nat) : RunState τ κ δ :=
  s.count (·.raise n)

namespace Host

variable (h : Host τ η κ δ) (p : Program) (e : Edits) (inputs : KeyMap String) (limit : Option Nat) (s : RunState τ κ δ)

/-- The journal of a run. -/
def journalOf : Journal :=
  (h.journaled.drive limit 0 true (h.toldStart p inputs s []) (h.toldThread p inputs)).1.journal

variable {h p e inputs limit s}

theorem plain_of_world {w : ToldState τ κ δ} (hw : (e.mirror h).World w s) : w.plain = s.raise (e.shed w.journal) := by
  obtain ⟨hscope, hsessions, hcounters, husage, hbackend, hstore, houtbox⟩ := hw
  have hbackend : w.backend = s.backend := hbackend
  have hstore : w.store.1 = s.store := hstore
  have hcounters : w.counters = s.counters.raise (e.shed w.journal) := hcounters
  simp only [RunState.plain, RunState.raise, RunState.count, hscope, hsessions, hcounters, husage, hbackend, hstore, houtbox]

/-- The run that keeps a journal of a program goes as far as the run of the edited program. -/
theorem told_edited (h : Host τ η κ δ) (p : Program) (e : Edits) (inputs : KeyMap String) (limit : Option Nat)
    (s : RunState τ κ δ) :
    let told := h.journaled.drive limit 0 true (h.toldStart p inputs s []) (h.toldThread p inputs)
    let last := h.drive limit 0 true (h.begun (e.program p) inputs s).1 (h.begun (e.program p) inputs s).2
    told.1.plain = last.1.raise (e.shed (h.journalOf p inputs limit s)) ∧ told.2.result? = last.2.result? := by
  intro told last
  have hbegun : (e.mirror h).World (h.toldStart p inputs s []) (h.begun (e.program p) inputs s).1 :=
    ⟨rfl, rfl, rfl, rfl, rfl, rfl, rfl⟩
  obtain ⟨hworld, hthread⟩ := drive_alike (e.mirror h).tied limit 0 true _ _ hbegun
    (.ready false (Edits.script_alike p inputs).plan)
  exact ⟨plain_of_world hworld, hthread.result?_eq⟩

theorem raise_zero (s : RunState τ κ δ) : s.raise 0 = s :=
  rfl

/-- A run that has begun some statements more comes to the same end. -/
theorem wrapUp_raise (h : Host τ η κ δ) (limit : Option Nat) (r : Option Outcome) (s : RunState τ κ δ) (n : Nat) :
    h.wrapUp limit r (s.raise n) = ((h.wrapUp limit r s).1.raise n, (h.wrapUp limit r s).2) := by
  cases r with
  | none => rfl
  | some outcome =>
    simp only [wrapUp, finish]
    split
    · rename_i hphase
      rw [if_pos (by exact hphase)]
      rfl
    · rename_i hphase
      rw [if_neg (by exact hphase)]
      rfl

theorem run_edited (h : Host τ η κ δ) (p : Program) (e : Edits) (inputs : KeyMap String) (limit : Option Nat)
    (s : RunState τ κ δ) :
    h.run p inputs limit s =
      ((h.run (e.program p) inputs limit s).1.raise (e.shed (h.journalOf p inputs limit s)),
        (h.run (e.program p) inputs limit s).2) := by
  -- The run that keeps a journal is compared with both runs; for the first one, nothing is edited.
  obtain ⟨hstate, hresult⟩ := told_edited h p .empty inputs limit s
  obtain ⟨hstate', hresult'⟩ := told_edited h p e inputs limit s
  rw [Edits.program_empty, Edits.shed_empty, raise_zero] at hstate
  rw [Edits.program_empty] at hresult
  rw [run_eq_wrapUp, run_eq_wrapUp, ← hresult, hresult', ← hstate, hstate', wrapUp_raise]

end Host

/-- **Programs may be written in another way.** Whatever is edited in a program, its run leaves the same bindings, outputs, sessions and
    usage, the same store and the same outbox, asks the same of its backend and puts the same into its store, and comes to the same end,
    or to none by the same limit. Only it has begun one statement less each time that a loop would have begun which is written out. -/
theorem edits_preserve (h : Host τ η κ δ) (p : Program) (e : Edits) (inputs : KeyMap String) (limit : Option Nat)
    (s : RunState τ κ δ) :
    let saved := e.shed (h.journalOf p inputs limit s)
    h.run p inputs limit s =
        ((h.run (e.program p) inputs limit s).1.raise saved, (h.run (e.program p) inputs limit s).2) ∧
      (h.logged.run p inputs limit s.logged).1.calls = (h.logged.run (e.program p) inputs limit s.logged).1.calls ∧
      (h.logged.run p inputs limit s.logged).1.deposits = (h.logged.run (e.program p) inputs limit s.logged).1.deposits ∧
      (let saved := e.shed (h.journalOf p inputs none s)
       h.runToEnd p inputs s =
        ((h.runToEnd (e.program p) inputs s).1.raise saved,
          (h.runToEnd (e.program p) inputs s).2.map fun o => { o with counters := o.counters.raise saved })) := by
  have hlogged := h.logged.run_edited p e inputs limit s.logged
  refine ⟨h.run_edited p e inputs limit s, by rw [hlogged]; rfl, by rw [hlogged]; rfl, ?_⟩
  have hrun := h.run_edited p e inputs none s
  unfold Host.runToEnd
  rw [hrun]
  cases h.run (e.program p) inputs none s with
  | mk last r =>
    cases r with
    | none => rfl
    | some outcome =>
      cases outcome with
      | ok _ => rfl
      | error f => rfl

end Playbook
