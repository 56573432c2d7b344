import Mathlib.Data.List.Perm.Basic
import Playbook.Proofs.Run.Journal

/-!
# `Proofs.Run.Account` — what a journal says of a part of a program

An *account* of something that ran at a place says which entries it has left, in order, and how it went. There is one rule for
each way in which the parts of a program are made, and each rule accounts for the parts of which a whole is made: a block for its
statements up to the first that fails, a `try` for its body, its handler and its final body, a parallel block for its branches,
whose entries may stand between one another.

## Contents
- **Leaves.** `Wrote`, `Asked`, `Valued`, `Leaf`.
- **Passages.** `Passage`, `Task.chain`, `overrule`, `Journal.endings`.
- **Accounts.** `Account`.
- **Places.** `Account.covered`: the entries of an account are about its place.
- **Within.** `Account.within`: an account of a whole holds one of everything that has begun in it.
- **Whole runs.** `Story`.
-/

namespace Playbook

/-! ## Leaves -/

/-- What the write of a binding leaves. -/
inductive Wrote (x : Place) (name : String) (kind : BindingKind) (text : String) :
    Journal → Outcome → Prop where
  | bound (n : Nat) (receipt : StoredContent) :
      Wrote x name kind text
        [.writing x n name kind text, .stored x n (.ok receipt),
          .bound x n (Host.bindingOf name kind text receipt) text] (.ok ())
  | refused (n : Nat) (e : Failure) :
      Wrote x name kind text [.writing x n name kind text, .stored x n (.error e)] (.error e)

/-- What a session call leaves. -/
inductive Asked (x : Place) (call : SessionCall) (resume : Bool) :
    Journal → Except Failure String → Prop where
  | mk (n : Nat) (r : Except Failure String) :
      Asked x call resume [.asked x n call resume, .answered x n r] r

/-- What the evaluation of an expression leaves. -/
inductive Valued (x : Place) : Expr → Journal → Except Failure String → Prop where
  | str (value : String) : Valued x (.str value) [] (.ok value)
  | var (name value : String) : Valued x (.var name) [] (.ok value)
  | unknown (name : String) :
      Valued x (.var name) [] (.error (Failure.Cause.unknownVariable name).failure)
  | session {call : SessionCall} {m : Journal} {r : Except Failure String}
      (h : Asked x call false m r) : Valued x (.session call) m r
  | resume {call : SessionCall} {m : Journal} {r : Except Failure String}
      (h : Asked x call true m r) : Valued x (.resume call) m r

/-- The first of two things fails, or the second follows. -/
inductive Then (first : Journal → Except Failure String → Prop)
    (second : String → Journal → Outcome → Prop) : Journal → Outcome → Prop where
  | stop {m : Journal} {e : Failure} (h : first m (.error e)) : Then first second m (.error e)
  | next {m m' : Journal} {text : String} {r : Outcome} (h : first m (.ok text))
      (h' : second text m' r) : Then first second (m ++ m') r

/-- What a task leaves in which nothing else begins. -/
inductive Leaf (x : Place) : Task → Journal → Outcome → Prop where
  | comment (text : String) : Leaf x (.stmt (.comment text)) [] (.ok ())
  | session {call : SessionCall} {m : Journal} {r : Except Failure String}
      (h : Asked x call false m r) : Leaf x (.stmt (.session call)) m (r.map fun _ => ())
  | resume {call : SessionCall} {m : Journal} {r : Except Failure String}
      (h : Asked x call true m r) : Leaf x (.stmt (.resume call)) m (r.map fun _ => ())
  | assign {name : String} {value : Expr} {m : Journal} {r : Outcome}
      (h : Then (Valued x value) (Wrote x name .assigned) m r) :
      Leaf x (.stmt (.assign name value)) m r
  | output {name : String} {value : Expr} {m : Journal} {r : Outcome}
      (h : Then (Valued x value) (Wrote x name .output) m r) :
      Leaf x (.stmt (.output name value)) m r
  | branchSession {name : String} {call : SessionCall} {m : Journal} {r : Outcome}
      (h : Then (Asked x call false) (Wrote x name .assigned) m r) :
      Leaf x (.branch (.mk (some name) (.session call))) m r
  | branchResume {name : String} {call : SessionCall} {m : Journal} {r : Outcome}
      (h : Then (Asked x call true) (Wrote x name .assigned) m r) :
      Leaf x (.branch (.mk (some name) (.resume call))) m r

/-! ## Passages -/

/-- What there is an account of. -/
inductive Passage where
  /-- A task. -/
  | task (t : Task)
  /-- Tasks one after another, up to the first that fails. -/
  | chain (parts : List (Leg × Task))
  /-- What follows the body of a `try`, given how the body went. -/
  | handling (catchName : Option String) (handler : Option (List Stmt)) (outcome : Outcome)

/-- Whether a branch binds a name to the result of a session. -/
def Branch.isNamed : Branch → Bool
  | .mk (some _) (.session _) | .mk (some _) (.resume _) => true
  | _ => false

/-- The statements of a block, from a position on. -/
def blockChain (i : Nat) : List Stmt → List (Leg × Task)
  | [] => []
  | s :: rest => (.stmt i, .stmt s) :: blockChain (i + 1) rest

/-- The rounds of a loop, from a round on. -/
def roundChain (b : List Stmt) (i : Nat) : Nat → List (Leg × Task)
  | 0 => []
  | n + 1 => (.round i, .block b) :: roundChain b (i + 1) n

/-- A final body, if there is one. -/
def finalChain (final : Option (List Stmt)) : List (Leg × Task) :=
  (final.map fun b => (.final, .block b)).toList

/-- The tasks that follow one another in a task. -/
def Task.chain : Task → Option (List (Leg × Task))
  | .block b => some (blockChain 0 b)
  | .stmt (.loop count body) => some (roundChain body 0 count.toNat)
  | .branch b => if b.isNamed then none else some [(.stmt 0, .stmt b.stmt)]
  | .stmt _ => none

/-- How a `try` went, given how its final body went and how it had gone before. -/
def overrule (final before : Outcome) : Outcome :=
  match final with
  | .ok () => before
  | .error e => .error e

/-- The branch of the parallel block at a place that an entry says has ended, and how it went. -/
def Entry.ending? (x : Place) : Entry → Option (Nat × Outcome)
  | .ended (.branch i :: y) r => if y = x then some (i, r) else none
  | _ => none

/-- The branches of the parallel block at a place, in the order in which they ended, and how they went. -/
def Journal.endings (x : Place) (l : Journal) : List (Nat × Outcome) :=
  l.filterMap (Entry.ending? x)

/-! ## Accounts -/

/-- What something that ran at a place has left in the journal, and how it went. -/
inductive Account : Place → Passage → Journal → Outcome → Prop where
  | leaf {x : Place} {t : Task} {m : Journal} {r : Outcome} (h : Leaf x t m r) :
      Account x (.task t) (.began x t :: (m ++ [.ended x r])) r
  | chain {x : Place} {t : Task} {parts : List (Leg × Task)} {m : Journal} {r : Outcome}
      (hparts : t.chain = some parts) (h : Account x (.chain parts) m r) :
      Account x (.task t) (.began x t :: (m ++ [.ended x r])) r
  | attempt {x : Place} {body : List Stmt} {catchName : Option String}
      {handler final : Option (List Stmt)} {m₁ m₂ m₃ : Journal} {r₁ r₂ r₃ : Outcome}
      (hbody : Account (.body :: x) (.task (.block body)) m₁ r₁)
      (hhandling : Account x (.handling catchName handler r₁) m₂ r₂)
      (hfinal : Account x (.chain (finalChain final)) m₃ r₃) :
      Account x (.task (.stmt (.attempt body catchName handler final)))
        (.began x (.stmt (.attempt body catchName handler final)) ::
          (m₁ ++ m₂ ++ m₃ ++ [.ended x (overrule r₃ r₂)])) (overrule r₃ r₂)
  | parallel {x : Place} {policy : FailurePolicy} {branches : List Branch} {m : Journal}
      (rs : List (Nat × Outcome))
      (hperm : (rs.map Prod.fst).Perm (List.range branches.length))
      (hendings : m.endings x = rs)
      (honly : ∀ e ∈ m, ∃ i < branches.length, (.branch i :: x) <:+ e.place)
      (hbranches : ∀ i b r, branches[i]? = some b → (i, r) ∈ rs →
        Account (.branch i :: x) (.task (.branch b)) (m.under (.branch i :: x)) r) :
      Account x (.task (.stmt (.parallel policy branches)))
        (.began x (.stmt (.parallel policy branches)) ::
          (m ++ [.ended x (Host.settle policy (rs.map Prod.snd))]))
        (Host.settle policy (rs.map Prod.snd))
  | nil {x : Place} : Account x (.chain []) [] (.ok ())
  | stop {x : Place} {leg : Leg} {t : Task} {rest : List (Leg × Task)} {m : Journal} {e : Failure}
      (h : Account (leg :: x) (.task t) m (.error e)) :
      Account x (.chain ((leg, t) :: rest)) m (.error e)
  | next {x : Place} {leg : Leg} {t : Task} {rest : List (Leg × Task)} {m m' : Journal} {r : Outcome}
      (hfresh : leg ∉ rest.map Prod.fst) (h : Account (leg :: x) (.task t) m (.ok ()))
      (hrest : Account x (.chain rest) m' r) :
      Account x (.chain ((leg, t) :: rest)) (m ++ m') r
  | fine {x : Place} {catchName : Option String} {handler : Option (List Stmt)} :
      Account x (.handling catchName handler (.ok ())) [] (.ok ())
  /-- There is no handler, or not for this failure. -/
  | unhandled {x : Place} {catchName : Option String} {handler : Option (List Stmt)} {e : Failure}
      (h : handler = none ∨ ¬e.isCatchable) :
      Account x (.handling catchName handler (.error e)) [] (.error e)
  /-- The message cannot be bound. -/
  | unbound {x : Place} {name : String} {b : List Stmt} {e e' : Failure} {m : Journal}
      (hcatchable : e.isCatchable)
      (hmessage : Wrote (.message :: x) name .assigned e.message m (.error e')) :
      Account x (.handling (some name) (some b) (.error e)) m (.error e')
  | caught {x : Place} {catchName : Option String} {b : List Stmt} {e : Failure} {m m' : Journal}
      {r : Outcome} (hcatchable : e.isCatchable)
      (hmessage : match catchName with
        | some name => Wrote (.message :: x) name .assigned e.message m (.ok ())
        | none => m = [])
      (h : Account (.handler :: x) (.task (.block b)) m' r) :
      Account x (.handling catchName (some b) (.error e)) (m ++ m') r

/-! ## Places -/

/-- The places that an account of a part is about. -/
def Passage.Covers (x y : Place) : Passage → Prop
  | .task _ => x <:+ y
  | .chain parts => ∃ leg ∈ parts.map Prod.fst, (leg :: x) <:+ y
  | .handling _ _ _ => (.message :: x) <:+ y ∨ (.handler :: x) <:+ y

theorem Passage.Covers.suffix {x y : Place} {passage : Passage} (h : passage.Covers x y) : x <:+ y := by
  cases passage with
  | task t => exact h
  | chain parts =>
    obtain ⟨leg, _, h⟩ := h
    exact (List.suffix_cons leg x).trans h
  | handling catchName handler outcome =>
    rcases h with h | h
    · exact (List.suffix_cons _ x).trans h
    · exact (List.suffix_cons _ x).trans h

/-- Whether an entry is about something at a place that neither begins nor ends there. -/
def Entry.Details (x : Place) (e : Entry) : Prop :=
  e.place = x ∧ e.isMark = false

theorem Wrote.details {x : Place} {name : String} {kind : BindingKind} {text : String} {m : Journal}
    {r : Outcome} (h : Wrote x name kind text m r) : ∀ e ∈ m, e.Details x := by
  cases h <;> simp [Entry.Details, Entry.place, Entry.isMark]

theorem Asked.details {x : Place} {call : SessionCall} {resume : Bool} {m : Journal}
    {r : Except Failure String} (h : Asked x call resume m r) : ∀ e ∈ m, e.Details x := by
  cases h
  simp [Entry.Details, Entry.place, Entry.isMark]

theorem Valued.details {x : Place} {value : Expr} {m : Journal} {r : Except Failure String}
    (h : Valued x value m r) : ∀ e ∈ m, e.Details x := by
  cases h with
  | str => simp
  | var => simp
  | unknown => simp
  | session h => exact h.details
  | resume h => exact h.details

theorem Then.all {p : Entry → Prop} {first : Journal → Except Failure String → Prop}
    {second : String → Journal → Outcome → Prop} {m : Journal} {r : Outcome}
    (hfirst : ∀ m r, first m r → ∀ e ∈ m, p e)
    (hsecond : ∀ text m r, second text m r → ∀ e ∈ m, p e) (h : Then first second m r) :
    ∀ e ∈ m, p e := by
  cases h with
  | stop h => exact hfirst _ _ h
  | next h h' =>
    intro e he
    rcases List.mem_append.1 he with he | he
    · exact hfirst _ _ h e he
    · exact hsecond _ _ _ h' e he

theorem Leaf.details {x : Place} {t : Task} {m : Journal} {r : Outcome} (h : Leaf x t m r) :
    ∀ e ∈ m, e.Details x := by
  cases h with
  | comment => simp
  | session h => exact h.details
  | resume h => exact h.details
  | assign h => exact h.all (fun _ _ => Valued.details) fun _ _ _ => Wrote.details
  | output h => exact h.all (fun _ _ => Valued.details) fun _ _ _ => Wrote.details
  | branchSession h => exact h.all (fun _ _ => Asked.details) fun _ _ _ => Wrote.details
  | branchResume h => exact h.all (fun _ _ => Asked.details) fun _ _ _ => Wrote.details

theorem message_details {x : Place} {catchName : Option String} {text : String} {m : Journal}
    (h : match catchName with
      | some name => Wrote (.message :: x) name .assigned text m (.ok ())
      | none => m = []) : ∀ e ∈ m, e.Details (.message :: x) := by
  cases catchName with
  | none => simp [h]
  | some name => exact Wrote.details h

/-- The entries between the beginning and the end of a task are about places at or within its own. -/
theorem covered_between {x : Place} {t : Task} {m : Journal} {r : Outcome}
    (h : ∀ e ∈ m, x <:+ e.place) :
    ∀ e ∈ Entry.began x t :: (m ++ [Entry.ended x r]), x <:+ e.place := by
  intro e he
  rw [List.mem_cons, List.mem_append, List.mem_singleton] at he
  rcases he with rfl | he | rfl
  · exact List.suffix_refl x
  · exact h e he
  · exact List.suffix_refl x

namespace Account

variable {x y : Place} {passage : Passage} {m : Journal} {r : Outcome}

/-- The entries of an account are about the places that it covers. -/
theorem covered (h : Account x passage m r) : ∀ e ∈ m, passage.Covers x e.place := by
  induction h with
  | leaf h => exact covered_between fun e he => (h.details e he).1 ▸ List.suffix_refl _
  | chain _ _ ih => exact covered_between fun e he => (ih e he).suffix
  | @attempt x _ _ _ _ m₁ m₂ m₃ _ _ _ _ _ _ ih₁ ih₂ ih₃ =>
    refine covered_between fun e he => ?_
    rw [List.mem_append, List.mem_append] at he
    rcases he with (he | he) | he
    · exact (List.suffix_cons _ x).trans (ih₁ e he)
    · exact (ih₂ e he).suffix
    · exact (ih₃ e he).suffix
  | @parallel x _ _ _ _ _ _ honly _ _ =>
    refine covered_between fun e he => ?_
    obtain ⟨i, _, hi⟩ := honly e he
    exact (List.suffix_cons _ x).trans hi
  | nil => simp
  | @stop x leg _ _ _ _ _ ih =>
    intro e he
    exact ⟨leg, by simp, ih e he⟩
  | @next x leg _ _ _ _ _ _ _ _ ih ih' =>
    intro e he
    rcases List.mem_append.1 he with he | he
    · exact ⟨leg, by simp, ih e he⟩
    · obtain ⟨other, hother, hplace⟩ := ih' e he
      exact ⟨other, List.mem_cons_of_mem _ hother, hplace⟩
  | fine => simp
  | unhandled => simp
  | @unbound x _ _ _ _ _ _ hmessage =>
    intro e he
    exact .inl ((hmessage.details e he).1 ▸ List.suffix_refl _)
  | caught _ hmessage _ ih =>
    intro e he
    rcases List.mem_append.1 he with he | he
    · exact .inl ((message_details hmessage e he).1 ▸ List.suffix_refl _)
    · exact .inr (ih e he)

theorem covered_handling {catchName : Option String} {handler : Option (List Stmt)}
    {outcome : Outcome} (h : Account x (.handling catchName handler outcome) m r) :
    ∀ e ∈ m, ∃ leg : Leg, (leg = .message ∨ leg = .handler) ∧ (leg :: x) <:+ e.place := by
  intro e he
  rcases h.covered e he with hplace | hplace
  · exact ⟨.message, .inl rfl, hplace⟩
  · exact ⟨.handler, .inr rfl, hplace⟩

theorem covered_final {final : Option (List Stmt)} (h : Account x (.chain (finalChain final)) m r) :
    ∀ e ∈ m, (Leg.final :: x) <:+ e.place := by
  intro e he
  obtain ⟨leg, hleg, hplace⟩ := h.covered e he
  cases final with
  | none => simp [finalChain] at hleg
  | some b =>
    have heq : leg = .final := by simpa [finalChain] using hleg
    exact heq ▸ hplace

/-- A task that is all there is to run. -/
theorem single {leg : Leg} {t : Task} (h : Account (leg :: x) (.task t) m r) :
    Account x (.chain [(leg, t)]) m r := by
  cases r with
  | ok u =>
    rw [← List.append_nil m]
    exact .next (by simp) h .nil
  | error e => exact .stop h

/-- An account of a task begins and ends with the task. -/
theorem task_shape {t : Task} (h : Account x (.task t) m r) :
    ∃ m', m = .began x t :: (m' ++ [.ended x r]) ∧
      ∀ e ∈ m', e.Details x ∨ ∃ leg : Leg, (leg :: x) <:+ e.place := by
  cases h with
  | leaf h => exact ⟨_, rfl, fun e he => .inl (h.details e he)⟩
  | chain _ h =>
    refine ⟨_, rfl, fun e he => .inr ?_⟩
    obtain ⟨leg, _, hleg⟩ := h.covered e he
    exact ⟨leg, hleg⟩
  | attempt hbody hhandling hfinal =>
    refine ⟨_, rfl, fun e he => .inr ?_⟩
    rw [List.mem_append, List.mem_append] at he
    rcases he with (he | he) | he
    · exact ⟨_, hbody.covered e he⟩
    · rcases hhandling.covered e he with h | h
      · exact ⟨_, h⟩
      · exact ⟨_, h⟩
    · obtain ⟨leg, _, hleg⟩ := hfinal.covered e he
      exact ⟨leg, hleg⟩
  | parallel _ _ _ honly _ =>
    refine ⟨_, rfl, fun e he => .inr ?_⟩
    obtain ⟨i, _, hi⟩ := honly e he
    exact ⟨_, hi⟩

/-- What an account says under a place to which none of its entries belongs. -/
theorem under_eq_nil_of_leg {leg : Leg} (hy : (leg :: x) <:+ y)
    (h : ∀ e ∈ m, ∃ other, other ≠ leg ∧ (other :: x) <:+ e.place) : m.under y = [] := by
  apply Journal.under_eq_nil
  intro e he hplace
  obtain ⟨other, hne, hother⟩ := h e he
  exact hne (leg_eq_of_suffix hother (hy.trans hplace))

/-! ## Within -/

/-- A task holds an account of what begins in it if what lies between its beginning and its end does. -/
theorem within_task {t u : Task} (h : Account x (.task t) (.began x t :: (m ++ [.ended x r])) r)
    (hlegs : ∀ e ∈ m, e.isMark → ∃ leg : Leg, (leg :: x) <:+ e.place)
    (hmid : .began y u ∈ m → ∃ r', Account y (.task u) (m.under y) r')
    (hmem : .began y u ∈ Entry.began x t :: (m ++ [Entry.ended x r])) :
    ∃ r', Account y (.task u)
      (Journal.under y (Entry.began x t :: (m ++ [Entry.ended x r]))) r' := by
  rw [List.mem_cons, List.mem_append, List.mem_singleton] at hmem
  rcases hmem with heq | hmem | heq
  · rw [Entry.began.injEq] at heq
    obtain ⟨rfl, rfl⟩ := heq
    rw [Journal.under_eq_self h.covered]
    exact ⟨r, h⟩
  · obtain ⟨r', hr'⟩ := hmid hmem
    obtain ⟨leg, hleg⟩ := hlegs _ hmem rfl
    have hx : ¬y <:+ x := not_suffix_of_leg hleg
    have hunder : Journal.under y (Entry.began x t :: (m ++ [Entry.ended x r])) = m.under y := by
      rw [← List.singleton_append, Journal.under_append, Journal.under_append]
      rw [Journal.under_eq_nil (l := [Entry.began x t]) (by simpa [Entry.place] using hx)]
      rw [Journal.under_eq_nil (l := [Entry.ended x r]) (by simpa [Entry.place] using hx)]
      simp
    rw [hunder]
    exact ⟨r', hr'⟩
  · cases heq

/-- Two journals one after another hold an account of what begins in them if each does, and they are about different legs. -/
theorem within_append {P Q : Leg → Prop} {m' : Journal} {u : Task}
    (hdisj : ∀ leg, P leg → ¬Q leg)
    (hfirst : ∀ e ∈ m, ∃ leg, P leg ∧ (leg :: x) <:+ e.place)
    (hsecond : ∀ e ∈ m', ∃ leg, Q leg ∧ (leg :: x) <:+ e.place)
    (ih : .began y u ∈ m → ∃ r', Account y (.task u) (m.under y) r')
    (ih' : .began y u ∈ m' → ∃ r', Account y (.task u) (m'.under y) r')
    (hmem : .began y u ∈ m ++ m') : ∃ r', Account y (.task u) ((m ++ m').under y) r' := by
  rw [Journal.under_append]
  rcases List.mem_append.1 hmem with he | he
  · obtain ⟨leg, hleg, hy⟩ := hfirst _ he
    have hnil : m'.under y = [] := under_eq_nil_of_leg hy fun e he => by
      obtain ⟨other, hother, hplace⟩ := hsecond e he
      exact ⟨other, fun heq => hdisj leg hleg (heq ▸ hother), hplace⟩
    rw [hnil, List.append_nil]
    exact ih he
  · obtain ⟨leg, hleg, hy⟩ := hsecond _ he
    have hnil : m.under y = [] := under_eq_nil_of_leg hy fun e he => by
      obtain ⟨other, hother, hplace⟩ := hfirst e he
      exact ⟨other, fun heq => hdisj other hother (heq ▸ hleg), hplace⟩
    rw [hnil, List.nil_append]
    exact ih' he

/-- An account of a whole holds one of everything that has begun in it. -/
theorem within {u : Task} (h : Account x passage m r) (hmem : .began y u ∈ m) :
    ∃ r', Account y (.task u) (m.under y) r' := by
  induction h with
  | leaf h =>
    have hnone : ∀ e : Entry, e ∈ _ → e.isMark → False := fun e he hmark => by
      rw [(h.details e he).2] at hmark
      cases hmark
    exact within_task (.leaf h) (fun e he hmark => (hnone e he hmark).elim)
      (fun he => (hnone _ he rfl).elim) hmem
  | chain hparts h ih =>
    refine within_task (.chain hparts h) (fun e he _ => ?_) ih hmem
    obtain ⟨leg, _, hleg⟩ := h.covered e he
    exact ⟨leg, hleg⟩
  | @attempt x _ _ _ _ m₁ m₂ m₃ _ _ _ hbody hhandling hfinal ih₁ ih₂ ih₃ =>
    have hfirst : ∀ e ∈ m₁, ∃ leg : Leg, leg = .body ∧ (leg :: x) <:+ e.place :=
      fun e he => ⟨_, rfl, hbody.covered e he⟩
    have hsecond : ∀ e ∈ m₂, ∃ leg : Leg, (leg = .message ∨ leg = .handler) ∧
        (leg :: x) <:+ e.place := hhandling.covered_handling
    have hboth : ∀ e ∈ m₁ ++ m₂, ∃ leg : Leg, leg ≠ .final ∧ (leg :: x) <:+ e.place := by
      intro e he
      rcases List.mem_append.1 he with he | he
      · exact ⟨.body, nofun, hbody.covered e he⟩
      · obtain ⟨leg, hleg, hplace⟩ := hsecond e he
        exact ⟨leg, by rcases hleg with rfl | rfl <;> nofun, hplace⟩
    have hthird : ∀ e ∈ m₃, ∃ leg : Leg, leg = .final ∧ (leg :: x) <:+ e.place :=
      fun e he => ⟨_, rfl, hfinal.covered_final e he⟩
    refine within_task (.attempt hbody hhandling hfinal) (fun e he _ => ?_) (fun he => ?_) hmem
    · rcases List.mem_append.1 he with he | he
      · obtain ⟨leg, _, hleg⟩ := hboth e he
        exact ⟨leg, hleg⟩
      · obtain ⟨leg, _, hleg⟩ := hthird e he
        exact ⟨leg, hleg⟩
    · refine within_append (fun leg hleg => hleg) hboth hthird (fun he => ?_) ih₃ he
      refine within_append (fun leg hleg => ?_) hfirst hsecond ih₁ ih₂ he
      subst hleg
      rintro (h | h) <;> cases h
  | @parallel x policy branches m rs hperm hendings honly hbranches ih =>
    refine within_task (.parallel rs hperm hendings honly hbranches) (fun e he _ => ?_)
      (fun he => ?_) hmem
    · obtain ⟨i, _, hi⟩ := honly e he
      exact ⟨_, hi⟩
    · obtain ⟨i, hlt, hi⟩ := honly _ he
      have hmem' : i ∈ rs.map Prod.fst := hperm.mem_iff.2 (List.mem_range.2 hlt)
      obtain ⟨⟨j, r⟩, hr, rfl⟩ := List.mem_map.1 hmem'
      obtain ⟨r', hr'⟩ := ih j branches[j] r (List.getElem?_eq_getElem hlt) hr
        (Journal.mem_under.2 ⟨he, hi⟩)
      have hy : (Leg.branch j :: x) <:+ y := hi
      rw [Journal.under_under hy] at hr'
      exact ⟨r', hr'⟩
  | nil => cases hmem
  | stop _ ih => exact ih hmem
  | next hfresh h hrest ih ih' =>
    refine within_append (fun other hother => ?_) (fun e he => ⟨_, rfl, h.covered e he⟩)
      hrest.covered ih ih' hmem
    exact hother ▸ hfresh
  | fine => cases hmem
  | unhandled => cases hmem
  | unbound _ hmessage =>
    have hmark := (hmessage.details _ hmem).2
    cases hmark
  | @caught x catchName b e m m' r _ hmessage h ih =>
    have hfirst : ∀ e ∈ m, e.Details (.message :: x) := message_details hmessage
    refine within_append (P := (· = .message)) (Q := (· = .handler)) (fun leg hleg => ?_)
      (fun e he => ⟨_, rfl, (hfirst e he).1.symm ▸ List.suffix_refl _⟩)
      (fun e he => ⟨_, rfl, h.covered e he⟩) (fun he => ?_) ih hmem
    · subst hleg
      nofun
    · cases (hfirst _ he).2

end Account

/-! ## Whole runs -/

/-- What the inputs of a run leave, from a position on. -/
inductive Fed : Nat → List (String × String) → Journal → Outcome → Prop where
  | nil {i : Nat} : Fed i [] [] (.ok ())
  | stop {i : Nat} {name text : String} {rest : List (String × String)} {m : Journal} {e : Failure}
      (h : Wrote [.input i] name .input text m (.error e)) :
      Fed i ((name, text) :: rest) m (.error e)
  | next {i : Nat} {name text : String} {rest : List (String × String)} {m m' : Journal} {r : Outcome}
      (h : Wrote [.input i] name .input text m (.ok ())) (hrest : Fed (i + 1) rest m' r) :
      Fed i ((name, text) :: rest) (m ++ m') r

/-- What a run leaves, and how it goes: its inputs are bound, and then the program runs. -/
inductive Story (p : Program) (inputs : List (String × String)) : Journal → Outcome → Prop where
  | refused {m : Journal} {e : Failure} (h : Fed 0 inputs m (.error e)) : Story p inputs m (.error e)
  | ran {m m' : Journal} {r : Outcome} (h : Fed 0 inputs m (.ok ()))
      (hmain : Account [.main] (.task (.block p.statements)) m' r) : Story p inputs (m ++ m') r

theorem Fed.details {i : Nat} {inputs : List (String × String)} {m : Journal} {r : Outcome}
    (h : Fed i inputs m r) : ∀ e ∈ m, ∃ j, e.Details [.input j] := by
  induction h with
  | nil => simp
  | @stop i _ _ _ _ _ h => exact fun e he => ⟨i, h.details e he⟩
  | @next i _ _ _ _ _ _ h _ ih =>
    intro e he
    rcases List.mem_append.1 he with he | he
    · exact ⟨i, h.details e he⟩
    · exact ih e he

/-- The story of a run holds an account of everything that has begun in it. -/
theorem Story.within {p : Program} {inputs : List (String × String)} {m : Journal} {r : Outcome}
    {y : Place} {t : Task} (h : Story p inputs m r) (hmem : .began y t ∈ m) :
    [.main] <:+ y ∧ ∃ r', Account y (.task t) (m.under y) r' := by
  cases h with
  | refused h =>
    obtain ⟨j, hdetails⟩ := h.details _ hmem
    cases hdetails.2
  | @ran m m' r h hmain =>
    rcases List.mem_append.1 hmem with he | he
    · obtain ⟨j, hdetails⟩ := h.details _ he
      cases hdetails.2
    · have hy : [Leg.main] <:+ y := hmain.covered _ he
      have hnil : m.under y = [] := Account.under_eq_nil_of_leg hy fun e he => by
        obtain ⟨j, hdetails⟩ := h.details e he
        exact ⟨.input j, nofun, hdetails.1.symm ▸ List.suffix_refl _⟩
      rw [Journal.under_append, hnil, List.nil_append]
      exact ⟨hy, hmain.within he⟩

end Playbook
