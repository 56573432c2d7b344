import Playbook.Proofs.Run.Narrator
import Playbook.Run.Execution

/-!
# `Proofs.Run.Journal` — a run that keeps a journal

To say what ran in a run, and in what order, the run is repeated by one that keeps a *journal*. It gets an entry when something
begins at a place of the program and when it ends, when a session call is made and answered, and at each stage of the write of a
binding.

The journal lies in the store, next to what is stored, where neither the store nor the program looks at it; `RunState.plain` takes
it away. That the run is otherwise the same is shown in `Proofs.Run.Telling`.

## Contents
- **Entries.** `Entry`, `Journal`, and `Journal.under`, what it says of a place.
- **Keeping it.** `ContentStore.aside`, `Host.journaled`, `RunState.tell`, `RunState.plain`.
- **Telling.** `Host.enter`, `Host.tellWrite`, `Host.tellCall`, and with them `Host.teller`, the narrator that keeps a journal.
-/

namespace Playbook

/-! ## Entries -/

/-- An entry of a journal. -/
inductive Entry where
  /-- Something begins. -/
  | began (x : Place) (t : Task)
  /-- What has begun at a place has ended. -/
  | ended (x : Place) (r : Outcome)
  /-- A session call is made; it is given a number. -/
  | asked (x : Place) (n : Nat) (call : SessionCall) (resume : Bool)
  /-- The call has been answered. -/
  | answered (x : Place) (n : Nat) (r : Except Failure String)
  /-- A text is to be bound, the n-th that the run writes. -/
  | writing (x : Place) (n : Nat) (name : String) (kind : BindingKind) (text : String)
  /-- The store has taken the text, or has refused it. -/
  | stored (x : Place) (n : Nat) (r : Except Failure StoredContent)
  /-- The text is bound. -/
  | bound (x : Place) (n : Nat) (b : Binding) (text : String)

/-- The place of an entry. -/
def Entry.place : Entry → Place
  | began x _ | ended x _ | asked x _ _ _ | answered x _ _ | writing x _ _ _ _ | stored x _ _
  | bound x _ _ _ => x

/-- Whether an entry says that something begins or has ended. -/
def Entry.isMark : Entry → Bool
  | began _ _ | ended _ _ => true
  | _ => false

/-- Whether an entry says that what began at a place has ended. -/
def Entry.Closes (x : Place) : Entry → Prop
  | ended y _ => y = x
  | _ => False

/-- What has happened, the oldest first. -/
abbrev Journal := List Entry

/-- The part of a journal that is about a place and all places within. -/
def Journal.under (x : Place) (l : Journal) : Journal :=
  l.filter fun e => x <:+ e.place

namespace Journal

variable {x y : Place} {l l' : Journal}

theorem under_append (x : Place) (l l' : Journal) : under x (l ++ l') = under x l ++ under x l' :=
  List.filter_append ..

theorem mem_under {e : Entry} : e ∈ under x l ↔ e ∈ l ∧ x <:+ e.place := by
  rw [under, List.mem_filter, decide_eq_true_eq]

theorem under_eq_self (h : ∀ e ∈ l, x <:+ e.place) : under x l = l := by
  rw [under, List.filter_eq_self]
  intro e he
  exact decide_eq_true (h e he)

theorem under_eq_nil (h : ∀ e ∈ l, ¬x <:+ e.place) : under x l = [] := by
  rw [under, List.filter_eq_nil_iff]
  intro e he
  rw [decide_eq_true_eq]
  exact h e he

/-- What is about a place within is also about the whole. -/
theorem under_under (h : x <:+ y) : under y (under x l) = under y l := by
  unfold under
  rw [List.filter_filter]
  apply List.filter_congr
  intro e _
  rw [← Bool.decide_and, decide_eq_decide]
  exact ⟨fun hy => hy.1, fun hy => ⟨hy, h.trans hy⟩⟩

end Journal

/-! ## Keeping it -/

/-- A store next to which something else lies. -/
def ContentStore.aside {κ : Type} (ρ : Type) (s : ContentStore κ) : ContentStore (κ × ρ) where
  put key bytes mime w :=
    let (receipt, store) := s.put key bytes mime w.1
    (receipt, (store, w.2))
  get key w :=
    let (bytes, store) := s.get key w.1
    (bytes, (store, w.2))
  latency call w := s.latency call w.1

/-- The state of a run that keeps a journal. -/
abbrev ToldState (τ κ δ : Type) := RunState τ (κ × Journal) δ

namespace RunState

variable {τ κ δ : Type}

/-- The state without the journal. -/
def plain (s : ToldState τ κ δ) : RunState τ κ δ :=
  { s with store := s.store.1 }

/-- The state with a journal. -/
def withJournal (s : RunState τ κ δ) (l : Journal) : ToldState τ κ δ :=
  { s with store := (s.store, l) }

/-- The journal. -/
def journal (s : ToldState τ κ δ) : Journal :=
  s.store.2

/-- Make an entry. -/
def tell (e : Entry) (s : ToldState τ κ δ) : ToldState τ κ δ :=
  { s with store := (s.store.1, s.store.2 ++ [e]) }

section

variable (s : ToldState τ κ δ) (e : Entry)

@[simp] theorem plain_tell : (s.tell e).plain = s.plain := rfl
@[simp] theorem journal_tell : (s.tell e).journal = s.journal ++ [e] := rfl
@[simp] theorem scope_tell : (s.tell e).scope = s.scope := rfl
@[simp] theorem sessions_tell : (s.tell e).sessions = s.sessions := rfl
@[simp] theorem counters_tell : (s.tell e).counters = s.counters := rfl
@[simp] theorem store_tell : (s.tell e).store.1 = s.store.1 := rfl

@[simp] theorem plain_withJournal (s : RunState τ κ δ) (l : Journal) :
    (s.withJournal l).plain = s := rfl

@[simp] theorem journal_withJournal (s : RunState τ κ δ) (l : Journal) :
    (s.withJournal l).journal = l := rfl

end

end RunState

/-! ## Telling -/

/-- A script over the state of a run that keeps a journal. -/
abbrev ToldWork (τ κ δ α : Type) := Work τ (κ × Journal) δ α

namespace Host

variable {τ η κ δ : Type}

/-- The host of a run that keeps a journal. -/
def journaled (h : Host τ η κ δ) : Host τ η (κ × Journal) δ where
  courier := h.courier
  backend := h.backend
  store := h.store.aside Journal

/-- Tell that something at a place has ended. -/
def conclude (x : Place) (work : ToldWork τ κ δ Unit) : ToldWork τ κ δ Unit := do
  let outcome ← work.hold
  Script.update (·.tell (.ended x outcome))
  Script.ofExcept outcome

/-- Tell that something begins at a place, and that it has ended. -/
def enter (x : Place) (t : Task) (work : ToldWork τ κ δ Unit) : ToldWork τ κ δ Unit := do
  Script.update (·.tell (.began x t))
  conclude x work

/-- Write the text of a binding to the store, and tell what the store says. -/
def tellPut (h : Host τ η κ δ) (x : Place) (n : Nat) (name text : String) :
    ToldWork τ κ δ StoredContent := do
  Script.pause fun s => h.store.latency (.put (bindingKey h.context.runId name n)) s.store.1
  let receipt ← Script.act fun s =>
    let (receipt, store) := h.store.put (bindingKey h.context.runId name n)
      (Text.Utf8.encode text.toList) "text/plain" s.store.1
    (receipt, { s with store := (store, s.store.2 ++ [.stored x n receipt]) })
  Script.ofExcept receipt

/-- Bind a name to a text, and tell how far this has come. -/
def tellWrite (h : Host τ η κ δ) (x : Place) (name : String) (kind : BindingKind) (text : String) :
    ToldWork τ κ δ Unit := do
  let n ← Script.act fun s =>
    let s := s.count fun c => { c with bindingsWritten := c.bindingsWritten + 1 }
    (s.counters.bindingsWritten, s.tell (.writing x s.counters.bindingsWritten name kind text))
  let receipt ← h.tellPut x n name text
  Script.update fun s =>
    { s with scope := s.scope.bind (bindingOf name kind text receipt) text }.tell
      (.bound x n (bindingOf name kind text receipt) text)

variable (h : Host τ η κ δ) (p : Program)

/-- Make a session call, and tell that it is made and answered. Its number is the position of the entry that tells of it. -/
def tellCall (x : Place) (call : SessionCall) (resume : Bool) : ToldWork τ κ δ String := do
  let n ← Script.act fun s => (s.journal.length, s.tell (.asked x s.journal.length call resume))
  let answer ← (h.journaled.callSession p call resume).hold
  Script.update (·.tell (.answered x n answer))
  Script.ofExcept answer

/-- The narrator that keeps a journal of a program. -/
def teller : Narrator τ (κ × Journal) δ :=
  ⟨enter, h.tellCall p, h.tellWrite⟩

end Host

end Playbook
