import Mathlib.Data.List.Basic
import Playbook.Proofs.Text.Search
import Playbook.Run.Session

/-!
# `Proofs.Run.Stored` — where a run keeps its texts

A run writes the texts of its bindings and the records of its agents to one store, each under a key. The keys of two bindings are
different because their numbers are, those of two records because their agents are, and no binding has the key of a record.

## Contents
- **Stores.** `ContentStore.InMemory`: a store that keeps what it does not refuse; what each call leaves in it.
  `MemoryStore.inMemory`, `RefusingStore.inMemory`.
- **Keys.** `bindingKey_inj`, `memoryKey_inj`, `bindingKey_ne_memoryKey`.
-/

namespace Playbook

open Digest (Scheme)

/-! ## Stores -/

/-- A store in memory. It may refuse any call, and take any time; what it does not refuse is kept under its key. -/
structure ContentStore.InMemory {κ : Type} (s : ContentStore κ) (scheme : Scheme)
    (content : κ → MemoryStore) : Prop where
  put : ∀ key bytes mime w,
    (∃ e, (s.put key bytes mime w).1 = .error e) ∧ content (s.put key bytes mime w).2 = content w ∨
      (s.put key bytes mime w).1 = .ok (.of scheme (MemoryStore.refPrefix ++ key) bytes mime) ∧
        content (s.put key bytes mime w).2 = (content w).insert key bytes
  get : ∀ key w, content (s.get key w).2 = content w ∧
    ((∃ e, (s.get key w).1 = .error e) ∨ (s.get key w).1 = .ok ((content w).get? key))

namespace ContentStore.InMemory

variable {κ : Type} {s : ContentStore κ} {scheme : Scheme} {content : κ → MemoryStore} {key mime : String}
  {bytes : List UInt8} {w : κ}

/-- A write that goes well is kept. -/
theorem content_put_ok (h : s.InMemory scheme content) {receipt : StoredContent}
    (hput : (s.put key bytes mime w).1 = .ok receipt) :
    content (s.put key bytes mime w).2 = (content w).insert key bytes := by
  rcases h.put key bytes mime w with ⟨⟨e, he⟩, _⟩ | ⟨_, hcontent⟩
  · rw [he] at hput
    cases hput
  · exact hcontent

/-- A write that is refused leaves no trace. -/
theorem content_put_error (h : s.InMemory scheme content) {e : Failure} (hput : (s.put key bytes mime w).1 = .error e) :
    content (s.put key bytes mime w).2 = content w := by
  rcases h.put key bytes mime w with ⟨_, hcontent⟩ | ⟨hok, _⟩
  · exact hcontent
  · rw [hok] at hput
    cases hput

/-- What is read is what is kept. -/
theorem eq_of_get_ok (h : s.InMemory scheme content) {found : Option (List UInt8)}
    (hget : (s.get key w).1 = .ok found) : found = (content w).get? key := by
  rcases (h.get key w).2 with ⟨e, he⟩ | hok
  · rw [he] at hget
    cases hget
  · exact (Except.ok.inj (hok.symm.trans hget)).symm

/-- A write to one key leaves all others as they are. -/
theorem get?_put_of_ne (h : s.InMemory scheme content) {other : String} (hne : key ≠ other)
    (bytes : List UInt8) (mime : String) (w : κ) :
    (content (s.put other bytes mime w).2).get? key = (content w).get? key := by
  rcases h.put other bytes mime w with ⟨_, hcontent⟩ | ⟨_, hcontent⟩
  · rw [hcontent]
  · rw [hcontent, KeyMap.get?_insert_of_ne hne]

end ContentStore.InMemory

theorem MemoryStore.inMemory (scheme : Scheme) (latency : StoreCall → MemoryStore → Nat) :
    ({ MemoryStore.operations scheme with latency } : ContentStore MemoryStore).InMemory scheme id where
  put _ _ _ _ := .inr ⟨rfl, rfl⟩
  get _ _ := ⟨rfl, .inr rfl⟩

theorem RefusingStore.inMemory (scheme : Scheme) (latency : StoreCall → RefusingStore → Nat) :
    ({ RefusingStore.operations scheme with latency } : ContentStore RefusingStore).InMemory scheme
      (·.content) where
  put key bytes mime w := by
    simp only [RefusingStore.operations]
    split
    · exact .inl ⟨⟨_, rfl⟩, rfl⟩
    · exact .inr ⟨rfl, rfl⟩
  get key w := by
    simp only [RefusingStore.operations]
    split
    · exact ⟨rfl, .inl ⟨_, rfl⟩⟩
    · exact ⟨rfl, .inr rfl⟩

/-- A reference to a text in memory names its key. -/
theorem MemoryStore.keyOfRef?_ref (key : String) :
    MemoryStore.keyOfRef? (MemoryStore.refPrefix ++ key) = some key := by
  rw [MemoryStore.keyOfRef?, String.toList_append, Text.stripPrefix_append]
  simp

/-! ## Keys -/

/-- What stands behind the last copy of a character is known by the whole. -/
theorem eq_of_append_cons {c : Char} {s t s' t' : List Char} (ht : c ∉ t) (ht' : c ∉ t')
    (h : s ++ c :: t = s' ++ c :: t') : t = t' := by
  have hreverse : t.reverse ++ c :: s.reverse = t'.reverse ++ c :: s'.reverse := by
    have := congrArg List.reverse h
    simpa using this
  have hfirst : Text.splitFirst [c] (t.reverse ++ c :: s.reverse) = some (t.reverse, s.reverse) :=
    Text.splitFirst_append (by simpa using ht) s.reverse
  have hsecond : Text.splitFirst [c] (t'.reverse ++ c :: s'.reverse) = some (t'.reverse, s'.reverse) :=
    Text.splitFirst_append (by simpa using ht') s'.reverse
  rw [hreverse, hsecond, Option.some.injEq, Prod.mk.injEq] at hfirst
  exact (List.reverse_injective hfirst.1).symm

theorem toList_toString (n : Nat) : (toString n).toList = Nat.toDigits 10 n := by
  simp [toString, Nat.repr]

theorem slash_not_mem (n : Nat) : '/' ∉ Nat.toDigits 10 n := by
  intro hmem
  have hdigit := Nat.isDigit_of_mem_toDigits (by decide) (by decide) hmem
  cases hdigit

theorem toDigits_inj {n n' : Nat} (h : Nat.toDigits 10 n = Nat.toDigits 10 n') : n = n' := by
  have hvalue := congrArg (Nat.ofDigitChars 10 · 0) h
  simpa [Nat.ofDigitChars_ten_toDigits] using hvalue

/-- Bindings with different numbers have different keys. -/
theorem bindingKey_inj {runId name name' : String} {n n' : Nat}
    (h : Host.bindingKey runId name n = Host.bindingKey runId name' n') : n = n' := by
  have htext := congrArg String.toList h
  simp only [Host.bindingKey, String.toList_append, toList_toString, List.append_assoc,
    List.append_cancel_left_eq] at htext
  have hslash : "/".toList = ['/'] := rfl
  rw [hslash, List.singleton_append, List.singleton_append, ← List.cons_append, ← List.cons_append,
    ← List.append_assoc, ← List.append_assoc, List.append_cancel_right_eq] at htext
  exact toDigits_inj (eq_of_append_cons (slash_not_mem n) (slash_not_mem n') htext)

/-- Agents with different names have different records. -/
theorem memoryKey_inj {runId principal agent agent' : String}
    (h : memoryKey runId principal agent = memoryKey runId principal agent') : agent = agent' := by
  have htext := congrArg String.toList h
  simp only [memoryKey, String.toList_append, List.append_assoc, List.append_cancel_left_eq,
    List.append_cancel_right_eq] at htext
  exact String.toList_inj.1 htext

/-- No binding has the key of a record. -/
theorem bindingKey_ne_memoryKey (runId name : String) (n : Nat) (runId' principal agent : String) :
    Host.bindingKey runId name n ≠ memoryKey runId' principal agent := by
  intro h
  have htext := congrArg (·.toList.head?) h
  simp [Host.bindingKey, memoryKey] at htext

end Playbook
