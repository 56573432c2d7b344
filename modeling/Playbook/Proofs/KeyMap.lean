import Playbook.KeyMap

/-!
# `Proofs.KeyMap` — maps whose keys rise

A list of entries in which the keys rise is a map as it stands: building a map from it changes nothing. Whatever list a map is
built from, its keys rise; and as long as no key of the list is given twice, the map holds its entries and no others.

## Contents
- **Order.** `Sorted`, which `insert` keeps (`sorted_insert`, `sorted_ofList`).
- **Entries in order.** `insert_of_last`, `ofList_of_sorted`.
- **Entries and look-up.** `mem_ofList`, `get?_append`, `get?_eq_none`, `get?_ofList`; of equal keys the last one counts
  (`get?_ofList_eq_reverse`), and what a map reads is all there is to it (`get?_perm`, `eq_of_get?_eq`).
-/

namespace Playbook.KeyMap

variable {α : Type} {m : KeyMap α} {entries : List (String × α)} {key : String} {value : α}

/-! ## Order -/

/-- The keys rise. -/
def Sorted (m : KeyMap α) : Prop :=
  (m.map (·.1)).Pairwise (· < ·)

instance (m : KeyMap α) : Decidable m.Sorted :=
  inferInstanceAs (Decidable (List.Pairwise _ _))

theorem sorted_cons {e : String × α} :
    Sorted (e :: m) ↔ (∀ x ∈ m, e.1 < x.1) ∧ Sorted m := by
  simp [Sorted]

/-- An entry of a map into which another one was put is that one or was there. -/
theorem mem_insert {e : String × α} (h : e ∈ insert key value m) : e = (key, value) ∨ e ∈ m := by
  induction m with
  | nil => exact .inl (List.mem_singleton.1 h)
  | cons x rest ih =>
    obtain ⟨k, v⟩ := x
    simp only [insert] at h
    split at h
    · rcases List.mem_cons.1 h with h | h
      · exact .inl h
      · exact .inr (List.mem_cons_of_mem _ h)
    · split at h
      · exact List.mem_cons.1 h
      · rcases List.mem_cons.1 h with h | h
        · exact .inr (h ▸ List.mem_cons_self)
        · exact (ih h).imp id (List.mem_cons_of_mem _)

theorem sorted_insert (key : String) (value : α) (h : Sorted m) : Sorted (insert key value m) := by
  induction m with
  | nil => simp [insert, Sorted]
  | cons x rest ih =>
    obtain ⟨k, v⟩ := x
    obtain ⟨hall, hrest⟩ := sorted_cons.1 h
    simp only [insert]
    split
    · rename_i heq
      subst heq
      exact sorted_cons.2 ⟨hall, hrest⟩
    · rename_i hne
      split
      · rename_i hlt
        refine sorted_cons.2 ⟨fun e he => ?_, h⟩
        rcases List.mem_cons.1 he with rfl | he
        · exact hlt
        · exact String.lt_trans hlt (hall e he)
      · rename_i hge
        refine sorted_cons.2 ⟨fun e he => ?_, ih hrest⟩
        rcases mem_insert he with rfl | he
        · exact Std.lt_of_le_of_ne (String.not_lt.1 hge) (Ne.symm hne)
        · exact hall e he

theorem sorted_foldl_insert (h : Sorted m) :
    Sorted (entries.foldl (fun m e => insert e.1 e.2 m) m) := by
  induction entries generalizing m with
  | nil => exact h
  | cons e rest ih => exact ih (sorted_insert e.1 e.2 h)

/-- The keys of a map rise, whatever it was built from. -/
theorem sorted_ofList (entries : List (String × α)) : Sorted (ofList entries) :=
  sorted_foldl_insert (by simp [Sorted])

/-! ## Entries in order -/

/-- An entry whose key is greater than all others goes to the end. -/
theorem insert_of_last (h : ∀ e ∈ m, e.1 < key) : insert key value m = m ++ [(key, value)] := by
  induction m with
  | nil => rfl
  | cons x rest ih =>
    obtain ⟨k, v⟩ := x
    have hlt : k < key := h (k, v) List.mem_cons_self
    have hne : key ≠ k := by
      intro heq
      exact String.lt_irrefl k (heq ▸ hlt)
    rw [insert, if_neg hne, if_neg (String.lt_asymm hlt), ih fun e he => h e (by simp [he])]
    rfl

theorem foldl_insert_of_sorted (h : Sorted (m ++ entries)) :
    entries.foldl (fun m e => insert e.1 e.2 m) m = m ++ entries := by
  induction entries generalizing m with
  | nil => simp
  | cons e rest ih =>
    have hbefore : ∀ x ∈ m, x.1 < e.1 := by
      intro x hx
      unfold Sorted at h
      rw [List.map_append, List.pairwise_append] at h
      exact h.2.2 x.1 (List.mem_map_of_mem hx) e.1 (by simp)
    rw [List.foldl_cons, insert_of_last hbefore, ih (by simpa using h)]
    simp

/-- Entries whose keys rise are the map that is built from them. -/
theorem ofList_of_sorted (h : Sorted entries) : ofList entries = entries :=
  foldl_insert_of_sorted (m := []) h

/-! ## Entries and look-up -/

theorem mem_foldl_insert {e : String × α}
    (h : e ∈ entries.foldl (fun m e => insert e.1 e.2 m) m) : e ∈ m ∨ e ∈ entries := by
  induction entries generalizing m with
  | nil => exact .inl h
  | cons x rest ih =>
    rcases ih h with h | h
    · rcases mem_insert h with rfl | h
      · exact .inr List.mem_cons_self
      · exact .inl h
    · exact .inr (List.mem_cons_of_mem _ h)

/-- A map has no entries but those that it was built from. -/
theorem mem_ofList {e : String × α} (h : e ∈ ofList entries) : e ∈ entries := by
  rcases mem_foldl_insert h with h | h
  · cases h
  · exact h

theorem get?_append (m n : KeyMap α) (key : String) :
    get? (m ++ n) key = (m.get? key).or (n.get? key) := by
  induction m with
  | nil => rfl
  | cons e rest ih =>
    obtain ⟨k, v⟩ := e
    rw [List.cons_append, get?, get?]
    by_cases hk : key = k
    · rw [if_pos hk, if_pos hk]
      rfl
    · rw [if_neg hk, if_neg hk, ih]

/-- A key that no entry has reads nothing. -/
theorem get?_eq_none (h : key ∉ m.map (·.1)) : m.get? key = none := by
  induction m with
  | nil => rfl
  | cons e rest ih =>
    obtain ⟨k, v⟩ := e
    rw [List.map_cons, List.mem_cons, not_or] at h
    rw [get?, if_neg h.1]
    exact ih h.2

theorem get?_foldl_insert (key : String) (h : (entries.map (·.1)).Nodup) :
    get? (entries.foldl (fun m e => insert e.1 e.2 m) m) key =
      (get? entries key).or (m.get? key) := by
  induction entries generalizing m with
  | nil => rfl
  | cons e rest ih =>
    obtain ⟨k, v⟩ := e
    rw [List.map_cons, List.nodup_cons] at h
    rw [List.foldl_cons, ih h.2, get?]
    by_cases hk : key = k
    · subst hk
      rw [if_pos rfl, get?_eq_none h.1, get?_insert_self]
      rfl
    · rw [if_neg hk, get?_insert_of_ne hk]

/-- A map built from entries with different keys reads what they say. -/
theorem get?_ofList (key : String) (h : (entries.map (·.1)).Nodup) :
    (ofList entries).get? key = get? entries key := by
  have hfold := get?_foldl_insert (m := []) key h
  rw [show get? ([] : KeyMap α) key = none from rfl, Option.or_none] at hfold
  exact hfold

theorem get?_foldl_insert_eq_reverse (key : String) :
    get? (entries.foldl (fun m e => insert e.1 e.2 m) m) key =
      (get? entries.reverse key).or (m.get? key) := by
  induction entries generalizing m with
  | nil => rfl
  | cons e rest ih =>
    obtain ⟨k, v⟩ := e
    rw [List.foldl_cons, ih, List.reverse_cons, get?_append, get?]
    by_cases hk : key = k
    · subst hk
      rw [if_pos rfl, get?_insert_self, Option.or_assoc]
      rfl
    · rw [if_neg hk, get?_insert_of_ne hk, get?, Option.or_none]

/-- A map reads of equal keys the last one that it was built from. -/
theorem get?_ofList_eq_reverse (entries : List (String × α)) (key : String) :
    (ofList entries).get? key = get? entries.reverse key := by
  have hfold : (ofList entries).get? key = (get? entries.reverse key).or none :=
    get?_foldl_insert_eq_reverse key
  rwa [Option.or_none] at hfold

theorem get?_cons_self (key : String) (value : α) (m : KeyMap α) :
    get? ((key, value) :: m) key = some value :=
  if_pos rfl

theorem get?_cons_of_ne {other : String} (h : other ≠ key) (value : α) (m : KeyMap α) :
    get? ((key, value) :: m) other = m.get? other :=
  if_neg h

/-- Entries with different keys read the same in any order. -/
theorem get?_perm {n : KeyMap α} (h : m.Perm n) (hnodup : (m.map (·.1)).Nodup) (key : String) :
    m.get? key = n.get? key := by
  induction h with
  | nil => rfl
  | cons e _ ih =>
    rw [List.map_cons, List.nodup_cons] at hnodup
    rw [get?, get?, ih hnodup.2]
  | swap e e' rest =>
    obtain ⟨k, v⟩ := e
    obtain ⟨k', v'⟩ := e'
    have hne : k' ≠ k := by
      rw [List.map_cons, List.map_cons, List.nodup_cons, List.mem_cons, not_or] at hnodup
      exact hnodup.1.1
    by_cases hk : key = k
    · subst hk
      rw [get?_cons_of_ne hne.symm, get?_cons_self, get?_cons_self]
    · rw [get?_cons_of_ne hk, get?, get?, get?, if_neg hk]
  | trans h _ ih ih' => rw [ih hnodup, ih' ((h.map _).nodup_iff.1 hnodup)]

/-- A key below all others reads nothing. -/
theorem get?_eq_none_of_lt (h : ∀ e ∈ m, key < e.1) : m.get? key = none := by
  refine get?_eq_none fun hmem => ?_
  obtain ⟨e, he, rfl⟩ := List.mem_map.1 hmem
  exact String.lt_irrefl _ (h e he)

/-- Of a map that reads something under the first key of another, no key is greater than that one. -/
theorem not_lt_first {n : KeyMap α} {k k' : String} {v v' : α} (hn : Sorted ((k', v') :: n))
    (h : get? ((k', v') :: n) k = some v) : ¬k < k' := by
  intro hlt
  rw [get?_eq_none_of_lt] at h
  · cases h
  · intro e he
    rcases List.mem_cons.1 he with rfl | he
    · exact hlt
    · exact String.lt_trans hlt ((sorted_cons.1 hn).1 e he)

/-- Maps with rising keys that read alike are one map. -/
theorem eq_of_get?_eq {n : KeyMap α} (hm : m.Sorted) (hn : n.Sorted)
    (h : ∀ key, m.get? key = n.get? key) : m = n := by
  induction m generalizing n with
  | nil =>
    cases n with
    | nil => rfl
    | cons e rest =>
      have hfirst := h e.1
      rw [get?_cons_self] at hfirst
      cases hfirst
  | cons e rest ih =>
    obtain ⟨k, v⟩ := e
    cases n with
    | nil =>
      have hfirst := h k
      rw [get?_cons_self] at hfirst
      cases hfirst
    | cons e' rest' =>
      obtain ⟨k', v'⟩ := e'
      have hfirst := h k
      have hfirst' := h k'
      rw [get?_cons_self] at hfirst hfirst'
      -- A key below the first one of a map reads nothing there, so neither first key is below the other.
      have hk : k = k' := Std.le_antisymm (String.not_lt.1 (not_lt_first hm hfirst'))
        (String.not_lt.1 (not_lt_first hn hfirst.symm))
      subst hk
      rw [get?_cons_self] at hfirst
      cases hfirst
      rw [ih (sorted_cons.1 hm).2 (sorted_cons.1 hn).2]
      intro key
      by_cases hkey : key = k
      · subst hkey
        rw [get?_eq_none_of_lt (sorted_cons.1 hm).1, get?_eq_none_of_lt (sorted_cons.1 hn).1]
      · have hother := h key
        rwa [get?_cons_of_ne hkey, get?_cons_of_ne hkey] at hother

end Playbook.KeyMap
