import Playbook.Proofs.Json.Compact
import Playbook.Proofs.KeyMap

/-!
# `Proofs.Json.Normal` — values in normal form

A value is *ordered* if the keys of every object in it rise. Normal forms are ordered, and an ordered value is its own normal
form. So two ordered values without doubles have the same canonical text only if they are the same; of an object whose members
stand in any order, its canonical text still tells what each key reads.

## Contents
- **Order.** `isOrdered`; `isOrdered_normalize`, `normalize_of_isOrdered`.
- **Canonical text.** `isIntegral_normalize`, `normalize_eq_of_canonical_eq`.
- **Members.** `get?_normalizeMembers`, `get?_eq_of_normalize_eq`.
-/

namespace Playbook.Json

/-! ## Order -/

mutual

/-- Whether the keys of every object in a value rise. -/
def isOrdered : Json → Bool
  | .arr items => isOrderedAll items
  | .obj members => decide (KeyMap.Sorted members) && isOrderedMembers members
  | _ => true

/-- Whether every item is ordered. -/
def isOrderedAll : List Json → Bool
  | [] => true
  | v :: rest => isOrdered v && isOrderedAll rest

/-- Whether the value of every member is ordered. -/
def isOrderedMembers : List (String × Json) → Bool
  | [] => true
  | (_, v) :: rest => isOrdered v && isOrderedMembers rest

end

theorem isOrderedMembers_iff {members : List (String × Json)} :
    isOrderedMembers members = true ↔ ∀ m ∈ members, m.2.isOrdered = true := by
  induction members with
  | nil => simp [isOrderedMembers]
  | cons m rest ih => simp [isOrderedMembers, ih]

mutual

/-- A normal form is ordered. -/
theorem isOrdered_normalize (v : Json) : v.normalize.isOrdered = true := by
  cases v with
  | arr items => exact isOrderedAll_normalizeAll items
  | obj members =>
    show (decide (KeyMap.Sorted (sortMembers (normalizeMembers members))) &&
      isOrderedMembers (sortMembers (normalizeMembers members))) = true
    rw [Bool.and_eq_true, decide_eq_true_eq]
    refine ⟨KeyMap.sorted_ofList _, isOrderedMembers_iff.2 fun m hm => ?_⟩
    exact isOrderedMembers_iff.1 (isOrderedMembers_normalizeMembers members) m
      (KeyMap.mem_ofList hm)
  | _ => rfl

theorem isOrderedAll_normalizeAll (items : List Json) :
    isOrderedAll (normalizeAll items) = true := by
  cases items with
  | nil => rfl
  | cons v rest =>
    rw [normalizeAll, isOrderedAll, isOrdered_normalize v, isOrderedAll_normalizeAll rest]
    rfl

theorem isOrderedMembers_normalizeMembers (members : List (String × Json)) :
    isOrderedMembers (normalizeMembers members) = true := by
  cases members with
  | nil => rfl
  | cons m rest =>
    obtain ⟨k, v⟩ := m
    rw [normalizeMembers, isOrderedMembers, isOrdered_normalize v,
      isOrderedMembers_normalizeMembers rest]
    rfl

end

mutual

/-- An ordered value is its own normal form. -/
theorem normalize_of_isOrdered {v : Json} (h : v.isOrdered = true) : v.normalize = v := by
  cases v with
  | arr items => exact congrArg Json.arr (normalizeAll_of_isOrdered h)
  | obj members =>
    rw [isOrdered, Bool.and_eq_true, decide_eq_true_eq] at h
    rw [normalize, normalizeMembers_of_isOrdered h.2, sortMembers, KeyMap.ofList_of_sorted h.1]
  | _ => rfl

theorem normalizeAll_of_isOrdered {items : List Json} (h : isOrderedAll items = true) :
    normalizeAll items = items := by
  cases items with
  | nil => rfl
  | cons v rest =>
    rw [isOrderedAll, Bool.and_eq_true] at h
    rw [normalizeAll, normalize_of_isOrdered h.1, normalizeAll_of_isOrdered h.2]

theorem normalizeMembers_of_isOrdered {members : List (String × Json)}
    (h : isOrderedMembers members = true) : normalizeMembers members = members := by
  cases members with
  | nil => rfl
  | cons m rest =>
    obtain ⟨k, v⟩ := m
    rw [isOrderedMembers, Bool.and_eq_true] at h
    rw [normalizeMembers, normalize_of_isOrdered h.1, normalizeMembers_of_isOrdered h.2]

end

/-! ## Canonical text -/

mutual

theorem isIntegral_normalize {v : Json} (h : v.isIntegral = true) :
    v.normalize.isIntegral = true := by
  cases v with
  | arr items => exact isIntegralAll_normalizeAll h
  | obj members =>
    refine isIntegralMembers_iff.2 fun m hm => ?_
    exact isIntegralMembers_iff.1 (isIntegralMembers_normalizeMembers h) m (KeyMap.mem_ofList hm)
  | float x => cases h
  | void => cases h
  | _ => rfl

theorem isIntegralAll_normalizeAll {items : List Json} (h : isIntegralAll items = true) :
    isIntegralAll (normalizeAll items) = true := by
  cases items with
  | nil => rfl
  | cons v rest =>
    obtain ⟨hv, hrest⟩ := isIntegralAll_cons.1 h
    exact isIntegralAll_cons.2 ⟨isIntegral_normalize hv, isIntegralAll_normalizeAll hrest⟩

theorem isIntegralMembers_normalizeMembers {members : List (String × Json)}
    (h : isIntegralMembers members = true) :
    isIntegralMembers (normalizeMembers members) = true := by
  cases members with
  | nil => rfl
  | cons m rest =>
    obtain ⟨k, v⟩ := m
    obtain ⟨hv, hrest⟩ := isIntegralMembers_cons.1 h
    exact isIntegralMembers_cons.2
      ⟨isIntegral_normalize hv, isIntegralMembers_normalizeMembers hrest⟩

end

/-- The canonical text of a value without doubles tells its normal form. -/
theorem normalize_eq_of_canonical_eq {v w : Json} (hv : v.isIntegral = true)
    (hw : w.isIntegral = true) (h : v.canonical = w.canonical) : v.normalize = w.normalize :=
  compact_inj (isIntegral_normalize hv) (isIntegral_normalize hw) h

/-! ## Members -/

theorem map_fst_normalizeMembers (members : List (String × Json)) :
    (normalizeMembers members).map (·.1) = members.map (·.1) := by
  induction members with
  | nil => rfl
  | cons m rest ih => rw [normalizeMembers, List.map_cons, List.map_cons, ih]

theorem get?_normalizeMembers (members : List (String × Json)) (key : String) :
    KeyMap.get? (normalizeMembers members) key = (KeyMap.get? members key).map normalize := by
  induction members with
  | nil => rfl
  | cons m rest ih =>
    obtain ⟨k, v⟩ := m
    rw [normalizeMembers, KeyMap.get?, KeyMap.get?]
    by_cases hk : key = k
    · rw [if_pos hk, if_pos hk]
      rfl
    · rw [if_neg hk, if_neg hk, ih]

/-- Objects with one normal form read the same under every key, in whatever order their members stand. -/
theorem get?_eq_of_normalize_eq {ms ns : List (String × Json)} (hm : (ms.map (·.1)).Nodup)
    (hn : (ns.map (·.1)).Nodup) (h : (Json.obj ms).normalize = (Json.obj ns).normalize)
    (key : String) :
    (KeyMap.get? ms key).map normalize = (KeyMap.get? ns key).map normalize := by
  have hsorted : KeyMap.ofList (normalizeMembers ms) = KeyMap.ofList (normalizeMembers ns) := by
    rw [normalize, normalize] at h
    exact Json.obj.inj h
  have hget := congrArg (fun m => KeyMap.get? m key) hsorted
  rw [KeyMap.get?_ofList key (by rw [map_fst_normalizeMembers]; exact hm),
    KeyMap.get?_ofList key (by rw [map_fst_normalizeMembers]; exact hn)] at hget
  rw [get?_normalizeMembers, get?_normalizeMembers] at hget
  exact hget

end Playbook.Json
