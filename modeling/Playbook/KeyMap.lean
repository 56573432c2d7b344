/-!
# `Playbook.KeyMap` — maps with sorted keys

A map from strings is a list of entries sorted by key, each key once. Keys are compared by code point,
which is the order of their UTF-8 bytes too.

## Contents
- **The type.** `KeyMap`, `KeyMap.insert`, `KeyMap.get?`, `KeyMap.ofList`.
- **Laws.** What `get?` gives after `insert`.
-/

namespace Playbook

/-- A list of entries, sorted by key. -/
abbrev KeyMap (α : Type) := List (String × α)

namespace KeyMap

variable {α : Type}

/-- Put an entry, over one with the same key. -/
def insert (key : String) (value : α) : KeyMap α → KeyMap α
  | [] => [(key, value)]
  | (k, v) :: rest =>
    if key = k then (key, value) :: rest
    else if key < k then (key, value) :: (k, v) :: rest
    else (k, v) :: insert key value rest

/-- The value of a key. -/
def get? (m : KeyMap α) (key : String) : Option α :=
  match m with
  | [] => none
  | (k, v) :: rest => if key = k then some v else get? rest key

/-- The map of a list of entries; of equal keys the last one counts. -/
def ofList (entries : List (String × α)) : KeyMap α :=
  entries.foldl (fun m e => m.insert e.1 e.2) []

/-- A key reads what was put under it. -/
theorem get?_insert_self (key : String) (value : α) (m : KeyMap α) :
    (m.insert key value).get? key = some value := by
  induction m with
  | nil => simp [insert, get?]
  | cons e rest ih =>
    obtain ⟨k, v⟩ := e
    simp only [insert]
    split
    · simp [get?]
    · split
      · simp [get?]
      · rename_i hne _
        simp [get?, hne, ih]

/-- Every other key reads what it read before. -/
theorem get?_insert_of_ne {key other : String} (h : other ≠ key) (value : α) (m : KeyMap α) :
    (m.insert key value).get? other = m.get? other := by
  induction m with
  | nil => simp [insert, get?, h]
  | cons e rest ih =>
    obtain ⟨k, v⟩ := e
    simp only [insert]
    split
    · rename_i heq
      subst heq
      simp [get?, h]
    · split
      · simp [get?, h]
      · simp [get?, ih]

end KeyMap

end Playbook
