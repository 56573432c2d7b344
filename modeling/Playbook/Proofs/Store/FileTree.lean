import Playbook.Store.FileTree

/-!
# `Proofs.Store.FileTree` — what a change leaves of the files in a tree

Making directories changes no file, and a file that is written changes no other. Both are shown of the bytes that can be read at a
path, by the names of the path: a change goes down along its own path, and reading along another one leaves it at the first name in
which they differ.

## Contents
- **Reading.** `bytes?`, with `bytes?_leaf` and `bytes?_deep` for paths of one name and of more.
- **Making directories.** `bytes?_makeDirs`.
- **Writing.** `Room`, what there has to be where a file is written; `bytes?_set`, `bytes?_write`.
-/

namespace Playbook.FileTree

variable {t : FileTree} {name next : String} {path rest : FilePath} {bytes : List UInt8}

/-! ## Reading -/

/-- The bytes of the file at a path, if there is one that can be read. -/
def bytes? (t : FileTree) (path : FilePath) : Option (List UInt8) :=
  (t.read path).toOption

theorem find_leaf (t : FileTree) (name : String) :
    t.find [name] = if name.utf8ByteSize > nameLimit then .error .nameTooLong
      else match t.get? name with
        | some node => .ok node
        | none => .error .missing := by
  rw [find.eq_def]
  dsimp only
  cases t.get? name <;> rfl

theorem find_deep (t : FileTree) (name next : String) (rest : FilePath) :
    t.find (name :: next :: rest) = if name.utf8ByteSize > nameLimit then .error .nameTooLong
      else match t.get? name with
        | some (.directory entries) => find entries (next :: rest)
        | some (.file _) => .error .notDirectory
        | none => .error .missing := by
  rw [find.eq_def]
  dsimp only
  cases t.get? name with
  | none => rfl
  | some node => cases node <;> rfl

theorem bytes?_leaf (t : FileTree) (name : String) :
    t.bytes? [name] = if name.utf8ByteSize > nameLimit then none
      else match t.get? name with
        | some (.file bytes) => some bytes
        | _ => none := by
  rw [bytes?, read, find_leaf]
  by_cases hlong : name.utf8ByteSize > nameLimit
  · simp only [if_pos hlong]
    rfl
  · simp only [if_neg hlong]
    cases t.get? name with
    | none => rfl
    | some node => cases node <;> rfl

theorem bytes?_empty (path : FilePath) : bytes? [] path = none := by
  cases path with
  | nil => rfl
  | cons name rest =>
    have hnone : KeyMap.get? ([] : FileTree) name = none := rfl
    cases rest with
    | nil => rw [bytes?_leaf, hnone, ite_self]
    | cons next rest =>
      rw [bytes?, read, find_deep, hnone]
      by_cases hlong : name.utf8ByteSize > nameLimit
      · simp only [if_pos hlong]
        rfl
      · simp only [if_neg hlong]
        rfl

theorem bytes?_deep (t : FileTree) (name next : String) (rest : FilePath) :
    t.bytes? (name :: next :: rest) = if name.utf8ByteSize > nameLimit then none
      else bytes? (t.entriesOf name) (next :: rest) := by
  rw [bytes?, read, find_deep]
  by_cases hlong : name.utf8ByteSize > nameLimit
  · simp only [if_pos hlong]
    rfl
  · simp only [if_neg hlong]
    rw [entriesOf]
    cases t.get? name with
    | none => exact (bytes?_empty _).symm
    | some node =>
      cases node with
      | file bytes => exact (bytes?_empty _).symm
      | directory entries => rfl

/-- What is read in a tree, in one of whose directories something has been changed. -/
theorem bytes?_insert_directory {entries : FileTree} (hname : ∀ bytes, t.get? name ≠ some (.file bytes))
    (path : FilePath) :
    bytes? (t.insert name (.directory entries)) path =
      match path with
      | first :: next :: rest =>
        if first = name then if name.utf8ByteSize > nameLimit then none else bytes? entries (next :: rest)
        else bytes? t path
      | path => bytes? t path := by
  cases path with
  | nil => rfl
  | cons first rest =>
    cases rest with
    | nil =>
      simp only [bytes?_leaf]
      by_cases hfirst : first = name
      · subst hfirst
        rw [KeyMap.get?_insert_self]
        cases hnode : t.get? first with
        | none => rfl
        | some node =>
          cases node with
          | file bytes => exact absurd hnode (hname bytes)
          | directory entries => rfl
      · rw [KeyMap.get?_insert_of_ne hfirst]
    | cons next rest =>
      simp only [bytes?_deep, entriesOf]
      by_cases hfirst : first = name
      · subst hfirst
        rw [KeyMap.get?_insert_self, if_pos rfl]
      · rw [KeyMap.get?_insert_of_ne hfirst, if_neg hfirst]

/-! ## Making directories -/

/-- Making directories changes no file. -/
theorem bytes?_makeDirs (t : FileTree) (dirs path : FilePath) :
    (t.makeDirs dirs).1.bytes? path = t.bytes? path := by
  induction dirs generalizing t path with
  | nil => rfl
  | cons name dirs ih =>
    -- A directory that is new and one that is there are dealt with alike: a new one holds nothing.
    have hinsert : ∀ entries : FileTree, t.entriesOf name = entries →
        (∀ bytes, t.get? name ≠ some (.file bytes)) →
        bytes? (t.insert name (.directory (entries.makeDirs dirs).1)) path = t.bytes? path := by
      intro entries hentries hname
      rw [bytes?_insert_directory hname]
      split
      · rename_i first next rest
        split
        · rename_i hfirst
          rw [hfirst, bytes?_deep, ih, hentries]
        · rfl
      · rfl
    rw [makeDirs]
    split
    · rfl
    · cases hnode : t.get? name with
      | none =>
        refine hinsert [] (by rw [entriesOf, hnode]) fun bytes h => ?_
        rw [hnode] at h
        cases h
      | some node =>
        cases node with
        | file bytes => rfl
        | directory entries =>
          refine hinsert entries (by rw [entriesOf, hnode]) fun bytes h => ?_
          rw [hnode] at h
          cases h

/-! ## Writing -/

/-- There is room for a file at a path: there is a file already, or there is nothing in a directory. -/
def Room (t : FileTree) (path : FilePath) : Prop :=
  (∃ bytes, t.find path = .ok (.file bytes)) ∨
    t.find path = .error .missing ∧ ∃ entries, t.find path.dropLast = .ok (.directory entries)

theorem Room.leaf (h : t.Room [name]) :
    ¬(name.utf8ByteSize > nameLimit) ∧ ∀ entries, t.get? name ≠ some (.directory entries) := by
  unfold Room at h
  rw [find_leaf] at h
  split at h
  · rcases h with ⟨_, h⟩ | ⟨h, _⟩
    · cases h
    · cases h
  · rename_i hshort
    refine ⟨hshort, fun entries hnode => ?_⟩
    rw [hnode] at h
    rcases h with ⟨_, h⟩ | ⟨h, _⟩
    · cases h
    · cases h

theorem Room.deep (h : t.Room (name :: next :: rest)) :
    ¬(name.utf8ByteSize > nameLimit) ∧ (∀ bytes, t.get? name ≠ some (.file bytes)) ∧
      (t.entriesOf name).Room (next :: rest) := by
  unfold Room at h
  rw [find_deep] at h
  split at h
  · rcases h with ⟨_, h⟩ | ⟨h, _⟩
    · cases h
    · cases h
  · rename_i hshort
    refine ⟨hshort, ?_⟩
    cases hnode : t.get? name with
    | none =>
      rw [hnode] at h
      rcases h with ⟨_, h⟩ | ⟨_, entries, h⟩
      · cases h
      · -- The directory of the path would be missing.
        rw [List.dropLast_cons_of_ne_nil (List.cons_ne_nil next rest)] at h
        cases hdirs : (next :: rest).dropLast with
        | nil => rw [hdirs, find_leaf, if_neg hshort, hnode] at h; cases h
        | cons next' rest' => rw [hdirs, find_deep, if_neg hshort, hnode] at h; cases h
    | some node =>
      cases node with
      | file bytes =>
        rw [hnode] at h
        rcases h with ⟨_, h⟩ | ⟨h, _⟩
        · cases h
        · cases h
      | directory entries =>
        refine ⟨nofun, ?_⟩
        rw [hnode] at h
        rw [entriesOf, hnode]
        refine h.imp id (And.imp id ?_)
        rintro ⟨found, h⟩
        rw [List.dropLast_cons_of_ne_nil (List.cons_ne_nil next rest)] at h
        cases hdirs : (next :: rest).dropLast with
        | nil => exact ⟨entries, rfl⟩
        | cons next' rest' =>
          rw [hdirs, find_deep, if_neg hshort, hnode] at h
          exact ⟨found, h⟩

theorem entriesOf_eq_nil (h : ∀ entries, t.get? name ≠ some (.directory entries)) : t.entriesOf name = [] := by
  rw [entriesOf]
  split
  · rename_i entries hnode
    exact absurd hnode (h entries)
  · rfl

/-- What is read in a tree in which a file has been put into the directory itself. -/
theorem bytes?_insert_file (hshort : ¬(name.utf8ByteSize > nameLimit))
    (hname : ∀ entries, t.get? name ≠ some (.directory entries)) (bytes : List UInt8) (other : FilePath) :
    bytes? (t.insert name (.file bytes)) other = if other = [name] then some bytes else t.bytes? other := by
  cases other with
  | nil => rfl
  | cons first rest =>
    by_cases hfirst : first = name
    · subst hfirst
      cases rest with
      | nil => rw [bytes?_leaf, if_neg hshort, KeyMap.get?_insert_self, if_pos rfl]
      | cons next rest =>
        have hempty : entriesOf (t.insert first (.file bytes)) first = [] := by
          rw [entriesOf, KeyMap.get?_insert_self]
        have hne : ¬first :: next :: rest = [first] := fun heq => List.cons_ne_nil next rest (List.cons.inj heq).2
        rw [bytes?_deep, bytes?_deep, hempty, entriesOf_eq_nil hname, if_neg hne]
    · have hne : ¬first :: rest = [name] := fun heq => hfirst (List.cons.inj heq).1
      rw [if_neg hne]
      cases rest with
      | nil => rw [bytes?_leaf, bytes?_leaf, KeyMap.get?_insert_of_ne hfirst]
      | cons next rest =>
        rw [bytes?_deep, bytes?_deep, entriesOf, KeyMap.get?_insert_of_ne hfirst, entriesOf]

/-- A file that is put where there is room for it changes no other. -/
theorem bytes?_set (h : t.Room path) (bytes : List UInt8) (other : FilePath) :
    (t.set path (.file bytes)).bytes? other = if other = path then some bytes else t.bytes? other := by
  -- The file goes down along its path, and `other` is followed as far as it goes the same way.
  induction path generalizing t other with
  | nil =>
    rcases h with ⟨_, h⟩ | ⟨h, _⟩
    · cases h
    · cases h
  | cons name rest ih =>
    cases rest with
    | nil =>
      obtain ⟨hshort, hname⟩ := h.leaf
      exact bytes?_insert_file hshort hname bytes other
    | cons next rest =>
      obtain ⟨hshort, hname, hroom⟩ := h.deep
      have hset : t.set (name :: next :: rest) (.file bytes) =
          t.insert name (.directory (set (t.entriesOf name) (next :: rest) (.file bytes))) := rfl
      rw [hset, bytes?_insert_directory hname]
      split
      · rename_i first next' rest'
        by_cases hfirst : first = name
        · subst hfirst
          rw [if_pos rfl, if_neg hshort, ih hroom, bytes?_deep, if_neg hshort]
          simp only [List.cons.injEq, true_and]
        · rw [if_neg hfirst, if_neg fun heq => hfirst (List.cons.inj heq).1]
      · rename_i path hshape
        rw [if_neg fun heq => hshape _ _ _ heq]

/-- A file is written only where there is room for it. -/
theorem write_ok {t' : FileTree} (h : t.write path bytes = (t', .ok ())) :
    t.Room path ∧ t' = t.set path (.file bytes) := by
  unfold write at h
  split at h
  · cases h
  · rename_i found hfound
    cases h
    exact ⟨.inl ⟨found, hfound⟩, rfl⟩
  · rename_i hmissing
    split at h
    · rename_i entries hentries
      cases h
      exact ⟨.inr ⟨hmissing, entries, hentries⟩, rfl⟩
    · cases h
  · cases h

/-- A file that is written is there, and no other has changed. -/
theorem bytes?_write {t' : FileTree} (h : t.write path bytes = (t', .ok ())) (other : FilePath) :
    t'.bytes? other = if other = path then some bytes else t.bytes? other := by
  obtain ⟨hroom, rfl⟩ := write_ok h
  exact bytes?_set hroom bytes other

/-- A write that fails changes nothing. -/
theorem write_error {t' : FileTree} {e : FileProblem} (h : t.write path bytes = (t', .error e)) : t' = t := by
  unfold write at h
  split at h
  · cases h
    rfl
  · cases h
  · split at h
    · cases h
    · cases h
      rfl
  · cases h
    rfl

end Playbook.FileTree
