import Playbook.Proofs.Store.FileTree
import Playbook.Proofs.Text.Utf8
import Playbook.Store.Pathname

/-!
# `Proofs.Store.Pathname` — a text that was written is read by the same path

A written path is followed from directory to directory. A file that is written where there is room for it takes the place of no
directory, so every path that led somewhere leads there afterwards; and the path that the text was written by leads to the text.

## Contents
- **Directories.** `node?_leaf`, `node?_deep`, `node?_congr`; `node?_set_file`: directories stay when a file is written.
- **Following.** `enter_set_file`, `locate_set_file`.
- **Texts.** `readText_eq_ok`, `writeText_eq_write`; `readText_writeText`, `writeText_error`.
-/

namespace Playbook.FileTree

variable {t t' : FileTree} {name : String} {path other : FilePath} {bytes : List UInt8}

/-! ## Directories -/

theorem node?_leaf (t : FileTree) (name : String) : t.node? [name] = t.get? name := by
  rw [node?.eq_def]
  dsimp only
  cases t.get? name <;> rfl

theorem node?_empty (name : String) (rest : FilePath) : node? [] (name :: rest) = none := by
  rw [node?.eq_def]
  rfl

theorem node?_deep (t : FileTree) (name next : String) (rest : FilePath) :
    t.node? (name :: next :: rest) = node? (t.entriesOf name) (next :: rest) := by
  rw [node?.eq_def, entriesOf]
  dsimp only
  cases t.get? name with
  | none => exact (node?_empty next rest).symm
  | some node =>
    cases node with
    | file bytes => exact (node?_empty next rest).symm
    | directory entries => rfl

/-- What stands at a path depends on what its first name stands for. -/
theorem node?_congr {u : FileTree} (h : t.get? name = u.get? name) (rest : FilePath) :
    t.node? (name :: rest) = u.node? (name :: rest) := by
  cases rest with
  | nil => rw [node?_leaf, node?_leaf, h]
  | cons next rest => rw [node?_deep, node?_deep, entriesOf, entriesOf, h]

/-- Where there was a directory there is one after a file was written. -/
theorem node?_set_file (h : t.Room path) (bytes : List UInt8) {entries : FileTree}
    (hother : t.node? other = some (.directory entries)) :
    ∃ entries, (t.set path (.file bytes)).node? other = some (.directory entries) := by
  -- The file goes down along its path, and `other` is followed as far as it goes the same way.
  induction path generalizing t other with
  | nil =>
    rcases h with ⟨_, h⟩ | ⟨h, _⟩
    · cases h
    · cases h
  | cons name rest ih =>
    cases other with
    | nil => exact ⟨_, rfl⟩
    | cons first more =>
      have hapart : ∀ node, first ≠ name →
          node? (t.insert name node) (first :: more) = some (.directory entries) :=
        fun node hfirst => (node?_congr (KeyMap.get?_insert_of_ne hfirst node t) more).trans hother
      cases rest with
      | nil =>
        obtain ⟨_, hname⟩ := h.leaf
        refine ⟨entries, hapart _ ?_⟩
        rintro rfl
        cases more with
        | nil => exact hname entries (by rw [← hother, node?_leaf])
        | cons next more =>
          rw [node?_deep, entriesOf_eq_nil hname, node?_empty] at hother
          cases hother
      | cons next rest =>
        obtain ⟨_, _, hroom⟩ := h.deep
        have hset : t.set (name :: next :: rest) (.file bytes) =
            t.insert name (.directory (set (t.entriesOf name) (next :: rest) (.file bytes))) := rfl
        rw [hset]
        by_cases hfirst : first = name
        · subst hfirst
          cases more with
          | nil => exact ⟨_, by rw [node?_leaf, KeyMap.get?_insert_self]⟩
          | cons next' more =>
            rw [node?_deep] at hother
            obtain ⟨entries', hentries'⟩ := ih hroom hother
            refine ⟨entries', ?_⟩
            rw [node?_deep, entriesOf, KeyMap.get?_insert_self]
            exact hentries'
        · exact ⟨entries, hapart _ hfirst⟩

/-! ## Following -/

/-- Names that lead to a directory lead there after a file was written. -/
theorem enter_set_file (h : t.Room path) (bytes : List UInt8) {at_ place : FilePath} {names : List String}
    (henter : t.enter at_ names = .ok place) : (t.set path (.file bytes)).enter at_ names = .ok place := by
  induction names generalizing at_ with
  | nil => exact henter
  | cons name rest ih =>
    rw [enter] at henter ⊢
    split at henter
    · rename_i hstays
      rw [if_pos hstays]
      exact ih henter
    · rename_i hstays
      rw [if_neg hstays]
      split at henter
      · rename_i hup
        rw [if_pos hup]
        exact ih henter
      · rename_i hup
        rw [if_neg hup]
        split at henter
        · cases henter
        · rename_i hshort
          rw [if_neg hshort]
          split at henter
          · cases henter
          · cases henter
          · rename_i entries hnode
            obtain ⟨entries', hnode'⟩ := node?_set_file h bytes hnode
            rw [hnode']
            exact ih henter

theorem follow_set_file (h : t.Room path) (bytes : List UInt8) {at_ place : FilePath} {names : List String}
    (hfollow : t.follow at_ names = .ok place) : (t.set path (.file bytes)).follow at_ names = .ok place := by
  unfold follow at hfollow ⊢
  cases hlast : names.getLast? with
  | none => rwa [hlast] at hfollow
  | some last =>
    rw [hlast] at hfollow
    simp only at hfollow ⊢
    split at hfollow
    · rename_i hstays
      rw [if_pos hstays]
      exact enter_set_file h bytes hfollow
    · rename_i hstays
      rw [if_neg hstays]
      cases henter : t.enter at_ names.dropLast with
      | error e =>
        rw [henter] at hfollow
        cases hfollow
      | ok directory =>
        rw [henter] at hfollow
        rw [enter_set_file h bytes henter]
        exact hfollow

/-- A written path leads where it led before a file was written. -/
theorem locate_set_file (h : t.Room path) (bytes : List UInt8) {p : Pathname} {place : FilePath}
    (hlocate : t.locate p = .ok place) : (t.set path (.file bytes)).locate p = .ok place := by
  unfold locate lookUp at hlocate ⊢
  split at hlocate
  · cases hlocate
  · rename_i htext
    rw [if_neg htext]
    cases hrefused : refusal? p.text with
    | some problem =>
      rw [hrefused] at hlocate
      cases hlocate
    | none =>
      rw [hrefused] at hlocate
      exact follow_set_file h bytes hlocate

/-! ## Texts -/

/-- The text of a file is read by a path that leads to the file. -/
theorem readText_eq_ok {p : Pathname} {text : String} (path : FilePath) (hlocate : t.locate p = .ok path)
    (hread : t.read path = .ok (Text.Utf8.encode text.toList)) : t.readText p = .ok text := by
  have hbytes : (t.read path).mapError TextProblem.file = pure (Text.Utf8.encode text.toList) := by
    rw [hread]
    rfl
  rw [readText, hlocate]
  show ((t.read path).mapError TextProblem.file >>= _) = _
  rw [hbytes, pure_bind, Text.Utf8.decode_encode]
  exact congrArg Except.ok String.ofList_toList

/-- A text is written to where its path leads, unless the path ends in a slash. -/
theorem writeText_eq_write {p : Pathname} (path : FilePath) (hslash : Text.endsWith p.text.toList ['/'] = false)
    (hlocate : t.locate p = .ok path) (text : String) :
    t.writeText p text = t.write path (Text.Utf8.encode text.toList) := by
  rw [writeText, hslash, hlocate]
  rfl

/-- A text that was written is read by the path that it was written by. -/
theorem readText_writeText {p : Pathname} {text : String} (h : t.writeText p text = (t', .ok ())) :
    t'.readText p = .ok text := by
  unfold writeText at h
  split at h
  · cases h
  · split at h
    · cases h
    · rename_i path hlocate
      obtain ⟨hroom, hset⟩ := write_ok h
      have hbytes : t'.bytes? path = some (Text.Utf8.encode text.toList) := by
        rw [bytes?_write h, if_pos rfl]
      have hread : t'.read path = .ok (Text.Utf8.encode text.toList) := by
        rw [bytes?] at hbytes
        cases hresult : t'.read path with
        | error e => rw [hresult] at hbytes; cases hbytes
        | ok found => rw [hresult] at hbytes; cases hbytes; rfl
      subst hset
      exact readText_eq_ok path (locate_set_file hroom _ hlocate) hread

/-- A text that could not be written changes nothing. -/
theorem writeText_error {p : Pathname} {text : String} {e : FileProblem} (h : t.writeText p text = (t', .error e)) :
    t' = t := by
  unfold writeText at h
  split at h
  · cases h
    rfl
  · split at h
    · cases h
      rfl
    · exact write_error h

end Playbook.FileTree
