import Playbook.Proofs.Program.Wording
import Playbook.Proofs.Store.FileTree
import Playbook.Proofs.Text.Search
import Playbook.Run.Session
import Playbook.Store.FileStore

/-!
# `Proofs.Store.FileStore` — what a store in a directory keeps

What was written under a key is read under it, and nothing else has changed, save under keys that have the same path. Two keys can
have one path, since characters that file names should not have are replaced. The keys that a run writes to are told apart by the
first and the last names of their paths: bindings and records stand in different directories, and a record is called as its agent,
whose name has no such characters.

## Contents
- **Paths.** `segmentsOf`; `pathOfKey_head`, `pathOfKey_getLast`; `pathOfKey_bindingKey`, `pathOfKey_memoryKey`.
- **Reading and writing.** `held`, `held_put_self`, `held_put_of_ne`; `ContentStore.InDirectory`.
-/

namespace Playbook

open Digest (Scheme)

variable {key other : String} {path : FilePath} {first last : List Char}

/-! ## Paths -/

/-- The segments of a key that name its path. -/
def segmentsOf (key : String) : List (List Char) :=
  ((Text.splitOn '/' key.toList).filter (!·.isEmpty)).map safeSegment

theorem pathOfKey_eq_ok (h : pathOfKey key = .ok path) : path = (segmentsOf key).map String.ofList := by
  unfold pathOfKey at h
  simp only at h
  split at h
  · cases h
  · split at h
    · cases h
    · cases h
      rfl

/-- The path of a key begins with what stands before the key's first slash. -/
theorem pathOfKey_head (h : pathOfKey key = .ok path) {rest : List Char}
    (hkey : key.toList = first ++ '/' :: rest) (hfirst : '/' ∉ first) (hne : first ≠ []) :
    path.head? = some (String.ofList (safeSegment first)) := by
  have hkeep : (!first.isEmpty) = true := by simpa using hne
  rw [pathOfKey_eq_ok h, segmentsOf, hkey, Text.splitOn_append, Text.splitOn_of_not_mem hfirst,
    List.singleton_append, List.filter_cons, if_pos hkeep, List.map_cons, List.map_cons, List.head?_cons]

/-- The path of a key ends with what stands behind the key's last slash. -/
theorem pathOfKey_getLast (h : pathOfKey key = .ok path) {front : List Char}
    (hkey : key.toList = front ++ '/' :: last) (hlast : '/' ∉ last) (hne : last ≠ []) :
    path.getLast? = some (String.ofList (safeSegment last)) := by
  have hkeep : (!last.isEmpty) = true := by simpa using hne
  rw [pathOfKey_eq_ok h, segmentsOf, hkey, Text.splitOn_append, Text.splitOn_of_not_mem hlast,
    List.filter_append, List.filter_cons, if_pos hkeep, List.filter_nil, List.map_append, List.map_append,
    List.map_singleton, List.map_singleton, List.getLast?_concat]

theorem safeSegment_eq_self {segment : List Char} (h : ∀ c ∈ segment, c ∉ unsafeChars) :
    safeSegment segment = segment := by
  rw [safeSegment]
  refine (List.map_congr_left fun c hc => ?_).trans (List.map_id segment)
  rw [if_neg (by simpa using h c hc)]
  rfl

theorem pathOfKey_bindingKey {runId name : String} {n : Nat}
    (h : pathOfKey (Host.bindingKey runId name n) = .ok path) : path.head? = some "runs" := by
  have hkey : (Host.bindingKey runId name n).toList =
      "runs".toList ++ '/' :: (runId ++ "/bindings/" ++ name ++ "/" ++ toString n ++ ".txt").toList := by
    simp [Host.bindingKey]
  exact pathOfKey_head h hkey (by decide) (by decide)

/-- The path of a record begins with a name that no binding's does, and ends with the name of its agent. -/
theorem pathOfKey_memoryKey {runId principalId agent : String}
    (h : pathOfKey (memoryKey runId principalId agent) = .ok path) :
    path.head? = some "memory" ∧
      (Program.Phrase.isName agent.toList → path.getLast? = some (agent ++ ".md")) := by
  constructor
  · have hkey : (memoryKey runId principalId agent).toList =
        "memory".toList ++ '/' :: (runId ++ "/" ++ principalId ++ "/" ++ agent ++ ".md").toList := by
      simp [memoryKey]
    exact pathOfKey_head h hkey (by decide) (by decide)
  · intro hname
    have hkey : (memoryKey runId principalId agent).toList =
        ("memory/" ++ runId ++ "/" ++ principalId).toList ++ '/' :: (agent ++ ".md").toList := by
      simp [memoryKey]
    have hmissing : ∀ c, Program.Printer.isNameChar c = false → c ∉ ".md".toList → c ∉ (agent ++ ".md").toList := by
      intro c hc hend hmem
      rw [String.toList_append, List.mem_append] at hmem
      exact hmem.elim (Program.Printer.not_mem_of_isName hname hc) hend
    have hmarks : ∀ c ∈ unsafeChars, Program.Printer.isNameChar c = false ∧ c ∉ ".md".toList := by
      simp [unsafeChars, Program.Printer.isNameChar]
    have hsafe : ∀ c ∈ (agent ++ ".md").toList, c ∉ unsafeChars := fun c hmem hc =>
      hmissing c (hmarks c hc).1 (hmarks c hc).2 hmem
    rw [pathOfKey_getLast h hkey (hmissing '/' (by decide) (by decide)) (by simp), safeSegment_eq_self hsafe,
      String.ofList_toList]

/-! ## Reading and writing -/

namespace FileStore

variable {s : FileStore} {scheme : Scheme} {bytes : List UInt8} {mime : String} {t : FileTree}

/-- What is held under a key, as far as it can be read. -/
def held (s : FileStore) (key : String) (t : FileTree) : Option (List UInt8) :=
  (s.get key t).toOption.join

theorem held_of_get {found : Option (List UInt8)} (h : s.get key t = .ok found) : found = s.held key t := by
  rw [held, h]
  rfl

theorem held_eq (hpath : pathOfKey key = .ok path) :
    s.held key t =
      if (FileTree.refusal? (s.show_ path)).isSome then none else t.bytes? (s.root ++ path) := by
  rw [held, get, hpath, FileTree.bytes?]
  simp only [FileTree.lookUp]
  cases FileTree.refusal? (s.show_ path) with
  | some problem => cases problem <;> rfl
  | none =>
    cases t.read (s.root ++ path) with
    | ok bytes => rfl
    | error e => cases e <;> rfl

theorem change_makeDirs (t : FileTree) (written : String) (dirs other : FilePath) :
    (t.change written (·.makeDirs dirs)).1.bytes? other = t.bytes? other := by
  unfold FileTree.change
  split
  · rfl
  · exact t.bytes?_makeDirs dirs other

/-- What a write does to the files: if it goes well, it writes the one that its key names, and else it changes none. -/
theorem put_cases (s : FileStore) (scheme : Scheme) (key : String) (bytes : List UInt8) (mime : String)
    (t : FileTree) :
    (∃ path receipt, pathOfKey key = .ok path ∧ FileTree.refusal? (s.show_ path) = none ∧
      (s.put scheme key bytes mime t).1 = .ok receipt ∧ ∀ other, (s.put scheme key bytes mime t).2.bytes? other =
        if other = s.root ++ path then some bytes else t.bytes? other) ∨
    (∃ e, (s.put scheme key bytes mime t).1 = .error e) ∧
      ∀ other, (s.put scheme key bytes mime t).2.bytes? other = t.bytes? other := by
  unfold put
  cases hpath : pathOfKey key with
  | error e => exact .inr ⟨⟨e, rfl⟩, fun _ => rfl⟩
  | ok path =>
    simp only
    -- The directories stay even if the file cannot be written, but no file has changed by them.
    have hmade := change_makeDirs t (s.show_ path.dropLast) (s.root ++ path.dropLast)
    cases hdirs : t.change (s.show_ path.dropLast) (·.makeDirs (s.root ++ path.dropLast)) with
    | mk t₁ r₁ =>
      rw [hdirs] at hmade
      cases r₁ with
      | error e => exact .inr ⟨⟨_, rfl⟩, hmade⟩
      | ok _ =>
        simp only
        cases hfile : t₁.change (s.show_ path) (·.write (s.root ++ path) bytes) with
        | mk t₂ r₂ =>
          unfold FileTree.change at hfile
          cases r₂ with
          | error e =>
            refine .inr ⟨⟨_, rfl⟩, fun other => ?_⟩
            rw [← hmade other]
            split at hfile
            · cases hfile
              rfl
            · rw [FileTree.write_error hfile]
          | ok _ =>
            split at hfile
            · cases hfile
            · rename_i hshown
              refine .inl ⟨path, _, rfl, hshown, rfl, fun other => ?_⟩
              rw [FileTree.bytes?_write hfile, ← hmade other]

/-- What was written under a key is held under it. -/
theorem held_put_self {receipt : StoredContent} (h : (s.put scheme key bytes mime t).1 = .ok receipt) :
    s.held key (s.put scheme key bytes mime t).2 = some bytes := by
  rcases put_cases s scheme key bytes mime t with ⟨path, _, hpath, hshown, _, hbytes⟩ | ⟨⟨e, he⟩, _⟩
  · rw [held_eq hpath, hshown, hbytes, if_pos rfl]
    rfl
  · rw [he] at h
    cases h

/-- Keys with other paths hold what they held. -/
theorem held_put_of_ne (hne : ∀ path, pathOfKey key = .ok path → pathOfKey other ≠ .ok path) :
    s.held key (s.put scheme other bytes mime t).2 = s.held key t := by
  cases hkey : pathOfKey key with
  | error e => rw [held, held, get, get, hkey]
  | ok path =>
    rw [held_eq hkey, held_eq hkey]
    rcases put_cases s scheme other bytes mime t with ⟨path', _, hpath', _, _, hbytes⟩ | ⟨_, hbytes⟩
    · have hpaths : ¬s.root ++ path = s.root ++ path' := fun heq =>
        hne path hkey (List.append_cancel_left heq ▸ hpath')
      rw [hbytes, if_neg hpaths]
    · rw [hbytes]

end FileStore

/-- A store whose calls are those of a store in a directory. It may take any time. -/
structure ContentStore.InDirectory (c : ContentStore FileTree) (s : FileStore) (scheme : Scheme) : Prop where
  put : ∀ key bytes mime t, c.put key bytes mime t = s.put scheme key bytes mime t
  get : ∀ key t, c.get key t = (s.get key t, t)

theorem FileStore.inDirectory (s : FileStore) (scheme : Scheme) (latency : StoreCall → FileTree → Nat) :
    ({ s.operations scheme with latency } : ContentStore FileTree).InDirectory s scheme :=
  ⟨fun _ _ _ _ => rfl, fun _ _ => rfl⟩

end Playbook
