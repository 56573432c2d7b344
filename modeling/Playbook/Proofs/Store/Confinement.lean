import Playbook.Proofs.Store.Latest
import Playbook.Proofs.Store.Pathname

/-!
# `Proofs.Store.Confinement` — a key leads nowhere outside the store's directory

Whatever a key says, it is either refused before anything is touched, or it names a path of plain names below the store's directory:
names that are not empty, stay nowhere, go up nowhere and are cut nowhere. A write makes directories on the way to the end of that path
and writes the file there, and nothing else in the whole tree changes; and as a written path, too, it leads to that place only.

## Contents
- **Names.** `PlainName`; `pathOfKey_plain`, `pathOfKey_error`: the paths and the failures of keys.
- **Marks.** `FileTree.mark?`, what stands at a path without what a directory holds; `mark?_makeDirs` and `mark?_set` say what the two
  steps of a write change, `ChangedAlong` what both may change.
- **Following.** `Pathname.Leads`; `enter_plain`, `leads_show`: the written path of a key leads below the store's directory.
- **Keys.** `FileStore.put_changedAlong`, `FileStore.keys_confined`.
-/

namespace Playbook

open Digest (Scheme)

variable {key : String} {path : FilePath}

/-! ## Names -/

/-- A name that stands for something in the directory in which it is looked up, and in no other. -/
structure PlainName (name : String) : Prop where
  nonempty : name ≠ ""
  moves : name ≠ "."
  stays_below : name ≠ ".."
  uncut : '/' ∉ name.toList
  safe : ∀ c ∈ name.toList, c ∉ unsafeChars

theorem PlainName.not_stays {name : String} (h : PlainName name) : ¬Pathname.stays name = true := by
  unfold Pathname.stays
  simp [h.nonempty, h.moves]

theorem pathOfKey_segments (h : pathOfKey key = .ok path) :
    segmentsOf key ≠ [] ∧ ∀ segment ∈ segmentsOf key, segment ≠ ['.'] ∧ segment ≠ ['.', '.'] := by
  unfold pathOfKey at h
  simp only at h
  split at h
  · cases h
  · rename_i hdots
    split at h
    · cases h
    · rename_i hsome
      refine ⟨fun hnone => hsome (List.isEmpty_iff.2 hnone), fun segment hmem => ?_⟩
      constructor
      · rintro rfl
        exact hdots (List.any_eq_true.2 ⟨['.'], hmem, by simp⟩)
      · rintro rfl
        exact hdots (List.any_eq_true.2 ⟨['.', '.'], hmem, by simp⟩)

/-- The path of a key has names, and all of them are plain. -/
theorem pathOfKey_plain (h : pathOfKey key = .ok path) : path ≠ [] ∧ ∀ name ∈ path, PlainName name := by
  obtain ⟨hsome, hdots⟩ := pathOfKey_segments h
  obtain rfl := pathOfKey_eq_ok h
  constructor
  · intro hnone
    exact hsome (List.map_eq_nil_iff.1 hnone)
  · intro name hname
    obtain ⟨segment, hmem, rfl⟩ := List.mem_map.1 hname
    obtain ⟨hne, hslash, hsafe⟩ := mem_segmentsOf hmem
    obtain ⟨hdot, hdotdot⟩ := hdots segment hmem
    have hunlike : ∀ other : List Char, segment ≠ other → String.ofList segment ≠ String.ofList other := by
      intro other hother heq
      exact hother (String.ofList_injective heq)
    exact {
      nonempty := hunlike [] hne
      moves := hunlike ['.'] hdot
      stays_below := hunlike ['.', '.'] hdotdot
      uncut := by rwa [String.toList_ofList]
      safe := by
        rw [String.toList_ofList, ← hsafe]
        exact safeSegment_safe segment }

/-- A key is refused as one that cannot be stored under: it has no names, or one that is not plain. -/
theorem pathOfKey_error {e : Failure} (h : pathOfKey key = .error e) :
    e.kind = .storageFailed ∧
      (segmentsOf key = [] ∨ ['.'] ∈ segmentsOf key ∨ ['.', '.'] ∈ segmentsOf key) := by
  unfold pathOfKey at h
  simp only at h
  split at h
  · rename_i hdots
    cases h
    refine ⟨rfl, .inr ?_⟩
    obtain ⟨segment, hmem, hdot⟩ := List.any_eq_true.1 hdots
    simp only [Bool.or_eq_true, decide_eq_true_eq] at hdot
    rcases hdot with rfl | rfl
    · exact .inl hmem
    · exact .inr hmem
  · split at h
    · rename_i hnone
      cases h
      exact ⟨rfl, .inl (List.isEmpty_iff.1 hnone)⟩
    · cases h

/-! ## Marks -/

/-- What stands at a path, without what a directory holds. -/
inductive Mark where
  | file (bytes : List UInt8)
  | directory
  deriving DecidableEq

/-- A node without what it holds. -/
def FileNode.mark : FileNode → Mark
  | .file bytes => .file bytes
  | .directory _ => .directory

namespace FileTree

variable {t t' : FileTree} {name next : String} {rest other : FilePath} {bytes : List UInt8}

/-- What stands at a path, without what a directory holds. -/
def mark? (t : FileTree) (path : FilePath) : Option Mark :=
  (t.node? path).map FileNode.mark

@[simp] theorem mark?_nil (t : FileTree) : t.mark? [] = some .directory := rfl

theorem mark?_cons_directory {entries : FileTree} (h : t.get? name = some (.directory entries)) (rest : FilePath) :
    t.mark? (name :: rest) = mark? entries rest := by
  unfold mark?
  cases rest with
  | nil =>
    rw [node?_leaf, h]
    rfl
  | cons next rest => rw [node?_deep, entriesOf, h]

theorem mark?_cons_file {bytes : List UInt8} (h : t.get? name = some (.file bytes)) (rest : FilePath) :
    t.mark? (name :: rest) = if rest = [] then some (.file bytes) else none := by
  unfold mark?
  cases rest with
  | nil =>
    rw [node?_leaf, h]
    rfl
  | cons next rest =>
    rw [node?_deep, entriesOf, h, node?_empty]
    rfl

theorem mark?_cons_none (h : t.get? name = none) (rest : FilePath) : t.mark? (name :: rest) = none := by
  unfold mark?
  cases rest with
  | nil =>
    rw [node?_leaf, h]
    rfl
  | cons next rest =>
    rw [node?_deep, entriesOf, h, node?_empty]
    rfl

/-- What is put under one name changes nothing under another. -/
theorem mark?_insert_of_ne {first : String} (h : first ≠ name) (node : FileNode) (rest : FilePath) :
    mark? (t.insert name node) (first :: rest) = t.mark? (first :: rest) := by
  unfold mark?
  rw [node?_congr (KeyMap.get?_insert_of_ne h node t)]

/-- Making directories makes some that were not there, on the way to the last one, and changes nothing else. -/
theorem mark?_makeDirs (t : FileTree) (dirs other : FilePath) :
    (t.makeDirs dirs).1.mark? other = t.mark? other ∨
      other <+: dirs ∧ t.mark? other = none ∧ (t.makeDirs dirs).1.mark? other = some .directory := by
  induction dirs generalizing t other with
  | nil => exact .inl rfl
  | cons name dirs ih =>
    cases other with
    | nil => exact .inl rfl
    | cons first rest =>
      rw [makeDirs]
      split
      · exact .inl rfl
      · by_cases hfirst : first = name
        · subst hfirst
          cases hnode : t.get? first with
          | none =>
            -- The directory is new: as it was not there, neither was anything in it.
            simp only
            rw [mark?_cons_directory (KeyMap.get?_insert_self ..), mark?_cons_none hnode]
            rcases ih [] rest with hsame | ⟨hway, _, hmade⟩
            · cases rest with
              | nil => exact .inr ⟨List.prefix_append [first] dirs, rfl, rfl⟩
              | cons next rest =>
                rw [hsame]
                exact .inl (mark?_cons_none rfl rest)
            · exact .inr ⟨List.cons_prefix_cons.2 ⟨rfl, hway⟩, rfl, hmade⟩
          | some node =>
            cases node with
            | file bytes => exact .inl rfl
            | directory entries =>
              simp only
              rw [mark?_cons_directory (KeyMap.get?_insert_self ..), mark?_cons_directory hnode]
              rcases ih entries rest with hsame | ⟨hway, hnone, hmade⟩
              · exact .inl hsame
              · exact .inr ⟨List.cons_prefix_cons.2 ⟨rfl, hway⟩, hnone, hmade⟩
        · refine .inl ?_
          cases t.get? name with
          | none => exact mark?_insert_of_ne hfirst _ rest
          | some node =>
            cases node with
            | file bytes => rfl
            | directory entries => exact mark?_insert_of_ne hfirst _ rest

/-- Where there is room for a file under some names, the first of them stands for a directory. -/
theorem Room.enters (h : t.Room (name :: next :: rest)) :
    ∃ entries, t.get? name = some (.directory entries) ∧ Room entries (next :: rest) := by
  obtain ⟨hshort, hname, hroom⟩ := h.deep
  cases hnode : t.get? name with
  | none =>
    -- Neither the file nor its directory could be found.
    exfalso
    unfold Room at h
    rw [find_deep, if_neg hshort, hnode] at h
    rcases h with ⟨_, h⟩ | ⟨_, entries, h⟩
    · cases h
    · rw [List.dropLast_cons_of_ne_nil (List.cons_ne_nil next rest)] at h
      cases hdirs : (next :: rest).dropLast with
      | nil => rw [hdirs, find_leaf, if_neg hshort, hnode] at h; cases h
      | cons next' rest' => rw [hdirs, find_deep, if_neg hshort, hnode] at h; cases h
  | some node =>
    cases node with
    | file bytes => exact absurd hnode (hname bytes)
    | directory entries =>
      rw [entriesOf, hnode] at hroom
      exact ⟨entries, rfl, hroom⟩

/-- There is no directory where there is room for a file. -/
theorem Room.mark?_ne (h : t.Room path) : t.mark? path ≠ some .directory := by
  induction path generalizing t with
  | nil =>
    rcases h with ⟨_, h⟩ | ⟨h, _⟩
    · cases h
    · cases h
  | cons name rest ih =>
    cases rest with
    | nil =>
      obtain ⟨_, hname⟩ := h.leaf
      cases hnode : t.get? name with
      | none =>
        rw [mark?_cons_none hnode]
        nofun
      | some node =>
        cases node with
        | file bytes =>
          rw [mark?_cons_file hnode, if_pos rfl]
          nofun
        | directory entries => exact absurd hnode (hname entries)
    | cons next rest =>
      obtain ⟨entries, hnode, hroom⟩ := h.enters
      rw [mark?_cons_directory hnode]
      exact ih hroom

/-- A file that is put where there is room for it is there, and nothing else has changed. -/
theorem mark?_set (h : t.Room path) (bytes : List UInt8) (other : FilePath) :
    (t.set path (.file bytes)).mark? other = if other = path then some (.file bytes) else t.mark? other := by
  -- The file goes down along its path, and `other` is followed as far as it goes the same way.
  induction path generalizing t other with
  | nil => exact absurd rfl h.mark?_ne
  | cons name rest ih =>
    cases other with
    | nil =>
      rw [if_neg (List.cons_ne_nil name rest).symm, mark?_nil, mark?_nil]
    | cons first more =>
      by_cases hfirst : first = name
      · subst hfirst
        simp only [List.cons.injEq, true_and]
        cases rest with
        | nil =>
          obtain ⟨_, hname⟩ := h.leaf
          show mark? (t.insert first (.file bytes)) (first :: more) = _
          rw [mark?_cons_file (KeyMap.get?_insert_self ..)]
          by_cases hmore : more = []
          · rw [if_pos hmore, if_pos hmore]
          · rw [if_neg hmore, if_neg hmore]
            -- Nothing stood below the name, since it was not that of a directory.
            cases hnode : t.get? first with
            | none => exact (mark?_cons_none hnode more).symm
            | some node =>
              cases node with
              | file old => rw [mark?_cons_file hnode, if_neg hmore]
              | directory entries => exact absurd hnode (hname entries)
        | cons next rest =>
          obtain ⟨entries, hnode, hroom⟩ := h.enters
          have hset : t.set (first :: next :: rest) (.file bytes) =
              t.insert first (.directory (set entries (next :: rest) (.file bytes))) := by
            rw [set, entriesOf, hnode]
            exact List.cons_ne_nil next rest
          rw [hset, mark?_cons_directory (KeyMap.get?_insert_self ..), mark?_cons_directory hnode]
          exact ih hroom more
      · rw [if_neg fun heq => hfirst (List.cons.inj heq).1]
        cases rest with
        | nil => exact mark?_insert_of_ne hfirst _ more
        | cons next rest => exact mark?_insert_of_ne hfirst _ more

/-- All that may have changed of a tree in which a file was to be written: directories that were not there have been made on the way to
    it, and the file itself has been written, though not over a directory. -/
def ChangedAlong (t t' : FileTree) (path : FilePath) (bytes : List UInt8) : Prop :=
  ∀ other, t'.mark? other = t.mark? other ∨
    other <+: path ∧ other ≠ path ∧ t.mark? other = none ∧ t'.mark? other = some .directory ∨
    other = path ∧ t.mark? path ≠ some .directory ∧ t'.mark? path = some (.file bytes)

/-- Directories have been made on the way, and the file is written then. -/
theorem ChangedAlong.set (h : t.ChangedAlong t' path bytes) (hfile : t'.mark? path = t.mark? path)
    (hroom : t'.Room path) : t.ChangedAlong (t'.set path (.file bytes)) path bytes := by
  have hset := mark?_set hroom bytes
  intro other
  by_cases hother : other = path
  · refine .inr (.inr ⟨hother, ?_, ?_⟩)
    · rw [← hfile]
      exact hroom.mark?_ne
    · rw [hset, if_pos rfl]
  · rcases h other with hsame | ⟨honway, hapart, hnone, hnew⟩ | ⟨heq, _⟩
    · refine .inl ?_
      rw [hset, if_neg hother]
      exact hsame
    · refine .inr (.inl ⟨honway, hapart, hnone, ?_⟩)
      rw [hset, if_neg hother]
      exact hnew
    · exact absurd heq hother

/-! ## Following -/

theorem enter_append (t : FileTree) (at_ : FilePath) (names later : List String) :
    t.enter at_ (names ++ later) = (t.enter at_ names).bind (t.enter · later) := by
  induction names generalizing at_ with
  | nil => rfl
  | cons name rest ih =>
    rw [List.cons_append, enter, enter]
    split
    · exact ih at_
    · split
      · exact ih at_.dropLast
      · split
        · rfl
        · cases t.node? (at_ ++ [name]) with
          | none => rfl
          | some node =>
            cases node with
            | file bytes => rfl
            | directory entries => exact ih (at_ ++ [name])

/-- Plain names lead below the directory in which they are followed. -/
theorem enter_plain {at_ place : FilePath} {names : List String} (h : ∀ name ∈ names, PlainName name)
    (henter : t.enter at_ names = .ok place) : place = at_ ++ names := by
  induction names generalizing at_ with
  | nil =>
    cases henter
    exact (List.append_nil _).symm
  | cons name rest ih =>
    rw [List.forall_mem_cons] at h
    obtain ⟨hplain, hrest⟩ := h
    rw [enter, if_neg hplain.not_stays, if_neg hplain.stays_below] at henter
    split at henter
    · cases henter
    · cases hnode : t.node? (at_ ++ [name]) with
      | none =>
        rw [hnode] at henter
        cases henter
      | some node =>
        rw [hnode] at henter
        cases node with
        | file bytes => cases henter
        | directory entries =>
          exact (ih hrest henter).trans (List.append_assoc _ [name] rest)

/-- Plain names lead below the directory in which they are followed, also when the last of them is not entered. -/
theorem follow_plain {at_ root place : FilePath} {led names : List String} (hled : t.enter at_ led = .ok root)
    (hne : names ≠ []) (h : ∀ name ∈ names, PlainName name) (hfollow : t.follow at_ (led ++ names) = .ok place) :
    place = root ++ names := by
  obtain ⟨front, last, rfl⟩ := List.eq_nil_or_concat names |>.resolve_left hne
  rw [List.concat_eq_append] at h hfollow ⊢
  have hlast : PlainName last := h last (List.mem_append_right front List.mem_cons_self)
  have hfront : ∀ name ∈ front, PlainName name := fun name hmem => h name (List.mem_append_left [last] hmem)
  have hup : ¬(Pathname.stays last || last = "..") = true := by
    simp [hlast.not_stays, hlast.stays_below]
  unfold follow at hfollow
  rw [← List.append_assoc, List.getLast?_concat] at hfollow
  simp only [if_neg hup, List.dropLast_concat, enter_append, hled] at hfollow
  cases henter : t.enter root front with
  | error e =>
    simp only [Except.bind, henter] at hfollow
    cases hfollow
  | ok above =>
    simp only [Except.bind, henter] at hfollow
    cases hfollow
    rw [enter_plain hfront henter]
    exact List.append_assoc root front [last]

end FileTree

/-- A written path leads to a directory of a tree. -/
def Pathname.Leads (p : Pathname) (t : FileTree) (place : FilePath) : Prop :=
  t.enter p.start p.names = .ok place

theorem toList_intercalate_slash (path : FilePath) :
    ("/".intercalate path).toList = Text.joinWith ['/'] (path.map String.toList) := by
  induction path with
  | nil => rfl
  | cons name rest ih =>
    cases rest with
    | nil => simp [Text.joinWith]
    | cons next rest =>
      rw [String.intercalate_cons_cons, String.toList_append, String.toList_append, ih]
      rfl

/-- Whether a written path starts at the root is seen from what it begins with. -/
theorem startsWith_slash_append {front : List Char} (h : front ≠ []) (rest : List Char) :
    Text.startsWith (front ++ rest) ['/'] = Text.startsWith front ['/'] := by
  cases front with
  | nil => exact absurd rfl h
  | cons c front =>
    unfold Text.startsWith
    by_cases hc : c = '/'
    · subst hc
      rw [List.cons_append, Text.stripPrefix_singleton, Text.stripPrefix_singleton]
      rfl
    · rw [List.cons_append, Text.stripPrefix_singleton_ne (Ne.symm hc), Text.stripPrefix_singleton_ne (Ne.symm hc)]

theorem startsWith_slash_of_plain {name : String} (h : PlainName name) :
    Text.startsWith name.toList ['/'] = false := by
  cases hname : name.toList with
  | nil => rfl
  | cons c rest =>
    have hc : '/' ≠ c := by
      rintro rfl
      exact h.uncut (hname ▸ List.mem_cons_self)
    rw [Text.startsWith, Text.stripPrefix_singleton_ne hc]
    rfl

theorem startsWith_slash_intercalate {names : List String} (h : ∀ name ∈ names, PlainName name) :
    Text.startsWith ("/".intercalate names).toList ['/'] = false := by
  cases names with
  | nil => rfl
  | cons name rest =>
    have hplain : PlainName name := h name List.mem_cons_self
    have hname : name.toList ≠ [] := fun hnil => hplain.nonempty (String.toList_eq_nil_iff.1 hnil)
    cases rest with
    | nil =>
      rw [String.intercalate_singleton]
      exact startsWith_slash_of_plain hplain
    | cons next rest =>
      rw [String.intercalate_cons_cons, String.toList_append, String.toList_append, List.append_assoc,
        startsWith_slash_append hname]
      exact startsWith_slash_of_plain hplain

namespace FileStore

variable {s : FileStore} {t : FileTree}

/-- How a path below the directory is written: behind a slash, unless the directory itself is written with one at its end or not at all. -/
theorem toList_show (s : FileStore) (hne : path ≠ []) :
    s.shown = "" ∧ (s.show_ path).toList = ("/".intercalate path).toList ∨
      (∃ front, s.shown.toList = front ++ ['/'] ∧
        (s.show_ path).toList = s.shown.toList ++ ("/".intercalate path).toList) ∨
      s.shown ≠ "" ∧ (s.show_ path).toList = s.shown.toList ++ '/' :: ("/".intercalate path).toList := by
  unfold show_
  rw [if_neg hne, String.toList_append, String.toList_append, List.append_assoc]
  by_cases hempty : s.shown = ""
  · rw [hempty]
    exact .inl ⟨rfl, rfl⟩
  · by_cases hslash : Text.endsWith s.shown.toList ['/'] = true
    · obtain ⟨front, hfront⟩ := Text.eq_append_of_endsWith hslash
      rw [hslash, Bool.or_true, if_pos rfl]
      exact .inr (.inl ⟨front, hfront, rfl⟩)
    · refine .inr (.inr ⟨hempty, ?_⟩)
      rw [if_neg (by simp [hempty, hslash])]
      rfl

/-- The names of a written path below the directory are those that lead to the directory, and then those below it. -/
theorem names_show (s : FileStore) (here : FilePath) (hne : path ≠ []) (h : ∀ name ∈ path, PlainName name) :
    ∃ led, Pathname.names ⟨here, s.show_ path⟩ = led ++ path ∧
      Pathname.start ⟨here, s.show_ path⟩ = Pathname.start ⟨here, s.shown⟩ ∧
      ∀ (t : FileTree) (at_ : FilePath), t.enter at_ (Pathname.names ⟨here, s.shown⟩) = t.enter at_ led := by
  let below := "/".intercalate path
  have hcut : (Text.splitOn '/' below.toList).map String.ofList = path := by
    have hpieces : Text.splitOn '/' below.toList = path.map String.toList := by
      rw [toList_intercalate_slash]
      refine Text.splitOn_joinWith (fun hnil => hne (List.map_eq_nil_iff.1 hnil)) fun piece hpiece => ?_
      obtain ⟨name, hname, rfl⟩ := List.mem_map.1 hpiece
      exact (h name hname).uncut
    rw [hpieces, List.map_map]
    exact (List.map_congr_left fun name _ => String.ofList_toList).trans (List.map_id path)
  have hbelow : ∀ front : List Char, (Text.splitOn '/' (front ++ '/' :: below.toList)).map String.ofList =
      (Text.splitOn '/' front).map String.ofList ++ path := by
    intro front
    rw [Text.splitOn_append, List.map_append, hcut]
  unfold Pathname.names Pathname.start
  dsimp only
  rcases s.toList_show hne with ⟨hempty, hshow⟩ | ⟨front, hfront, hshow⟩ | ⟨hsome, hshow⟩
  · -- The directory is the current one, and the names are followed from there.
    rw [hshow, hempty]
    refine ⟨[], hcut, ?_, fun t at_ => rfl⟩
    rw [startsWith_slash_intercalate h]
    rfl
  · -- The empty name behind the slash leads nowhere.
    rw [hshow, hfront, startsWith_slash_append (List.append_ne_nil_of_right_ne_nil front (List.cons_ne_nil '/' []))]
    refine ⟨(Text.splitOn '/' front).map String.ofList, ?_, rfl, fun t at_ => ?_⟩
    · rw [List.append_assoc]
      exact hbelow front
    · rw [Text.splitOn_append, List.map_append, FileTree.enter_append]
      cases t.enter at_ ((Text.splitOn '/' front).map String.ofList) <;> rfl
  · have hne' : s.shown.toList ≠ [] := fun hnil => hsome (String.toList_eq_nil_iff.1 hnil)
    rw [hshow, startsWith_slash_append hne']
    exact ⟨_, hbelow s.shown.toList, rfl, fun t at_ => rfl⟩

/-- Where the written path of the directory leads to the directory, the written path of plain names below it leads to those names below
    it, if anywhere. -/
theorem locate_show {u : FileTree} {here place : FilePath} (hne : path ≠ []) (h : ∀ name ∈ path, PlainName name)
    (hleads : Pathname.Leads ⟨here, s.shown⟩ u s.root) (hlocate : u.locate ⟨here, s.show_ path⟩ = .ok place) :
    place = s.root ++ path := by
  obtain ⟨led, hnames, hstart, henter⟩ := s.names_show here hne h
  unfold Pathname.Leads at hleads
  rw [henter] at hleads
  unfold FileTree.locate FileTree.lookUp at hlocate
  rw [hnames, hstart] at hlocate
  split at hlocate
  · cases hlocate
  · split at hlocate
    · cases hlocate
    · exact FileTree.follow_plain hleads hne h hlocate

/-! ## Keys -/

theorem change_marks {u : FileTree} {α : Type} {r : Except FileProblem α} {written : String}
    {f : FileTree → FileTree × Except FileProblem α} (h : t.change written f = (u, r)) :
    u = t ∧ (∃ e, r = .error e) ∨ f t = (u, r) := by
  unfold FileTree.change at h
  split at h
  · cases h
    exact .inl ⟨rfl, _, rfl⟩
  · exact .inr h

/-- A directory on the way to a file is not the file. -/
theorem way_ne {root dirs : FilePath} (hne : path ≠ []) (hway : dirs <+: root ++ path.dropLast) :
    dirs <+: root ++ path ∧ dirs ≠ root ++ path := by
  have hshort : (root ++ path.dropLast).length < (root ++ path).length := by
    have hpos : 0 < path.length := List.length_pos_iff.2 hne
    simp only [List.length_append, List.length_dropLast]
    omega
  constructor
  · exact hway.trans ((List.prefix_append_right_inj root).2 (List.dropLast_prefix path))
  · rintro rfl
    exact absurd hway.length_le (Nat.not_le.2 hshort)

/-- The directories for a file change nothing but the way to it. -/
theorem makeDirs_changedAlong {root : FilePath} {written : String} {t₁ : FileTree} {r : Except FileProblem Unit}
    (hne : path ≠ []) (h : t.change written (·.makeDirs (root ++ path.dropLast)) = (t₁, r)) (bytes : List UInt8) :
    t.ChangedAlong t₁ (root ++ path) bytes ∧ t₁.mark? (root ++ path) = t.mark? (root ++ path) := by
  have hmade : ∀ other, t₁.mark? other = t.mark? other ∨
      other <+: root ++ path.dropLast ∧ t.mark? other = none ∧ t₁.mark? other = some .directory := by
    intro other
    rcases change_marks h with ⟨rfl, _⟩ | hmake
    · exact .inl rfl
    · have hmarks := t.mark?_makeDirs (root ++ path.dropLast) other
      rwa [hmake] at hmarks
  constructor
  · intro other
    rcases hmade other with hsame | ⟨hway, hnone, hnew⟩
    · exact .inl hsame
    · obtain ⟨honway, hapart⟩ := way_ne hne hway
      exact .inr (.inl ⟨honway, hapart, hnone, hnew⟩)
  · rcases hmade (root ++ path) with hsame | ⟨hway, _, _⟩
    · exact hsame
    · exact absurd rfl (way_ne hne hway).2

/-- A write to a path below the directory makes directories on the way to the path's end and writes the file there. It changes nothing
    else, and not the file either if it fails. -/
theorem put_changedAlong (s : FileStore) (scheme : Scheme) (bytes : List UInt8) (mime : String) (t : FileTree)
    (hpath : pathOfKey key = .ok path) :
    t.ChangedAlong (s.put scheme key bytes mime t).2 (s.root ++ path) bytes ∧
      (∀ e, (s.put scheme key bytes mime t).1 = .error e →
        (s.put scheme key bytes mime t).2.mark? (s.root ++ path) = t.mark? (s.root ++ path)) ∧
      ∀ receipt, (s.put scheme key bytes mime t).1 = .ok receipt →
        (s.put scheme key bytes mime t).2.mark? (s.root ++ path) = some (.file bytes) := by
  obtain ⟨hne, _⟩ := pathOfKey_plain hpath
  unfold put
  rw [hpath]
  simp only
  cases hdirs : t.change (s.show_ path.dropLast) (·.makeDirs (s.root ++ path.dropLast)) with
  | mk t₁ r₁ =>
    obtain ⟨halong, hfile⟩ := makeDirs_changedAlong hne hdirs bytes
    cases r₁ with
    | error e => exact ⟨halong, fun _ _ => hfile, nofun⟩
    | ok _ =>
      simp only
      cases hwrite : t₁.change (s.show_ path) (·.write (s.root ++ path) bytes) with
      | mk t₂ r₂ =>
        cases r₂ with
        | error e =>
          have hback : t₂ = t₁ := by
            rcases change_marks hwrite with ⟨hsame, _⟩ | hwrite
            · exact hsame
            · exact FileTree.write_error hwrite
          subst hback
          exact ⟨halong, fun _ _ => hfile, nofun⟩
        | ok _ =>
          obtain ⟨hroom, rfl⟩ : t₁.Room (s.root ++ path) ∧ t₂ = t₁.set (s.root ++ path) (.file bytes) := by
            rcases change_marks hwrite with ⟨_, _, he⟩ | hwrite
            · cases he
            · exact FileTree.write_ok hwrite
          refine ⟨halong.set hfile hroom, nofun, fun _ _ => ?_⟩
          rw [FileTree.mark?_set hroom bytes, if_pos rfl]

/-- Whatever a key says, it leads nowhere outside the store's directory. It is refused as one that cannot be stored under, because it has
    no names or one that is not plain, and then a write and a read fail so and touch nothing. Or it is the path of one or more plain
    names below the directory: a write makes directories on the way to the path's end and writes the file there, a read changes nothing,
    and the path as it is written leads there wherever the directory as it is written leads to the directory. -/
theorem keys_confined (s : FileStore) (scheme : Scheme) (key : String) (bytes : List UInt8) (mime : String)
    (t : FileTree) :
    (∃ e, pathOfKey key = .error e ∧ e.kind = .storageFailed ∧
      (segmentsOf key = [] ∨ ['.'] ∈ segmentsOf key ∨ ['.', '.'] ∈ segmentsOf key) ∧
      (s.operations scheme).put key bytes mime t = (.error e, t) ∧ (s.operations scheme).get key t = (.error e, t)) ∨
    ∃ path, pathOfKey key = .ok path ∧ path ≠ [] ∧ (∀ name ∈ path, PlainName name) ∧
      (∀ (u : FileTree) (here place : FilePath), Pathname.Leads ⟨here, s.shown⟩ u s.root →
        u.locate ⟨here, s.show_ path⟩ = .ok place → place = s.root ++ path) ∧
      ((s.operations scheme).get key t).2 = t ∧
      t.ChangedAlong ((s.operations scheme).put key bytes mime t).2 (s.root ++ path) bytes ∧
      (∀ e, ((s.operations scheme).put key bytes mime t).1 = .error e →
        ((s.operations scheme).put key bytes mime t).2.mark? (s.root ++ path) = t.mark? (s.root ++ path)) ∧
      ∀ receipt, ((s.operations scheme).put key bytes mime t).1 = .ok receipt →
        ((s.operations scheme).put key bytes mime t).2.mark? (s.root ++ path) = some (.file bytes) := by
  cases hpath : pathOfKey key with
  | error e =>
    obtain ⟨hkind, hwhy⟩ := pathOfKey_error hpath
    refine .inl ⟨e, rfl, hkind, hwhy, ?_, ?_⟩
    · show s.put scheme key bytes mime t = _
      rw [put, hpath]
    · show (s.get key t, t) = _
      rw [get, hpath]
  | ok path =>
    obtain ⟨hne, hplain⟩ := pathOfKey_plain hpath
    obtain ⟨halong, hfailed, hwritten⟩ := s.put_changedAlong scheme bytes mime t hpath
    exact .inr ⟨path, rfl, hne, hplain, fun u here place hleads hlocate => locate_show hne hplain hleads hlocate, rfl,
      halong, hfailed, hwritten⟩

end FileStore

end Playbook
