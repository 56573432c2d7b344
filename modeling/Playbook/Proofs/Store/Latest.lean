import Playbook.Proofs.Run.Stored
import Playbook.Proofs.Store.FileStore

/-!
# `Proofs.Store.Latest` — what is read is what was put last

Of all that was put into a store one after another, some of it in vain, a key reads what went well last under a key like it. In memory
no two keys are alike. In a directory a key counts only in its *clean* form, in which nothing has to be replaced or dropped to get
names of files: keys with one clean form read each other's bytes, although they are different. The two stores are the same to those
who put nothing under two such keys.

## Contents
- **Keys.** `cleanKey`; `pathOfKey_eq_iff`: the clean form is what a path tells of its key. `PlainKey`.
- **Deposits.** `Deposit`, `lastOf`; what a store keeps of some deposits (`ContentStore.kept`) and what it has become by them
  (`ContentStore.after`).
- **Reading.** `ContentStore.ReadsLast`, what one put does to what is read; `ReadsLast.read_after`, what all of them do.
- **Stores.** `ContentStore.InMemory.readsLast`, `ContentStore.InDirectory.readsLast`.
- **Both stores.** `Alone`, and `stores_read_latest`.
-/

namespace Playbook

open Digest (Scheme)

variable {key other : String} {path : FilePath}

/-! ## Keys -/

/-- The clean form of a key. -/
def cleanKey (key : String) : String :=
  String.ofList (Text.joinWith ['/'] (segmentsOf key))

theorem safeSegment_safe (segment : List Char) : ∀ c ∈ safeSegment segment, c ∉ unsafeChars := by
  intro c hc
  obtain ⟨d, _, rfl⟩ := List.mem_map.1 hc
  split
  · decide
  · rename_i hd
    simpa using hd

theorem not_mem_safeSegment {segment : List Char} (h : '/' ∉ segment) : '/' ∉ safeSegment segment := by
  intro hmem
  obtain ⟨d, hd, heq⟩ := List.mem_map.1 hmem
  split at heq
  · exact absurd heq (by decide)
  · exact h (heq ▸ hd)

theorem mem_segmentsOf {segment : List Char} (h : segment ∈ segmentsOf key) :
    segment ≠ [] ∧ '/' ∉ segment ∧ safeSegment segment = segment := by
  obtain ⟨piece, hpiece, rfl⟩ := List.mem_map.1 h
  obtain ⟨hcut, hne⟩ := List.mem_filter.1 hpiece
  refine ⟨?_, not_mem_safeSegment (Text.not_mem_of_mem_splitOn hcut), safeSegment_eq_self (safeSegment_safe piece)⟩
  rw [safeSegment, Ne, List.map_eq_nil_iff]
  rintro rfl
  cases hne

/-- The clean form has the segments of the key. -/
theorem segmentsOf_cleanKey (key : String) : segmentsOf (cleanKey key) = segmentsOf key := by
  rw [segmentsOf, cleanKey, String.toList_ofList]
  by_cases hnone : segmentsOf key = []
  · rw [hnone]
    rfl
  · rw [Text.splitOn_joinWith hnone fun segment h => (mem_segmentsOf h).2.1]
    have hkept : (segmentsOf key).filter (!·.isEmpty) = segmentsOf key := by
      refine List.filter_eq_self.2 fun segment h => ?_
      simpa using (mem_segmentsOf h).1
    rw [hkept]
    exact (List.map_congr_left fun segment h => (mem_segmentsOf h).2.2).trans (List.map_id _)

theorem segmentsOf_eq_iff : segmentsOf key = segmentsOf other ↔ cleanKey key = cleanKey other := by
  constructor
  · intro h
    rw [cleanKey, h, cleanKey]
  · intro h
    rw [← segmentsOf_cleanKey key, h, segmentsOf_cleanKey]

/-- Keys are mapped to one path if and only if they have one clean form. -/
theorem pathOfKey_eq_iff {path' : FilePath} (h : pathOfKey key = .ok path) (h' : pathOfKey other = .ok path') :
    path = path' ↔ cleanKey key = cleanKey other := by
  have hinjective : Function.Injective String.ofList := fun s s' heq => by
    rw [← String.toList_ofList (l := s), heq, String.toList_ofList]
  rw [← segmentsOf_eq_iff, pathOfKey_eq_ok h, pathOfKey_eq_ok h']
  exact (List.map_injective_iff.2 hinjective).eq_iff

/-- A key is mapped to a path if its clean form is the one of a key that is. -/
theorem pathOfKey_of_clean (hclean : cleanKey key = cleanKey other) (h : pathOfKey key = .ok path) :
    pathOfKey other = .ok path := by
  have hsegments := segmentsOf_eq_iff.2 hclean
  unfold segmentsOf at hsegments
  unfold pathOfKey at h ⊢
  simp only at h ⊢
  rw [hsegments] at h
  split at h
  · cases h
  · rename_i hdots
    rw [if_neg hdots]
    split at h
    · cases h
    · rename_i hsome
      rw [if_neg hsome]
      exact h

/-- A key in which nothing has to be replaced or dropped. -/
structure PlainKey (key : String) : Prop where
  safe : ∀ c ∈ key.toList, c ∉ unsafeChars
  full : [] ∉ Text.splitOn '/' key.toList

/-- A plain key is its own clean form. -/
theorem PlainKey.cleanKey_eq (h : PlainKey key) : cleanKey key = key := by
  have hkept : (Text.splitOn '/' key.toList).filter (!·.isEmpty) = Text.splitOn '/' key.toList := by
    refine List.filter_eq_self.2 fun piece hpiece => ?_
    have hne : piece ≠ [] := fun hnil => h.full (hnil ▸ hpiece)
    simpa using hne
  have hsafe : (Text.splitOn '/' key.toList).map safeSegment = Text.splitOn '/' key.toList := by
    refine (List.map_congr_left fun piece hpiece => ?_).trans (List.map_id _)
    exact safeSegment_eq_self fun c hc => h.safe c (Text.mem_of_mem_splitOn hpiece hc)
  rw [cleanKey, segmentsOf, hkept, hsafe, Text.joinWith_splitOn, String.ofList_toList]

/-! ## Deposits -/

/-- Bytes of a media type, to be put under a key. -/
structure Deposit where
  key : String
  bytes : List UInt8
  mime : String
  deriving DecidableEq, Repr

/-- The bytes of the last of some deposits under keys of a kind. -/
def lastOf (like : String → Bool) (deposits : List Deposit) : Option (List UInt8) :=
  (deposits.filter (like ·.key)).getLast?.map (·.bytes)

theorem lastOf_cons (like : String → Bool) (d : Deposit) (rest : List Deposit) :
    lastOf like (d :: rest) = (lastOf like rest).or (if like d.key then some d.bytes else none) := by
  rw [lastOf, lastOf, List.filter_cons]
  by_cases hlike : like d.key
  · rw [if_pos hlike, if_pos hlike, List.getLast?_cons]
    cases (rest.filter (like ·.key)).getLast? with
    | none => rfl
    | some d' => rfl
  · rw [if_neg hlike, if_neg hlike, Option.or_none]

namespace ContentStore

variable {κ : Type} {c : ContentStore κ} {like : String → Bool} {read : κ → Option (List UInt8)}

/-- What a store has become when some deposits have been put into it one after another. -/
def after (c : ContentStore κ) : List Deposit → κ → κ
  | [], w => w
  | d :: rest, w => c.after rest (c.put d.key d.bytes d.mime w).2

/-- The deposits that go well. -/
def kept (c : ContentStore κ) : List Deposit → κ → List Deposit
  | [], _ => []
  | d :: rest, w =>
    match c.put d.key d.bytes d.mime w with
    | (.ok _, w) => d :: c.kept rest w
    | (.error _, w) => c.kept rest w

theorem mem_of_mem_kept {deposits : List Deposit} {w : κ} {d : Deposit} (h : d ∈ c.kept deposits w) : d ∈ deposits := by
  induction deposits generalizing w with
  | nil => exact h
  | cons d' rest ih =>
    rw [kept] at h
    split at h
    · exact List.mem_cons.2 ((List.mem_cons.1 h).imp id ih)
    · exact List.mem_cons_of_mem d' (ih h)

/-! ## Reading -/

/-- What can be read of a store is what is put under keys of a kind, as long as it goes well. -/
structure ReadsLast (c : ContentStore κ) (like : String → Bool) (read : κ → Option (List UInt8)) : Prop where
  ok : ∀ key bytes mime w receipt, (c.put key bytes mime w).1 = .ok receipt →
    read (c.put key bytes mime w).2 = if like key then some bytes else read w
  error : ∀ key bytes mime w e, (c.put key bytes mime w).1 = .error e → read (c.put key bytes mime w).2 = read w

/-- After some deposits it is the last of them that went well, or what it was before if there is none. -/
theorem ReadsLast.read_after (h : c.ReadsLast like read) (deposits : List Deposit) (w : κ) :
    read (c.after deposits w) = (lastOf like (c.kept deposits w)).or (read w) := by
  induction deposits generalizing w with
  | nil => rfl
  | cons d rest ih =>
    have hkept := h.ok d.key d.bytes d.mime w
    have hrefused := h.error d.key d.bytes d.mime w
    rw [after, kept, ih]
    cases hput : c.put d.key d.bytes d.mime w with
    | mk r w' =>
      rw [hput] at hkept hrefused
      cases r with
      | error e => simp only [hrefused e rfl]
      | ok receipt =>
        simp only [hkept receipt rfl, lastOf_cons, Option.or_assoc]
        split
        · rfl
        · rfl

/-- A put under a key of another kind does nothing to it. -/
theorem ReadsLast.read_put (h : c.ReadsLast like read) {key : String} (hunlike : ¬like key) (bytes : List UInt8)
    (mime : String) (w : κ) : read (c.put key bytes mime w).2 = read w := by
  cases hput : (c.put key bytes mime w).1 with
  | ok receipt => rw [h.ok key bytes mime w receipt hput, if_neg hunlike]
  | error e => rw [h.error key bytes mime w e hput]

end ContentStore

/-! ## Stores -/

/-- In memory a key reads what is put under it. -/
theorem ContentStore.InMemory.readsLast {κ : Type} {c : ContentStore κ} {scheme : Scheme} {content : κ → MemoryStore}
    (h : c.InMemory scheme content) (key : String) :
    c.ReadsLast (· == key) fun w => (content w).get? key where
  ok other bytes mime w receipt hok := by
    by_cases heq : other = key
    · rw [if_pos (beq_iff_eq.2 heq), h.content_put_ok hok, heq, KeyMap.get?_insert_self]
    · rw [if_neg (mt beq_iff_eq.1 heq), h.get?_put_of_ne (Ne.symm heq)]
  error other bytes mime w e he := by rw [h.content_put_error he]

namespace FileStore

variable {s : FileStore} {scheme : Scheme} {bytes : List UInt8} {mime : String} {t : FileTree}

theorem held_of_error {e : Failure} (h : pathOfKey key = .error e) : s.held key t = none := by
  rw [held, get, h]
  rfl

/-- Keys with one clean form hold the same. -/
theorem held_of_clean (h : cleanKey key = cleanKey other) : s.held key t = s.held other t := by
  cases hkey : pathOfKey key with
  | ok path => rw [held_eq hkey, held_eq (pathOfKey_of_clean h hkey)]
  | error e =>
    cases hother : pathOfKey other with
    | ok path =>
      rw [pathOfKey_of_clean h.symm hother] at hkey
      cases hkey
    | error e' => rw [held_of_error hkey, held_of_error hother]

/-- A write that fails changes nothing of what is held. -/
theorem held_put_error {e : Failure} (h : (s.put scheme other bytes mime t).1 = .error e) (key : String) :
    s.held key (s.put scheme other bytes mime t).2 = s.held key t := by
  rcases put_cases s scheme other bytes mime t with ⟨_, receipt, _, _, hok, _⟩ | ⟨_, hbytes⟩
  · rw [hok] at h
    cases h
  · cases hkey : pathOfKey key with
    | error e => rw [held_of_error hkey, held_of_error hkey]
    | ok path => rw [held_eq hkey, held_eq hkey, hbytes]

/-- What is held can be read. -/
theorem get_of_held (h : s.held key t = some bytes) : s.get key t = .ok (some bytes) := by
  unfold held at h
  cases hget : s.get key t with
  | error e =>
    rw [hget] at h
    cases h
  | ok found =>
    rw [hget] at h
    cases h
    rfl

/-- There is no file in the store's directory. -/
def Bare (s : FileStore) (t : FileTree) : Prop :=
  ∀ path, t.bytes? (s.root ++ path) = none

theorem Bare.held_eq_none (h : s.Bare t) (key : String) : s.held key t = none := by
  cases hkey : pathOfKey key with
  | error e => exact held_of_error hkey
  | ok path =>
    rw [held_eq hkey, h path]
    split
    · rfl
    · rfl

/-- A directory that was made where there was nothing has no files. -/
theorem bare_made (s : FileStore) : s.Bare (FileTree.empty.makeDirs s.root).1 := by
  intro path
  rw [FileTree.bytes?_makeDirs]
  exact FileTree.bytes?_empty _

end FileStore

/-- In a directory a key reads what is put under keys with its clean form. -/
theorem ContentStore.InDirectory.readsLast {c : ContentStore FileTree} {s : FileStore} {scheme : Scheme}
    (h : c.InDirectory s scheme) (key : String) :
    c.ReadsLast (cleanKey · == cleanKey key) (s.held key) where
  ok other bytes mime t receipt hok := by
    rw [h.put] at hok ⊢
    by_cases hclean : cleanKey other = cleanKey key
    · rw [if_pos (beq_iff_eq.2 hclean), FileStore.held_of_clean hclean.symm, FileStore.held_put_self hok]
    · rw [if_neg (mt beq_iff_eq.1 hclean)]
      refine FileStore.held_put_of_ne fun path hpath hpath' => hclean ?_
      exact (pathOfKey_eq_iff hpath' hpath).1 rfl
  error other bytes mime t e he := by
    rw [h.put] at he ⊢
    exact FileStore.held_put_error he key

/-! ## Both stores -/

variable {deposits : List Deposit}

/-- No deposit is made under another key with the clean form of a key. -/
def Alone (key : String) (deposits : List Deposit) : Prop :=
  ∀ d ∈ deposits, cleanKey d.key = cleanKey key → d.key = key

/-- Plain keys stand alone among plain keys. -/
theorem PlainKey.alone (h : PlainKey key) (hplain : ∀ d ∈ deposits, PlainKey d.key) : Alone key deposits := by
  intro d hd hclean
  rwa [(hplain d hd).cleanKey_eq, h.cleanKey_eq] at hclean

theorem Alone.lastOf_eq {kept : List Deposit} (h : Alone key deposits) (hsubset : ∀ d ∈ kept, d ∈ deposits) :
    lastOf (cleanKey · == cleanKey key) kept = lastOf (· == key) kept := by
  have hsame : ∀ d ∈ kept, (cleanKey d.key == cleanKey key) = (d.key == key) := by
    intro d hd
    rw [Bool.eq_iff_iff, beq_iff_eq, beq_iff_eq]
    constructor
    · exact h d (hsubset d hd)
    · rintro rfl
      rfl
  rw [lastOf, List.filter_congr hsame, lastOf]

section

variable {κ : Type} {c : ContentStore κ} {scheme : Scheme} {content : κ → MemoryStore} {w : κ}
  {f : ContentStore FileTree} {s : FileStore} {t : FileTree} {found : Option (List UInt8)}

/-- A memory that was empty reads the last deposit under the key. -/
theorem ContentStore.InMemory.get_after (h : c.InMemory scheme content) (hw : content w = [])
    (hget : (c.get key (c.after deposits w)).1 = .ok found) : found = lastOf (· == key) (c.kept deposits w) := by
  rw [h.eq_of_get_ok hget, (h.readsLast key).read_after, hw]
  exact Option.or_none

theorem MemoryStore.kept_operations (scheme : Scheme) (deposits : List Deposit) (w : MemoryStore) :
    (operations scheme).kept deposits w = deposits := by
  induction deposits generalizing w with
  | nil => rfl
  | cons d rest ih => exact congrArg (d :: ·) (ih _)

/-- A memory that refuses nothing can always be read. -/
theorem MemoryStore.get_after (scheme : Scheme) (deposits : List Deposit) (key : String) :
    ((operations scheme).get key ((operations scheme).after deposits [])).1 = .ok (lastOf (· == key) deposits) := by
  have hread : ((operations scheme).after deposits []).get? key = lastOf (· == key) ((operations scheme).kept deposits []) :=
    (MemoryStore.inMemory scheme fun _ _ => 0).get_after rfl rfl
  rw [kept_operations] at hread
  exact congrArg Except.ok hread

/-- A directory that was empty reads the last deposit under a key with its clean form. -/
theorem ContentStore.InDirectory.get_after (h : f.InDirectory s scheme) (ht : s.Bare t)
    (hget : (f.get key (f.after deposits t)).1 = .ok found) :
    found = lastOf (cleanKey · == cleanKey key) (f.kept deposits t) := by
  rw [h.get] at hget
  rw [FileStore.held_of_get hget, (h.readsLast key).read_after, ht.held_eq_none, Option.or_none]

/-- What is put into a directory under a key is read under all keys with its clean form. -/
theorem ContentStore.InDirectory.get_put (h : f.InDirectory s scheme) (hclean : cleanKey key = cleanKey other)
    {bytes : List UInt8} {mime : String} {receipt : StoredContent} (hput : (f.put other bytes mime t).1 = .ok receipt) :
    (f.get key (f.put other bytes mime t).2).1 = .ok (some bytes) := by
  rw [h.put] at hput ⊢
  rw [h.get]
  refine FileStore.get_of_held ?_
  rw [FileStore.held_of_clean hclean, FileStore.held_put_self hput]

/-- What is put into it under a key with another clean form is not. -/
theorem ContentStore.InDirectory.get_put_of_ne (h : f.InDirectory s scheme) (hclean : cleanKey other ≠ cleanKey key)
    {bytes : List UInt8} {mime : String} {found' : Option (List UInt8)} (hget : (f.get key t).1 = .ok found)
    (hget' : (f.get key (f.put other bytes mime t).2).1 = .ok found') : found' = found := by
  rw [h.get] at hget hget'
  rw [FileStore.held_of_get hget, FileStore.held_of_get hget']
  exact (h.readsLast key).read_put (mt beq_iff_eq.1 hclean) bytes mime t

end

/-- **What is read is what was put last.** Deposits are put one after another into a store in memory and into a store in a directory,
    which have nothing at first, and either of them may refuse any of them. In memory a key reads, if it can be read, the last deposit
    under this very key that went well; in a memory that refuses nothing it can be read, and all deposits go well. In a directory it
    reads the last one that went well under a key with its clean form: a deposit under any such key replaces what it reads, and one
    under any other does not. If none is made under another one of these, as there is none among plain keys, a directory too reads the
    last deposit under the key itself, and reads what memory reads if the same deposits under the key went well in both. -/
theorem stores_read_latest {κ : Type} {c : ContentStore κ} {scheme scheme' : Scheme} {content : κ → MemoryStore} {w : κ}
    {f : ContentStore FileTree} {s : FileStore} {t : FileTree} (hmemory : c.InMemory scheme content)
    (hfiles : f.InDirectory s scheme') (hw : content w = []) (ht : s.Bare t) (deposits : List Deposit) (key : String) :
    (∀ found, (c.get key (c.after deposits w)).1 = .ok found → found = lastOf (· == key) (c.kept deposits w)) ∧
    ((MemoryStore.operations scheme).get key ((MemoryStore.operations scheme).after deposits [])).1 =
      .ok (lastOf (· == key) deposits) ∧
    (∀ found, (f.get key (f.after deposits t)).1 = .ok found →
      found = lastOf (cleanKey · == cleanKey key) (f.kept deposits t)) ∧
    (∀ other bytes mime,
      (∀ receipt, cleanKey key = cleanKey other → (f.put other bytes mime (f.after deposits t)).1 = .ok receipt →
        (f.get key (f.put other bytes mime (f.after deposits t)).2).1 = .ok (some bytes)) ∧
      (∀ found found', cleanKey other ≠ cleanKey key → (f.get key (f.after deposits t)).1 = .ok found →
        (f.get key (f.put other bytes mime (f.after deposits t)).2).1 = .ok found' → found' = found)) ∧
    (PlainKey key → (∀ d ∈ deposits, PlainKey d.key) → Alone key deposits) ∧
    (Alone key deposits →
      (∀ found, (f.get key (f.after deposits t)).1 = .ok found → found = lastOf (· == key) (f.kept deposits t)) ∧
      ((c.kept deposits w).filter (·.key == key) = (f.kept deposits t).filter (·.key == key) →
        ∀ found found', (c.get key (c.after deposits w)).1 = .ok found →
          (f.get key (f.after deposits t)).1 = .ok found' → found = found')) := by
  have hmemoryReads : ∀ found, (c.get key (c.after deposits w)).1 = .ok found → found = lastOf (· == key) (c.kept deposits w) :=
    fun _ => hmemory.get_after hw
  have hfilesRead : ∀ found, (f.get key (f.after deposits t)).1 = .ok found →
      found = lastOf (cleanKey · == cleanKey key) (f.kept deposits t) :=
    fun _ => hfiles.get_after ht
  refine ⟨hmemoryReads, MemoryStore.get_after scheme deposits key, hfilesRead, fun other bytes mime => ⟨fun receipt hclean => hfiles.get_put hclean,
    fun found found' hclean => hfiles.get_put_of_ne hclean⟩, fun hplain => hplain.alone, fun halone => ?_⟩
  have hexact : ∀ found, (f.get key (f.after deposits t)).1 = .ok found → found = lastOf (· == key) (f.kept deposits t) := by
    intro found hget
    rw [hfilesRead found hget]
    exact halone.lastOf_eq fun _ => ContentStore.mem_of_mem_kept
  refine ⟨hexact, fun hsame found found' hget hget' => ?_⟩
  rw [hmemoryReads found hget, hexact found' hget', lastOf, lastOf, hsame]

/-! ## Trials -/

/-- The store of trials in memory. -/
def MemoryStore.trial : ContentStore MemoryStore :=
  MemoryStore.operations ⟨fun _ => [0], fun _ _ => [0]⟩

/-- A directory for trials. -/
def FileStore.trial : FileStore :=
  ⟨["data"], "data"⟩

/-- The store of trials in it. -/
def FileStore.trials : ContentStore FileTree :=
  FileStore.trial.operations ⟨fun _ => [0], fun _ _ => [0]⟩

/-- The tree in which it has just been made. -/
def FileTree.trial : FileTree :=
  (FileTree.empty.makeDirs FileStore.trial.root).1

/-- In memory the first of two keys still reads what was put under it, and in a directory it reads what was put under the second one.
    Of two plain keys the first one reads the same in both. -/
theorem stores_read_latest_replaced :
    let first : Deposit := ⟨"a:b", [1], "text/plain"⟩
    let plain : List Deposit := [⟨"a/b", [1], "text/plain"⟩, ⟨"a/c", [2], "text/plain"⟩]
    (∀ found, (MemoryStore.trial.get "a:b" (MemoryStore.trial.after [first, ⟨"a*b", [2], "text/plain"⟩] [])).1 = .ok found →
      found = some [1]) ∧
    (FileStore.trials.get "a:b" (FileStore.trials.put "a*b" [2] "text/plain" (FileStore.trials.after [first] .trial)).2).1 =
      .ok (some [2]) ∧
    ∀ found found', (MemoryStore.trial.get "a/b" (MemoryStore.trial.after plain [])).1 = .ok found →
      (FileStore.trials.get "a/b" (FileStore.trials.after plain .trial)).1 = .ok found' → found = found' ∧ found' = some [1] := by
  intro first plain
  have hmemory : MemoryStore.trial.InMemory ⟨fun _ => [0], fun _ _ => [0]⟩ id := MemoryStore.inMemory _ fun _ _ => 0
  have hfiles : FileStore.trials.InDirectory .trial ⟨fun _ => [0], fun _ _ => [0]⟩ :=
    FileStore.trial.inDirectory _ fun call _ => FileStore.latency call
  have hbare : FileStore.trial.Bare .trial := FileStore.trial.bare_made
  have hreads := fun deposits key => stores_read_latest (w := []) hmemory hfiles rfl hbare deposits key
  refine ⟨fun found hget => ?_, ?_, fun found found' hget hget' => ?_⟩
  · rw [(hreads _ "a:b").1 found hget]
    decide +kernel
  · have hclean : cleanKey "a:b" = cleanKey "a*b" := by decide +kernel
    have hput : (FileStore.trials.put "a*b" [2] "text/plain" (FileStore.trials.after [first] .trial)).1.isOk := by
      decide +kernel
    cases hreceipt : (FileStore.trials.put "a*b" [2] "text/plain" (FileStore.trials.after [first] .trial)).1 with
    | ok receipt => exact ((hreads [first] "a:b").2.2.2.1 "a*b" [2] "text/plain").1 receipt hclean hreceipt
    | error e =>
      rw [hreceipt] at hput
      cases hput
  · have hplain : ∀ d ∈ plain, PlainKey d.key := by
      intro d hd
      rcases List.mem_pair.1 hd with rfl | rfl
      · exact ⟨by simp [unsafeChars], by decide⟩
      · exact ⟨by simp [unsafeChars], by decide⟩
    obtain ⟨_, _, _, _, halone, hboth⟩ := hreads plain "a/b"
    obtain ⟨hexact, hsame⟩ := hboth (halone (hplain _ List.mem_cons_self) hplain)
    refine ⟨hsame (by decide +kernel) found found' hget hget', ?_⟩
    rw [hexact found' hget']
    decide +kernel

end Playbook
