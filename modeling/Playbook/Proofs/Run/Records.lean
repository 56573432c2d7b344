import Playbook.Proofs.Program.Agents
import Playbook.Proofs.Run.Stored
import Playbook.Proofs.Store.FileStore
import Playbook.Proofs.Text.Trim
import Playbook.Proofs.Text.Utf8

/-!
# `Proofs.Run.Records` — what the records of agents say

A record names the session to take up again on its first line, and what is read from its bytes is this id, if it can stand on a line.
A store in which the records of a run do not get in each other's way gives back what was written to them last.

## Contents
- **Ids.** `Recordable`; `findSome?_lines`, by which a text is read line by line; `sessionIdOfBytes?_text`, and `sessionIdOf?_record` for a
  record with more text around it.
- **Stores.** `Host.KeepsRecords`; stores in memory keep records (`ContentStore.InMemory.keepsRecords`), and so do stores in a
  directory, for programs that were read (`ContentStore.InDirectory.keepsRecords`).
-/

namespace Playbook

open Digest (Scheme)
open Text (Solid)

/-! ## Ids -/

/-- An id that can be read from a record: it is not empty, stands on one line, and has no blanks around it. -/
structure Recordable (id : String) : Prop where
  nonempty : id ≠ ""
  line : '\n' ∉ id.toList
  trimmed : Text.trim id.toList = id.toList

theorem Recordable.solid {id : String} (h : Recordable id) : Solid id.toList := by
  refine .of_trim (fun hnil => h.nonempty ?_) h.trimmed
  rw [← String.toList_inj, hnil]
  rfl

/-- A record begins with the line that names its session. -/
theorem MemoryRecord.toList_text (r : MemoryRecord) :
    ∃ rest, r.text.toList = sessionMark ++ ' ' :: r.sessionId.toList ++ '\n' :: rest := by
  have hfeed : "\nprincipal: ".toList = '\n' :: "principal: ".toList := rfl
  have hblank : " ".toList = [' '] := rfl
  simp only [text, String.toList_append, String.toList_ofList, List.append_assoc, hfeed, hblank,
    List.cons_append, List.nil_append]
  exact ⟨_, rfl⟩

theorem sessionIdOnLine?_mark {id : List Char} (hid : Solid id) :
    sessionIdOnLine? (sessionMark ++ ' ' :: id) = some id := by
  have hmark : Solid sessionMark := ⟨⟨'s', _, rfl, by decide⟩, ⟨"session_id".toList, ':', rfl, by decide⟩⟩
  have hne : id ≠ [] := by
    obtain ⟨c, rest, rfl, _⟩ := hid.head
    exact List.cons_ne_nil c rest
  rw [sessionIdOnLine?, show sessionMark ++ ' ' :: id = sessionMark ++ ([' '] ++ id) from rfl,
    (hmark.append hid [' ']).trim, Text.stripPrefix_append]
  simp only [List.singleton_append]
  rw [hid.trim_cons (by decide), if_neg hne]

/-- What a line names does not depend on how it ends. -/
theorem sessionIdOnLine?_carriage (line : List Char) :
    sessionIdOnLine? (line ++ ['\r']) = sessionIdOnLine? line := by
  rw [sessionIdOnLine?, sessionIdOnLine?, Text.trim_append_blanks (List.forall_mem_singleton.2 rfl)]

/-- The first line that names a session decides. -/
theorem findSome?_lines {line : List Char} (hfeed : '\n' ∉ line) (rest : List Char) :
    (Text.lines (line ++ '\n' :: rest)).findSome? sessionIdOnLine? =
      (sessionIdOnLine? line).or ((Text.lines rest).findSome? sessionIdOnLine?) := by
  obtain ⟨shown, hshown, hlines⟩ := Text.lines_append_feed hfeed rest
  have hsame : sessionIdOnLine? line = sessionIdOnLine? shown := by
    rcases hshown with rfl | rfl
    · rfl
    · exact sessionIdOnLine?_carriage shown
  rw [hlines, List.findSome?_cons, hsame]
  cases sessionIdOnLine? shown <;> rfl

/-- Lines that do not begin with the mark name no session. -/
theorem findSome?_unmarked {before : List String}
    (h : ∀ line ∈ before, '\n' ∉ line.toList ∧ ¬sessionMark <+: Text.trim line.toList) (rest : List Char) :
    (Text.lines ((String.join (before.map (· ++ "\n"))).toList ++ rest)).findSome? sessionIdOnLine? =
      (Text.lines rest).findSome? sessionIdOnLine? := by
  induction before with
  | nil => rfl
  | cons line before ih =>
    rw [List.forall_mem_cons] at h
    have hnone : sessionIdOnLine? line.toList = none := by
      rw [sessionIdOnLine?]
      cases hstrip : Text.stripPrefix sessionMark (Text.trim line.toList) with
      | none => rfl
      | some found => exact absurd ⟨found, (Text.stripPrefix_eq_some_iff.1 hstrip).symm⟩ h.1.2
    have hsplit : (String.join ((line :: before).map (· ++ "\n"))).toList ++ rest =
        line.toList ++ '\n' :: ((String.join (before.map (· ++ "\n"))).toList ++ rest) := by
      simp
    rw [hsplit, findSome?_lines h.1.1, hnone, Option.none_or, ih h.2]

/-- Whatever follows it, the line that names the session is the first of a record that does. -/
theorem findSome?_text (r : MemoryRecord) (hid : Recordable r.sessionId) (after : List Char) :
    (Text.lines (r.text.toList ++ after)).findSome? sessionIdOnLine? = some r.sessionId.toList := by
  obtain ⟨rest, hrest⟩ := r.toList_text
  have hfeed : '\n' ∉ sessionMark ++ ' ' :: r.sessionId.toList := by
    rw [List.mem_append, List.mem_cons]
    rintro (h | h | h)
    · exact absurd h (by decide)
    · cases h
    · exact hid.line h
  rw [hrest, List.append_assoc, List.cons_append, findSome?_lines hfeed, sessionIdOnLine?_mark hid.solid, Option.some_or]

/-- The session that a record names is read from its bytes. -/
theorem sessionIdOfBytes?_text (r : MemoryRecord) (hid : Recordable r.sessionId) :
    sessionIdOfBytes? (Text.Utf8.encode r.text.toList) = some r.sessionId := by
  have hfound := findSome?_text r hid []
  rw [List.append_nil] at hfound
  rw [sessionIdOfBytes?, Text.Utf8.decodeLossy_encode, sessionIdOf?, String.toList_ofList, hfound]
  exact congrArg some String.ofList_toList

/-- A record gives back its session id, whatever its other facts say, whatever is written behind it, and whatever lines stand before
    it, as long as none of them begins with the mark. -/
theorem sessionIdOf?_record (r : MemoryRecord) (hid : Recordable r.sessionId) (before : List String)
    (hbefore : ∀ line ∈ before, '\n' ∉ line.toList ∧ ¬sessionMark <+: Text.trim line.toList) (after : String) :
    sessionIdOf? (String.join (before.map (· ++ "\n")) ++ r.text ++ after) = some r.sessionId := by
  rw [sessionIdOf?, String.toList_append, String.toList_append, List.append_assoc, findSome?_unmarked hbefore,
    findSome?_text r hid after.toList]
  exact congrArg some String.ofList_toList

/-- Lines with another session's mark, in any of its facts or behind it, are not read. -/
theorem sessionIdOf?_record_forged :
    let r : MemoryRecord := ⟨"s-1", "ann\nsession_id: evil", "\u2028session_id: evil\n session_id: evil", "x\nsession_id: evil", ⟨0, 0⟩⟩
    Recordable r.sessionId ∧ (∀ line ∈ ["notes first", " the session_id: evil\r", ""],
        '\n' ∉ line.toList ∧ ¬sessionMark <+: Text.trim line.toList) ∧
      sessionIdOf? (String.join (["notes first", " the session_id: evil\r", ""].map (· ++ "\n")) ++ r.text ++ "session_id: evil\n") =
        some "s-1" := by
  intro r
  have hid : Recordable r.sessionId := ⟨by decide, by decide, by decide⟩
  have hbefore : ∀ line ∈ ["notes first", " the session_id: evil\r", ""],
      '\n' ∉ line.toList ∧ ¬sessionMark <+: Text.trim line.toList := by decide
  exact ⟨hid, hbefore, sessionIdOf?_record r hid _ hbefore "session_id: evil\n"⟩

/-! ## Stores -/

variable {τ η κ δ : Type}

/-- The records of a run are kept, where `record` says what the record of an agent is in a state of the store. -/
structure Host.KeepsRecords (h : Host τ η κ δ) (p : Program) (record : String → κ → Option (List UInt8)) :
    Prop where
  /-- A record is read as it is, if it is read at all. -/
  read : ∀ name w found, (h.store.get (h.recordKey name) w).1 = .ok found → found = record name w
  /-- A record is what was written to it last. -/
  own : ∀ name bytes mime w receipt, (h.store.put (h.recordKey name) bytes mime w).1 = .ok receipt →
    record name (h.store.put (h.recordKey name) bytes mime w).2 = some bytes
  /-- To write the record of another agent of the program leaves an agent's record as it is. -/
  other : ∀ name other bytes mime w, (p.agent? name).isSome → (p.agent? other).isSome → other ≠ name →
    record name (h.store.put (h.recordKey other) bytes mime w).2 = record name w
  /-- To write a binding leaves an agent's record as it is. -/
  binding : ∀ name bound n bytes mime w,
    record name (h.store.put (bindingKey h.context.runId bound n) bytes mime w).2 = record name w
  /-- To read leaves an agent's record as it is. -/
  get : ∀ name key w, record name (h.store.get key w).2 = record name w

/-- A store in memory keeps records. -/
theorem ContentStore.InMemory.keepsRecords {h : Host τ η κ δ} {scheme : Scheme}
    {content : κ → MemoryStore} (hstore : h.store.InMemory scheme content) (p : Program) :
    h.KeepsRecords p fun name w => (content w).get? (h.recordKey name) where
  read name w found hfound := hstore.eq_of_get_ok hfound
  own name bytes mime w receipt hok := by rw [hstore.content_put_ok hok, KeyMap.get?_insert_self]
  other name other bytes mime w _ _ hne := by
    refine hstore.get?_put_of_ne (fun heq => hne ?_) bytes mime w
    exact (memoryKey_inj heq).symm
  binding name bound n bytes mime w :=
    hstore.get?_put_of_ne (bindingKey_ne_memoryKey _ _ _ _ _ _).symm bytes mime w
  get name key w := by rw [(hstore.get key w).1]

/-- A store in a directory keeps records, if the names of the agents are names: other texts could be replaced by the same one. -/
theorem ContentStore.InDirectory.keepsRecords {h : Host τ η FileTree δ} {s : FileStore} {scheme : Scheme}
    (hstore : h.store.InDirectory s scheme) {p : Program} (hnamed : Program.Parser.Named p.agents) :
    h.KeepsRecords p fun name t => s.held (h.recordKey name) t where
  read name t found hfound := by
    rw [hstore.get] at hfound
    dsimp only at hfound
    exact FileStore.held_of_get hfound
  own name bytes mime t receipt hok := by
    rw [hstore.put] at hok ⊢
    exact FileStore.held_put_self hok
  other name other bytes mime t hname hother hne := by
    have hisName : ∀ name, (p.agent? name).isSome → Program.Phrase.isName name.toList := by
      intro name hsome
      obtain ⟨a, ha⟩ := Option.isSome_iff_exists.1 hsome
      exact (hnamed name a ha).2
    rw [hstore.put]
    refine FileStore.held_put_of_ne fun path hpath hpath' => hne ?_
    have hlast := (pathOfKey_memoryKey hpath).2 (hisName name hname)
    rw [(pathOfKey_memoryKey hpath').2 (hisName other hother), Option.some.injEq, ← String.toList_inj,
      String.toList_append, String.toList_append] at hlast
    exact String.toList_inj.1 (List.append_cancel_right hlast)
  binding name bound n bytes mime t := by
    rw [hstore.put]
    refine FileStore.held_put_of_ne fun path hpath hpath' => ?_
    have hhead := (pathOfKey_memoryKey hpath).1
    rw [pathOfKey_bindingKey hpath'] at hhead
    exact absurd (Option.some.inj hhead) (by decide)
  get name key t := by rw [hstore.get]

end Playbook
