import Playbook.Backend.Rehearsal
import Playbook.Proofs.Run.Records
import Playbook.Proofs.Run.Straight

/-!
# `Proofs.Run.Owners` — whose record is found

A record is kept for an agent that works for somebody in a run; the three are its *owner*. Its key has them one after another with
slashes between them, so what an owner finds is what was left last at its *place*, which is the text of the three. Owners of different
places never find each other's records. But run ids and principals may have slashes of their own, and then two owners can have one
place: such owners take up each other's sessions.

## Contents
- **Owners.** `RecordOwner`, its `place`; `key_eq_iff`.
- **Places.** `Aligned` owners are told apart by their places (`place_inj`); others need not be (`place_shift`).
- **Records.** `MemoryStore.leave`, `MemoryStore.sessionOf`; `Host.straight_record` and `Host.straight_recordedSession` for a run.
- **Histories.** `StoreWrite`; `sessionOf_apply` for one write, `sessionOf_after` for all that runs have written.
- **Isolation.** `RecordOwner.Isolated`, `isolated_iff_place_ne`, and `records_found`.
-/

namespace Playbook

open Digest (Scheme)

/-! ## Owners -/

/-- For whom a record is kept. -/
structure RecordOwner where
  runId : String
  principalId : String
  agent : String
  deriving DecidableEq, Repr

/-- The owner of a record that is left in a run. -/
def MemoryRecord.owner (runId : String) (r : MemoryRecord) : RecordOwner :=
  ⟨runId, r.principalId, r.agent⟩

/-- The owner of an agent's record. -/
def Host.owner {τ η κ δ : Type} (h : Host τ η κ δ) (agent : String) : RecordOwner :=
  ⟨h.context.runId, h.context.principalId, agent⟩

namespace RecordOwner

variable {o o' : RecordOwner}

/-- The key of the record. -/
def key (o : RecordOwner) : String :=
  memoryKey o.runId o.principalId o.agent

/-- What of the key is the owner's. -/
def place (o : RecordOwner) : String :=
  o.runId ++ "/" ++ o.principalId ++ "/" ++ o.agent

theorem key_eq (o : RecordOwner) : o.key = "memory/" ++ o.place ++ ".md" := by
  simp only [key, place, memoryKey, String.append_assoc]

/-- Keys are the same where places are. -/
theorem key_eq_iff : o.key = o'.key ↔ o.place = o'.place := by
  rw [key_eq, key_eq]
  constructor
  · intro h
    have htext := congrArg String.toList h
    simp only [String.toList_append, List.append_cancel_left_eq, List.append_cancel_right_eq] at htext
    exact String.toList_inj.1 htext
  · intro h
    rw [h]

/-! ## Places -/

theorem toList_place (o : RecordOwner) :
    o.place.toList = o.runId.toList ++ '/' :: (o.principalId.toList ++ '/' :: o.agent.toList) := by
  have hslash : "/".toList = ['/'] := rfl
  simp only [place, String.toList_append, hslash, List.append_assoc, List.cons_append, List.nil_append]

/-- How many slashes a text has. -/
def slashes (text : String) : Nat :=
  text.toList.count '/'

/-- A text is known by what follows a slash in it, if it is known how many slashes come before. -/
theorem eq_of_count_slash {s t s' t' : List Char} (hcount : s.count '/' = s'.count '/')
    (h : s ++ '/' :: t = s' ++ '/' :: t') : s = s' ∧ t = t' := by
  induction s generalizing s' with
  | nil =>
    cases s' with
    | nil => exact ⟨rfl, (List.cons.inj h).2⟩
    | cons c rest =>
      obtain ⟨rfl, _⟩ := List.cons.inj h
      simp at hcount
  | cons c rest ih =>
    cases s' with
    | nil =>
      obtain ⟨rfl, _⟩ := List.cons.inj h
      simp at hcount
    | cons c' rest' =>
      obtain ⟨rfl, hrest⟩ := List.cons.inj h
      rw [List.count_cons, List.count_cons, Nat.add_right_cancel_iff] at hcount
      obtain ⟨rfl, rfl⟩ := ih hcount hrest
      exact ⟨rfl, rfl⟩

/-- Of the three, two have as many slashes with one owner as with the other. -/
def Aligned (o o' : RecordOwner) : Prop :=
  slashes o.runId = slashes o'.runId ∧ slashes o.principalId = slashes o'.principalId ∨
    slashes o.runId = slashes o'.runId ∧ slashes o.agent = slashes o'.agent ∨
    slashes o.principalId = slashes o'.principalId ∧ slashes o.agent = slashes o'.agent

instance (o o' : RecordOwner) : Decidable (o.Aligned o') :=
  inferInstanceAs (Decidable (_ ∨ _ ∨ _))

theorem slashes_place (o : RecordOwner) :
    slashes o.place = slashes o.runId + slashes o.principalId + slashes o.agent + 2 := by
  simp only [slashes, toList_place, List.count_append, List.count_cons_self]
  omega

/-- Owners with one place are the same if they are aligned. -/
theorem place_inj (haligned : o.Aligned o') (h : o.place = o'.place) : o = o' := by
  have hslashes := congrArg slashes h
  rw [slashes_place, slashes_place] at hslashes
  -- With two of the numbers the third is the same.
  have hall : slashes o.runId = slashes o'.runId ∧ slashes o.principalId = slashes o'.principalId := by
    rcases haligned with h | h | h <;> omega
  have htext := congrArg String.toList h
  rw [toList_place, toList_place] at htext
  obtain ⟨hrunId, hrest⟩ := eq_of_count_slash hall.1 htext
  obtain ⟨hprincipalId, hagent⟩ := eq_of_count_slash hall.2 hrest
  obtain ⟨runId, principalId, agent⟩ := o
  rw [RecordOwner.mk.injEq]
  exact ⟨String.toList_inj.1 hrunId, String.toList_inj.1 hprincipalId, String.toList_inj.1 hagent⟩

/-- A part of a run id can as well stand before the principal. -/
theorem place_shift (runId part principalId agent : String) :
    (⟨runId ++ "/" ++ part, principalId, agent⟩ : RecordOwner).place = place ⟨runId, part ++ "/" ++ principalId, agent⟩ := by
  simp only [place, String.append_assoc]

theorem shift_ne (runId part principalId agent : String) :
    (⟨runId ++ "/" ++ part, principalId, agent⟩ : RecordOwner) ≠ ⟨runId, part ++ "/" ++ principalId, agent⟩ := by
  intro h
  have hlength := congrArg (·.runId.length) h
  simp only [String.length_append] at hlength
  have hslash : "/".length = 1 := rfl
  omega

end RecordOwner

/-! ## Records -/

namespace MemoryStore

/-- What a store holds after a record was left in a run. -/
def leave (content : MemoryStore) (runId : String) (r : MemoryRecord) : MemoryStore :=
  content.insert (r.owner runId).key (Text.Utf8.encode r.text.toList)

/-- The session that an owner finds. -/
def sessionOf (content : MemoryStore) (o : RecordOwner) : Option String :=
  (content.get? o.key).bind sessionIdOfBytes?

theorem sessionOf_leave (content : MemoryStore) (runId : String) (r : MemoryRecord) (o : RecordOwner) :
    (content.leave runId r).sessionOf o =
      if (r.owner runId).place = o.place then sessionIdOf? r.text else content.sessionOf o := by
  rw [sessionOf, leave]
  by_cases hplace : (r.owner runId).place = o.place
  · rw [if_pos hplace, RecordOwner.key_eq_iff.2 hplace, KeyMap.get?_insert_self, Option.bind_some, sessionIdOfBytes?,
      Text.Utf8.decodeLossy_encode, String.ofList_toList]
  · have hkey : o.key ≠ (r.owner runId).key := fun h => hplace (RecordOwner.key_eq_iff.1 h).symm
    rw [if_neg hplace, KeyMap.get?_insert_of_ne hkey, sessionOf]

end MemoryStore

namespace Host

variable {τ η δ : Type} {h : Host τ η MemoryStore δ} {scheme : Scheme}

/-- The record of an agent that a run leaves at some time. -/
def recordAt (h : Host τ η MemoryStore δ) (agent id title : String) (s : RunState τ MemoryStore δ) : MemoryRecord :=
  ⟨id, h.context.principalId, agent, title, h.courier.time s.outbox.clock⟩

/-- A run leaves a record for its owner, and does nothing else. -/
theorem straight_record (hstore : h.store = MemoryStore.operations scheme) (agent id title : String)
    (s : RunState τ MemoryStore δ) :
    (h.record agent id title).Straight s (.ok ())
      { s with store := s.store.leave h.context.runId (h.recordAt agent id title s) } := by
  obtain ⟨courier, backend, store⟩ := h
  subst hstore
  exact .bind (.observe _ s) (.bind (.bind (.pause rfl) (.bind (.act rfl) (.ofExcept _ _))) (.pure _ _))

/-- `recordedSession` comes straight to the session that the owner of the record finds in the store. -/
theorem straight_recordedSession (hstore : h.store = MemoryStore.operations scheme) (agent : String)
    (s : RunState τ MemoryStore δ) :
    (h.recordedSession agent).Straight s (.ok (s.store.sessionOf (h.owner agent))) s := by
  obtain ⟨courier, backend, store⟩ := h
  subst hstore
  exact .bind (.bind (.pause rfl) (.bind (.act rfl) (.ofExcept _ s))) (.pure _ s)

end Host

/-! ## Histories -/

/-- What runs write to a store: records, and the texts of bindings. -/
inductive StoreWrite where
  | record (runId : String) (r : MemoryRecord)
  | binding (runId name : String) (n : Nat) (text : String)

namespace StoreWrite

/-- What a store holds after a write. -/
def apply (content : MemoryStore) : StoreWrite → MemoryStore
  | record runId r => content.leave runId r
  | binding runId name n text => content.insert (Host.bindingKey runId name n) (Text.Utf8.encode text.toList)

/-- The record that is written, if it is one for a place. -/
def recordFor? (place : String) : StoreWrite → Option MemoryRecord
  | record runId r => if (r.owner runId).place = place then some r else none
  | binding _ _ _ _ => none

/-- An owner finds what is written for its place, and else what it found before. -/
theorem sessionOf_apply (content : MemoryStore) (w : StoreWrite) (o : RecordOwner) :
    (w.apply content).sessionOf o =
      (w.recordFor? o.place).elim (content.sessionOf o) fun r => sessionIdOf? r.text := by
  cases w with
  | record runId r =>
    rw [apply, MemoryStore.sessionOf_leave, recordFor?]
    by_cases hplace : (r.owner runId).place = o.place
    · rw [if_pos hplace, if_pos hplace, Option.elim_some]
    · rw [if_neg hplace, if_neg hplace, Option.elim_none]
  | binding runId name n text =>
    have hkey : o.key ≠ Host.bindingKey runId name n := (bindingKey_ne_memoryKey _ _ _ _ _ _).symm
    rw [apply, MemoryStore.sessionOf, KeyMap.get?_insert_of_ne hkey, recordFor?, Option.elim_none, MemoryStore.sessionOf]

end StoreWrite

/-- What a store holds after some writes. -/
def MemoryStore.after (content : MemoryStore) (writes : List StoreWrite) : MemoryStore :=
  writes.foldl StoreWrite.apply content

/-- However much is written, an owner finds the session of the last record for its place. -/
theorem MemoryStore.sessionOf_after (content : MemoryStore) (writes : List StoreWrite) (o : RecordOwner) :
    (content.after writes).sessionOf o =
      (writes.filterMap (·.recordFor? o.place)).getLast?.elim (content.sessionOf o) fun r => sessionIdOf? r.text := by
  induction writes generalizing content with
  | nil => rfl
  | cons w rest ih =>
    rw [after, List.foldl_cons]
    refine (ih (w.apply content)).trans ?_
    rw [StoreWrite.sessionOf_apply]
    cases hrecord : w.recordFor? o.place with
    | none => rw [List.filterMap_cons_none hrecord, Option.elim_none]
    | some r =>
      rw [List.filterMap_cons_some hrecord, List.getLast?_cons, Option.elim_some, Option.elim_some]
      cases (rest.filterMap (·.recordFor? o.place)).getLast? with
      | none => rw [Option.elim_none, Option.getD_none]
      | some r' => rw [Option.elim_some, Option.getD_some]

/-! ## Isolation -/

namespace RecordOwner

variable {o o' : RecordOwner}

/-- No record that is left for one owner changes what another one finds. -/
def Isolated (o o' : RecordOwner) : Prop :=
  ∀ (content : MemoryStore) (runId : String) (r : MemoryRecord), r.owner runId = o →
    (content.leave runId r).sessionOf o' = content.sessionOf o'

/-- An owner finds what is left for another owner with the same place. -/
theorem sessionOf_leave_of_place (content : MemoryStore) (h : o.place = o'.place) {id : String} (hid : Recordable id)
    (title : String) (now : Timestamp) :
    (content.leave o.runId ⟨id, o.principalId, o.agent, title, now⟩).sessionOf o' = some id := by
  have howner : (MemoryRecord.owner o.runId ⟨id, o.principalId, o.agent, title, now⟩).place = o'.place := h
  rw [MemoryStore.sessionOf, MemoryStore.leave, key_eq_iff.2 howner, KeyMap.get?_insert_self]
  exact sessionIdOfBytes?_text _ hid

/-- Owners are isolated if and only if they have different places. -/
theorem isolated_iff_place_ne : o.Isolated o' ↔ o.place ≠ o'.place := by
  constructor
  · intro hisolated hplace
    have hid : Recordable "s" := ⟨by decide, by decide, by decide⟩
    have hfound := sessionOf_leave_of_place [] hplace hid "" ⟨0, 0⟩
    rw [hisolated [] o.runId _ rfl] at hfound
    cases hfound
  · rintro hplace content runId r rfl
    rw [MemoryStore.sessionOf_leave, if_neg hplace]

/-- Owners that are aligned are isolated from one another if they are not the same. -/
theorem isolated_iff_ne (h : o.Aligned o') : o.Isolated o' ↔ o ≠ o' := by
  rw [isolated_iff_place_ne]
  constructor
  · rintro hplace rfl
    exact hplace rfl
  · exact fun hne hplace => hne (place_inj h hplace)

end RecordOwner

/-- **Whose record is found.** Over a store in memory a call takes up what its owner finds, and this is the session of the last record
    for the owner's place, whatever runs have written to the store. So an owner is isolated from another one if and only if their
    places differ. If the two are aligned, they do whenever the owners do; but they do not if a part of the one's run id stands in the
    other's principal. -/
theorem records_found {τ η δ : Type} {h : Host τ η MemoryStore δ} {scheme : Scheme}
    (hstore : h.store = MemoryStore.operations scheme) :
    (∀ agent s, (h.recordedSession agent).Straight s (.ok (s.store.sessionOf (h.owner agent))) s ∧
      ∀ id title, (h.record agent id title).Straight s (.ok ())
        { s with store := s.store.leave h.context.runId (h.recordAt agent id title s) }) ∧
    (∀ (content : MemoryStore) writes o, (content.after writes).sessionOf o =
      (writes.filterMap (·.recordFor? o.place)).getLast?.elim (content.sessionOf o) fun r => sessionIdOf? r.text) ∧
    (∀ o o' : RecordOwner, o.Isolated o' ↔ o.place ≠ o'.place) ∧
    (∀ o o' : RecordOwner, o.Aligned o' → (o.Isolated o' ↔ o ≠ o')) ∧
    ∀ runId part principalId agent : String,
      (⟨runId ++ "/" ++ part, principalId, agent⟩ : RecordOwner) ≠ ⟨runId, part ++ "/" ++ principalId, agent⟩ ∧
      ¬RecordOwner.Isolated ⟨runId ++ "/" ++ part, principalId, agent⟩ ⟨runId, part ++ "/" ++ principalId, agent⟩ := by
  refine ⟨fun agent s => ⟨?_, fun id title => ?_⟩, MemoryStore.sessionOf_after,
    fun _ _ => RecordOwner.isolated_iff_place_ne, fun _ _ => RecordOwner.isolated_iff_ne,
    fun runId part principalId agent => ⟨RecordOwner.shift_ne runId part principalId agent, fun hisolated => ?_⟩⟩
  · exact Host.straight_recordedSession hstore agent s
  · exact Host.straight_record hstore agent id title s
  · exact RecordOwner.isolated_iff_place_ne.1 hisolated (RecordOwner.place_shift runId part principalId agent)

/-! ## Trials -/

/-- A host of trials that has its store in memory, in a run for a principal. -/
def Host.remembering (runId principalId : String) : Host Rehearsal RehearsalSession MemoryStore Unit where
  courier := ⟨⟨fun _ => [0], fun _ _ => [0]⟩, ⟨runId, "hash", principalId⟩, .standard, none, .log, .ofMillis⟩
  backend := .rehearsal
  store := MemoryStore.operations ⟨fun _ => [0], fun _ _ => [0]⟩

/-- What is recorded in one run for one principal is taken up in another run for another one, since the part of the run id behind its
    slash could as well be the principal's. An agent at work for the first principal in the second run does not find it. -/
theorem records_found_elsewhere :
    (Host.remembering "run/1" "ann").owner "a" ≠ (Host.remembering "run" "1/ann").owner "a" ∧
    (∃ s, ((Host.remembering "run/1" "ann").record "a" "s-1" "One").Straight (.fresh (.ofParts []) [] ()) (.ok ()) s ∧
      ((Host.remembering "run" "1/ann").recordedSession "a").Straight (.fresh (.ofParts []) s.store ()) (.ok (some "s-1"))
        (.fresh (.ofParts []) s.store ()) ∧
      ((Host.remembering "run" "ann").recordedSession "a").Straight (.fresh (.ofParts []) s.store ()) (.ok none)
        (.fresh (.ofParts []) s.store ())) ∧
    ((Host.remembering "run" "ann").owner "a").Isolated ((Host.remembering "run" "bob").owner "a") := by
  have hrecorded := fun runId principalId => (records_found (h := Host.remembering runId principalId) rfl).1 "a"
  obtain ⟨_, _, hplaces, haligned, hshared⟩ := records_found (h := Host.remembering "run/1" "ann") rfl
  have hid : Recordable "s-1" := ⟨by decide, by decide, by decide⟩
  let r : MemoryRecord := ⟨"s-1", "ann", "a", "One", .ofMillis 0⟩
  have hfound : (MemoryStore.leave [] "run/1" r).sessionOf ⟨"run", "1/ann", "a"⟩ = some "s-1" :=
    RecordOwner.sessionOf_leave_of_place [] (RecordOwner.place_shift "run" "1" "ann" "a") hid "One" (.ofMillis 0)
  have hmissed : (MemoryStore.leave [] "run/1" r).sessionOf ⟨"run", "ann", "a"⟩ = none :=
    (hplaces ⟨"run/1", "ann", "a"⟩ ⟨"run", "ann", "a"⟩).2 (by decide) [] "run/1" r rfl
  refine ⟨(hshared "run" "1" "ann" "a").1, ⟨.fresh (.ofParts []) (.leave [] "run/1" r) (), ?_, ?_, ?_⟩, ?_⟩
  · exact (hrecorded "run/1" "ann" (.fresh (.ofParts []) [] ())).2 "s-1" "One"
  · rw [← hfound]
    exact (hrecorded "run" "1/ann" (.fresh (.ofParts []) (.leave [] "run/1" r) ())).1
  · rw [← hmissed]
    exact (hrecorded "run" "ann" (.fresh (.ofParts []) (.leave [] "run/1" r) ())).1
  · exact (haligned ⟨"run", "ann", "a"⟩ ⟨"run", "bob", "a"⟩ (by decide)).2 (by decide)

end Playbook
