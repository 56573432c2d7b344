import Mathlib.Data.List.Nodup
import Playbook.Event.Json
import Playbook.Proofs.Json.Members

/-!
# `Proofs.Event.Roundtrip` — events, usage and envelopes are read back

What is written for an event in an envelope is read as that event again, whichever kind it has and whichever of its optional parts
are there, also after its members were sorted. Of free-form data only that comes back which is in normal form and without doubles.

## Contents
- **Words.** `oneOf_nameJson`, for any list of names.
- **Events.** `Event.Plain`; `Event.ofJson?_toJson`, by `Event.ofRecord?_members`.
- **Usage and envelopes.** `Usage.ofJson?_toJson`, `Envelope.ofJson?_toJson`.
- **Numbers.** `Envelope.isIntegral_toJson`, `Envelope.fits_toJson`.
-/

namespace Playbook

open Json (present slots slotOf required optional oneOf tagged asString)

/-! ## Words -/

/-- If no word stands for two values, what is listed under a word is what is found under it. -/
theorem find?_word {α : Type} {names : List (String × α)} (hwords : (names.map (·.1)).Nodup) {named : String × α}
    (h : named ∈ names) : names.find? (·.1 == named.1) = some named := by
  cases hread : names.find? (·.1 == named.1) with
  | none => exact absurd (List.find?_eq_none.1 hread named h) (by simp)
  | some read =>
    have hsame : read.1 = named.1 := by simpa using List.find?_some hread
    rw [List.inj_on_of_nodup_map hwords (List.mem_of_find?_eq_some hread) h hsame]

/-- If no word stands for two values, a value that has a word is read back from the word that `nameJson` writes for it. -/
theorem oneOf_nameJson {α : Type} [BEq α] [LawfulBEq α] {names : List (String × α)}
    (hwords : (names.map (·.1)).Nodup) (inTagged : Bool) {a : α} (ha : a ∈ names.map (·.2)) :
    oneOf names inTagged (nameJson names a) = some a := by
  obtain ⟨entry, hentry, rfl⟩ := List.mem_map.1 ha
  cases hfound : names.find? (·.2 == entry.2) with
  | none => exact absurd (List.find?_eq_none.1 hfound entry hentry) (by simp)
  | some named =>
    have hvalue : named.2 = entry.2 := by simpa using List.find?_some hfound
    rw [nameJson, nameIn, hfound]
    show (names.find? (·.1 == named.1)).map (·.2) = some entry.2
    rw [find?_word hwords (List.mem_of_find?_eq_some hfound), ← hvalue]
    rfl

namespace Event

/-! ## Events -/

/-- Whether free-form data of an event is in normal form, with integers of 64 bits for all its numbers. -/
def Plain : Event → Prop
  | raw data => data.isOrdered = true ∧ data.isIntegral = true ∧ data.fits = true
  | _ => True

theorem isIntegral_members {e : Event} (h : e.Plain) : Json.isIntegralMembers e.members = true := by
  have hpresent : ∀ (name : String) (text : Option String),
      Json.isIntegralMembers (present name .str text) = true :=
    fun name text => Json.isIntegralMembers_present fun _ _ => rfl
  cases e with
  | step status name detail => exact hpresent _ _
  | todo action id text => exact hpresent _ _
  | artifact name path contentRef mime =>
    simp only [members, Json.isIntegralMembers_append, hpresent, and_self]
  | file action path destination => exact hpresent _ _
  | raw data => exact Json.isIntegralMembers_cons.2 ⟨h.2.1, rfl⟩
  | _ => rfl

theorem fits_members {e : Event} (h : e.Plain) : Json.fitsMembers e.members = true := by
  have hpresent : ∀ (name : String) (text : Option String),
      Json.fitsMembers (present name .str text) = true :=
    fun name text => Json.fitsMembers_present fun _ _ => rfl
  cases e with
  | step status name detail => exact hpresent _ _
  | todo action id text => exact hpresent _ _
  | artifact name path contentRef mime =>
    simp only [members, Json.fitsMembers_append, hpresent, and_self]
  | file action path destination => exact hpresent _ _
  | raw data => exact Json.fitsMembers_cons.2 ⟨h.2.2, rfl⟩
  | _ => rfl

/-- The members of an event have different names, and none is that of the tag. -/
theorem keys_members (e : Event) : ("type" :: e.members.map (·.1)).Nodup := by
  have hpresent : ∀ (names : List String) (name : String) (text : Option String),
      (names ++ [name]).Nodup → (names ++ (present name .str text).map (·.1)).Nodup :=
    fun names name text => ((List.Sublist.refl names).append (Json.keys_present name .str text)).nodup
  cases e with
  | step status name detail => exact hpresent ["type", "status", "name"] "detail" detail (by decide)
  | todo action id text => exact hpresent ["type", "action", "id"] "text" text (by decide)
  | artifact name path contentRef mime =>
    rw [members, List.map_append, List.map_append, List.map_append]
    have hkeys := (((Json.keys_present "name" .str name).append (Json.keys_present "path" .str path)).append
      (Json.keys_present "contentRef" .str contentRef)).append (Json.keys_present "mime" .str mime)
    exact (hkeys.cons_cons "type").nodup (by decide)
  | file action path destination => exact hpresent ["type", "op", "path"] "to" destination (by decide)
  | sessionStarted id => show ["type", "session_id"].Nodup; decide
  | sessionResumed id => show ["type", "session_id"].Nodup; decide
  | log level message => show ["type", "level", "message"].Nodup; decide
  | checkpoint action name => show ["type", "action", "name"].Nodup; decide
  | resultText text => show ["type", "text"].Nodup; decide
  | thinking text => show ["type", "text"].Nodup; decide
  | raw data => show ["type", "data"].Nodup; decide

/-- The record of an event is read as the event, from any value that gives its fields what was written. -/
theorem ofRecord?_members {e : Event} (h : e.Plain) {v : Json}
    (hv : ∀ fields, "type" ∉ fields → slots fields v =
      some (fields.map fun field => slotOf ((KeyMap.get? e.members field).map Json.normalize))) :
    ofRecord? e.kind v = some e := by
  -- What `hv` gives to the fields of a kind is what the kind's members say; the words among them are read back by their lists.
  cases e with
  | sessionStarted id =>
    rw [kind, ofRecord?, hv _ (by decide)]
    rfl
  | sessionResumed id =>
    rw [kind, ofRecord?, hv _ (by decide)]
    rfl
  | log level message =>
    rw [kind, ofRecord?, hv _ (by decide)]
    show (oneOf LogLevel.names true (nameJson LogLevel.names level)).bind _ = _
    rw [oneOf_nameJson (by decide) true (by cases level <;> decide)]
    rfl
  | step status name detail =>
    rw [kind, ofRecord?, hv _ (by decide)]
    simp only [members, List.map_cons, List.map_nil, KeyMap.get?_append, Json.get?_present, KeyMap.get?,
      String.reduceEq, if_true, if_false, Option.none_or, Option.some_or, Json.optional_asString]
    show (oneOf StepStatus.names true (nameJson StepStatus.names status)).bind _ = _
    rw [oneOf_nameJson (by decide) true (by cases status <;> decide)]
    rfl
  | todo action id text =>
    rw [kind, ofRecord?, hv _ (by decide)]
    simp only [members, List.map_cons, List.map_nil, KeyMap.get?_append, Json.get?_present, KeyMap.get?,
      String.reduceEq, if_true, if_false, Option.none_or, Option.some_or, Json.optional_asString]
    show (oneOf TodoAction.names true (nameJson TodoAction.names action)).bind _ = _
    rw [oneOf_nameJson (by decide) true (by cases action <;> decide)]
    rfl
  | artifact name path contentRef mime =>
    rw [kind, ofRecord?, hv _ (by decide)]
    simp only [members, List.map_cons, List.map_nil, KeyMap.get?_append, Json.get?_present,
      String.reduceEq, if_true, if_false, Option.none_or, Option.or_none, Json.optional_asString]
    rfl
  | file action path destination =>
    rw [kind, ofRecord?, hv _ (by decide)]
    simp only [members, List.map_cons, List.map_nil, KeyMap.get?_append, Json.get?_present, KeyMap.get?,
      String.reduceEq, if_true, if_false, Option.none_or, Option.some_or, Json.optional_asString]
    show (oneOf FileAction.names true (nameJson FileAction.names action)).bind _ = _
    rw [oneOf_nameJson (by decide) true (by cases action <;> decide)]
    rfl
  | checkpoint action name =>
    rw [kind, ofRecord?, hv _ (by decide)]
    show (oneOf CheckpointAction.names true (nameJson CheckpointAction.names action)).bind _ = _
    rw [oneOf_nameJson (by decide) true (by cases action <;> decide)]
    rfl
  | resultText text =>
    rw [kind, ofRecord?, hv _ (by decide)]
    rfl
  | thinking text =>
    rw [kind, ofRecord?, hv _ (by decide)]
    rfl
  | raw data =>
    rw [kind, ofRecord?, hv _ (by decide)]
    show (Json.anyValue data.normalize).map raw = _
    rw [Json.anyValue_normalize h.1 h.2.1]
    rfl

/-- An event is read back from its normal form. -/
theorem ofJson?_toJson {e : Event} (h : e.Plain) : ofJson? e.toJson.normalize = some e := by
  obtain ⟨v, htagged, hv⟩ := Json.tagged_normalize e.kind kinds false e.keys_members
    (isIntegral_members h)
  rw [ofJson?, toJson, htagged, Option.bind_some]
  exact ofRecord?_members h hv

theorem isIntegral_toJson {e : Event} (h : e.Plain) : e.toJson.isIntegral = true :=
  (Json.isIntegralMembers_cons (k := "type")).2 ⟨rfl, isIntegral_members h⟩

theorem fits_toJson {e : Event} (h : e.Plain) : e.toJson.fits = true :=
  (Json.fitsMembers_cons (k := "type")).2 ⟨rfl, fits_members h⟩

end Event

/-! ## Usage and envelopes -/

namespace Usage

theorem keys_nodup (u : Usage) :
    ((present "messageId" .str u.messageId ++
      [("inputTokens", tokensJson u.inputTokens), ("outputTokens", tokensJson u.outputTokens),
       ("cacheReadTokens", tokensJson u.cacheReadTokens)]).map (·.1)).Nodup := by
  rw [List.map_append]
  refine List.Nodup.sublist ((Json.keys_present _ _ _).append (List.Sublist.refl _)) ?_
  show ["messageId", "inputTokens", "outputTokens", "cacheReadTokens"].Nodup
  decide

/-- Usage is read back from its normal form. -/
theorem ofJson?_toJson (u : Usage) : ofJson? u.toJson.normalize = some u := by
  rw [ofJson?, toJson, Json.slots_normalize u.keys_nodup]
  simp only [List.map_cons, List.map_nil, KeyMap.get?_append, Json.get?_present, KeyMap.get?,
    String.reduceEq, if_true, if_false, Option.none_or, Option.or_none, Json.optional_asString]
  simp only [tokensJson, Json.required_uint64, Json.withDefault_uint64]
  rfl

theorem isIntegral_toJson (u : Usage) : u.toJson.isIntegral = true :=
  Json.isIntegralMembers_append.2 ⟨Json.isIntegralMembers_present fun _ _ => rfl, rfl⟩

theorem fits_toJson (u : Usage) : u.toJson.fits = true := by
  refine Json.fitsMembers_append.2 ⟨Json.fitsMembers_present fun _ _ => rfl, ?_⟩
  have htokens : ∀ n : UInt64, (tokensJson n).fits = true := fun n => Json.fits_nat n.toNat_lt_size
  simp only [Json.fitsMembers_cons, htokens, true_and]
  rfl

end Usage

namespace Envelope

theorem keys_nodup (e : Envelope) :
    (([("v", .nat e.version.toNat), ("runId", .str e.runId), ("programHash", .str e.programHash),
      ("principalId", .str e.principalId), ("agentName", .str e.agentName)] ++
      present "sessionId" .str e.sessionId ++
      [("seq", .nat e.seq.toNat), ("ts", .str e.timestamp), ("event", e.event.toJson)] ++
      present "usage" Usage.toJson e.usage : List (String × Json)).map (·.1)).Nodup := by
  rw [List.map_append, List.map_append, List.map_append]
  refine List.Nodup.sublist ((((List.Sublist.refl _).append (Json.keys_present _ _ _)).append
    (List.Sublist.refl _)).append (Json.keys_present _ _ _)) ?_
  show ["v", "runId", "programHash", "principalId", "agentName", "sessionId", "seq", "ts", "event",
    "usage"].Nodup
  decide

/-- An envelope is read back from its normal form. -/
theorem ofJson?_toJson {e : Envelope} (h : e.event.Plain) : ofJson? e.toJson.normalize = some e := by
  rw [ofJson?, toJson, Json.slots_normalize e.keys_nodup]
  have hevent : required Event.ofJson? (slotOf ((some e.event.toJson).map Json.normalize)) = some e.event :=
    Json.required_read (Event.ofJson?_toJson h)
  have husage : optional Usage.ofJson? (slotOf ((e.usage.map Usage.toJson).map Json.normalize)) = some e.usage :=
    Json.optional_present (fun u _ => u.ofJson?_toJson) fun _ _ hnull => nomatch hnull
  simp only [List.map_cons, List.map_nil, KeyMap.get?_append, Json.get?_present, KeyMap.get?,
    String.reduceEq, if_true, if_false, Option.none_or, Option.or_none, Json.optional_asString,
    Json.required_str, Json.required_uint32, Json.required_uint64, hevent, husage]
  rfl

theorem isIntegral_toJson {e : Envelope} (h : e.event.Plain) : e.toJson.isIntegral = true := by
  refine Json.isIntegralMembers_append.2 ⟨Json.isIntegralMembers_append.2
    ⟨Json.isIntegralMembers_append.2 ⟨rfl, ?_⟩, ?_⟩, ?_⟩
  · exact Json.isIntegralMembers_present fun _ _ => rfl
  · simp only [Json.isIntegralMembers_cons, Event.isIntegral_toJson h]
    exact ⟨rfl, rfl, trivial, rfl⟩
  · exact Json.isIntegralMembers_present fun u _ => u.isIntegral_toJson

theorem fits_toJson {e : Envelope} (h : e.event.Plain) : e.toJson.fits = true := by
  have hversion : (Json.nat e.version.toNat).fits = true :=
    Json.fits_nat (Nat.lt_trans e.version.toNat_lt_size (by decide))
  have hseq : (Json.nat e.seq.toNat).fits = true := Json.fits_nat e.seq.toNat_lt_size
  refine Json.fitsMembers_append.2 ⟨Json.fitsMembers_append.2 ⟨Json.fitsMembers_append.2 ⟨?_, ?_⟩, ?_⟩, ?_⟩
  · simp only [Json.fitsMembers_cons, hversion, true_and]
    exact ⟨rfl, rfl, rfl, rfl, rfl⟩
  · exact Json.fitsMembers_present fun _ _ => rfl
  · simp only [Json.fitsMembers_cons, hseq, Event.fits_toJson h, true_and]
    exact ⟨rfl, rfl⟩
  · exact Json.fitsMembers_present fun u _ => u.fits_toJson

end Envelope

end Playbook
