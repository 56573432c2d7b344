import Mathlib.Data.List.Basic
import Mathlib.Data.List.Flatten
import Playbook.Proofs.Event.Markers
import Playbook.Proofs.Json.Range
import Playbook.Proofs.Outbox.Conservation
import Playbook.Proofs.Outbox.Signing

/-!
# `Proofs.Outbox.Legible` — which of the batches that were taken can be read back

A batch puts each event four levels deeper than it was written into a reply: into its envelope, the list of envelopes and the batch,
and free-form data into its event. The reader of replies and the reader of batches have the same limit for levels. So an event with
free-form data that is nested as deeply as the former allows makes a batch that the latter refuses, and with the batch all of its
envelopes are missing from those that a sink tells, however many others it holds.

## Contents
- **Events.** `Event.nesting`, `Event.legible`; `plain_of_mem_inline`: what is written into a reply can be written into a batch.
- **Batches.** `EventBatch.parse?_body_eq`: a batch is read back if and only if all of its events are legible.
- **Nested data.** `Json.nested`; `inline_nested`: it is found in a reply.
- **Deliveries.** `envelopes_of_replies`.
-/

namespace Playbook

open Json (slots slotOf required tagged depthLimit)
open Digest (Scheme)

/-! ## Events -/

namespace Event

/-- How deeply the free-form data of an event is nested. -/
def nesting : Event → Nat
  | raw data => data.depth
  | _ => 0

/-- Whether an event can be read back from a batch, which nests it four levels deeper. -/
def legible (e : Event) : Bool :=
  e.nesting + 4 ≤ depthLimit

theorem depth_toJson_le (e : Event) : e.toJson.depth ≤ e.nesting + 1 := by
  have hpresent : ∀ (name : String) (text : Option String), Json.depthMembers (Json.present name .str text) ≤ 0 :=
    fun name text => Json.depthMembers_present fun _ _ => Nat.le_refl 0
  have hmembers : Json.depthMembers e.members ≤ e.nesting := by
    cases e with
    | step status name detail => exact Json.depthMembers_append.2 ⟨Nat.le_refl 0, hpresent _ _⟩
    | todo action id text => exact Json.depthMembers_append.2 ⟨Nat.le_refl 0, hpresent _ _⟩
    | artifact name path contentRef mime =>
      simp only [members, Json.depthMembers_append]
      exact ⟨⟨⟨hpresent _ _, hpresent _ _⟩, hpresent _ _⟩, hpresent _ _⟩
    | file action path destination => exact Json.depthMembers_append.2 ⟨Nat.le_refl 0, hpresent _ _⟩
    | raw data => exact Nat.max_le.2 ⟨Nat.le_refl _, Nat.zero_le _⟩
    | _ => exact Nat.le_refl 0
  exact Nat.succ_le_succ (Nat.max_le.2 ⟨Nat.zero_le _, hmembers⟩)

/-- The normal form of an event is as deep as its free-form data makes it. -/
theorem nesting_lt_depth_normalize {e : Event} (h : e.Plain) : e.nesting < e.toJson.normalize.depth := by
  have hdepth : e.toJson.normalize.depth =
      Json.depthMembers (Json.sortMembers (Json.normalizeMembers (("type", .str e.kind) :: e.members))) + 1 := rfl
  rw [hdepth]
  cases e with
  | raw data =>
    have hkeys : ((("type", Json.str (raw data).kind) :: (raw data).members).map (·.1)).Nodup := keys_members (raw data)
    have hdata := Json.get?_sortMembers hkeys "data"
    have hread : KeyMap.get? (("type", Json.str (raw data).kind) :: (raw data).members) "data" = some data := by
      simp [members, KeyMap.get?]
    rw [hread, Option.map_some, Json.normalize_of_isOrdered h.1] at hdata
    exact Nat.lt_succ_of_le (Json.depth_le_of_get? hdata)
  | _ => exact Nat.succ_pos _

/-- An event that is nested too deeply cannot be read. -/
theorem ofJson?_cutOff_eq_none {e : Event} (h : e.Plain) {levels : Nat} (hdeep : levels ≤ e.nesting) :
    ofJson? (e.toJson.normalize.cutOff levels) = none := by
  have hunreadable : ¬(e.toJson.normalize.cutOff levels).readable = true := by
    rw [Json.readable_cutOff]
    rintro ⟨_, hdepth⟩
    have hnesting := nesting_lt_depth_normalize h
    omega
  unfold ofJson? tagged
  rw [if_neg hunreadable]
  rfl

/-- Free-form data is read from what is given for it. -/
theorem ofRecord?_raw {kind : String} {v data : Json} (h : ofRecord? kind v = some (.raw data)) :
    ∃ x, slots ["data"] v = some [.given x] ∧ data = x.normalize := by
  unfold ofRecord? at h
  split at h
  case h_11 =>
    split at h
    · rename_i slot hslots
      obtain ⟨read, hread, heq⟩ := Option.map_eq_some_iff.1 h
      cases heq
      cases slot with
      | given x =>
        refine ⟨x, hslots, ?_⟩
        simp only [required, Json.anyValue] at hread
        split at hread
        · exact (Option.some.inj hread).symm
        · cases hread
      | absent => cases hread
      | beyond => cases hread
    · cases h
  case h_12 => cases h
  all_goals
    exfalso
    split at h
    · simp [Option.bind_eq_some_iff] at h
    · cases h

/-- Free-form data of an event that was read is the normal form of a value that fits. -/
theorem exists_of_parse? {text : String} {data : Json} (h : parse? text = some (.raw data)) :
    ∃ v : Json, v.fits = true ∧ data = v.normalize := by
  obtain ⟨tree, htree, hread⟩ := Option.bind_eq_some_iff.1 h
  obtain ⟨⟨kind, w⟩, htagged, hrecord⟩ := Option.bind_eq_some_iff.1 hread
  obtain ⟨x, hslots, rfl⟩ := ofRecord?_raw hrecord
  have hw := Json.fits_of_tagged (Json.fits_readTree htree) htagged
  exact ⟨x, Json.fits_of_slot hw hslots, rfl⟩

theorem exists_of_parse {text : String} {data : Json} (h : Json.parse text = some data) :
    ∃ v : Json, v.fits = true ∧ data = v.normalize := by
  unfold Json.parse at h
  split at h
  · rename_i v hread
    split at h
    · exact ⟨v, Json.fits_readTree hread, (Option.some.inj h).symm⟩
    · cases h
  · cases h

/-- What is written into a reply can be written into a batch, if free-form data in it has no doubles. -/
theorem plain_of_mem_inline {e : Event} {text : String} (h : e ∈ inline text)
    (hintegral : ∀ data, e = .raw data → data.isIntegral = true) : e.Plain := by
  obtain ⟨body, _, rfl⟩ := List.mem_map.1 h
  have hplain : ∀ data, ofBody body = .raw data → (∃ v : Json, v.fits = true ∧ data = v.normalize) → (ofBody body).Plain := by
    rintro data hdata ⟨v, hfits, rfl⟩
    have hall := hintegral _ hdata
    rw [hdata]
    exact ⟨Json.isOrdered_normalize v, hall, Json.fits_normalize hfits⟩
  have hstands := stands_ofBody body
  generalize ofBody body = e at hplain hstands
  cases hstands with
  | event hread =>
    cases e with
    | raw data => exact hplain data rfl (exists_of_parse? hread)
    | _ => trivial
  | value hevent hread => exact hplain _ rfl (exists_of_parse hread)
  | text hevent hvalue => exact ⟨rfl, rfl, rfl⟩

end Event

/-! ## Batches -/

theorem Usage.depth_toJson_le (u : Usage) : u.toJson.depth ≤ 1 := by
  refine Nat.succ_le_succ (Json.depthMembers_append.2 ⟨?_, Nat.le_refl 0⟩)
  exact Json.depthMembers_present fun _ _ => Nat.le_refl 0

namespace Envelope

theorem depth_toJson_le (e : Envelope) : e.toJson.depth ≤ e.event.nesting + 2 := by
  have hevent := e.event.depth_toJson_le
  refine Nat.succ_le_succ ?_
  simp only [Json.depthMembers_append]
  refine ⟨⟨⟨?_, ?_⟩, ?_⟩, ?_⟩
  · exact Nat.zero_le _
  · exact Json.depthMembers_present fun _ _ => Nat.zero_le _
  · simp [Json.depthMembers, Json.depth, Json.nat, hevent]
  · exact Json.depthMembers_present fun u _ => Nat.le_trans u.depth_toJson_le (Nat.le_add_left 1 _)

theorem ofJson?_cutOff_eq_none {e : Envelope} (h : e.event.Plain) {levels : Nat} (hdeep : levels ≤ e.event.nesting) :
    ofJson? (e.toJson.normalize.cutOff (levels + 1)) = none := by
  rw [ofJson?, toJson, Json.slots_cutOff e.keys_nodup]
  have hevent : required Event.ofJson? (slotOf (((some e.event.toJson).map Json.normalize).map (·.cutOff levels))) = none :=
    Event.ofJson?_cutOff_eq_none h hdeep
  simp only [List.map_cons, List.map_nil, KeyMap.get?_append, Json.get?_present, KeyMap.get?,
    String.reduceEq, if_true, if_false, Option.none_or, Option.or_none, hevent]
  simp

end Envelope

namespace EventBatch

variable {b : EventBatch}

theorem depth_toJson_le (h : ∀ e ∈ b.events, e.event.legible = true) : b.toJson.depth ≤ depthLimit := by
  have hevents : Json.depthAll (b.events.map (·.toJson)) ≤ depthLimit - 2 := by
    refine Json.depthAll_le_iff.2 fun v hv => ?_
    obtain ⟨e, he, rfl⟩ := List.mem_map.1 hv
    have hdepth := e.depth_toJson_le
    have hlegible := h e he
    simp only [Event.legible, decide_eq_true_eq] at hlegible
    omega
  have hlimit : depthLimit = 127 := rfl
  simp only [toJson, Json.depth, Json.depthMembers, Json.nat]
  omega

/-- A batch in which some event is nested too deeply cannot be read. -/
theorem ofJson?_cutOff_eq_none {e : Envelope} (hplain : ∀ e ∈ b.events, e.event.Plain) (he : e ∈ b.events) {levels : Nat}
    (hdeep : levels ≤ e.event.nesting) : ofJson? (b.toJson.normalize.cutOff (levels + 3)) = none := by
  rw [ofJson?, toJson, Json.slots_cutOff b.keys_nodup]
  have hevents : required (Json.listOf Envelope.ofJson?)
      (slotOf (((some (.arr (b.events.map (·.toJson)))).map Json.normalize).map (·.cutOff (levels + 2)))) = none := by
    show (Json.cutOffAll (Json.normalizeAll (b.events.map (·.toJson))) (levels + 1)).mapM Envelope.ofJson? = none
    rw [Json.cutOffAll_eq_map, Json.normalizeAll_map, List.map_map, List.mapM_map]
    exact Json.mapM_eq_none he (Envelope.ofJson?_cutOff_eq_none (hplain e he) hdeep)
  simp only [List.map_cons, List.map_nil, KeyMap.get?, String.reduceEq, if_true, if_false, hevents]
  simp

/-- A batch is read back from its text if all of its events are legible, and else it is not read at all. -/
theorem parse?_body_eq (h : ∀ e ∈ b.events, e.event.Plain) :
    parse? b.body = if ∀ e ∈ b.events, e.event.legible = true then some b else none := by
  by_cases hlegible : ∀ e ∈ b.events, e.event.legible = true
  · rw [if_pos hlegible, parse?_body h (depth_toJson_le hlegible)]
  · rw [if_neg hlegible]
    obtain ⟨e, he⟩ := not_forall.1 hlegible
    obtain ⟨he, hdeep⟩ := Classical.not_imp.1 he
    have hdenotes := Json.denotes_compact (Json.isIntegral_normalize (isIntegral_toJson h))
      (Json.fits_normalize (fits_toJson h))
    have hlevels : depthLimit - 3 ≤ e.event.nesting := by
      simp only [Event.legible, decide_eq_true_eq] at hdeep
      omega
    rw [parse?, body, Json.canonical, Json.readTree_cutOff hdenotes, Option.bind_some]
    exact ofJson?_cutOff_eq_none h he hlevels

theorem batch?_sign (b : EventBatch) (scheme : Scheme) (security : Option Security) :
    (b.sign scheme security).batch? = parse? b.body :=
  rfl

end EventBatch

/-! ## Nested data -/

/-- An empty array inside as many arrays as the number says, one inside the other. -/
def Json.nested : Nat → Json
  | 0 => .arr []
  | n + 1 => .arr [nested n]

namespace Json

theorem depth_nested (n : Nat) : (nested n).depth = n + 1 := by
  induction n with
  | zero => rfl
  | succ n ih =>
    rw [nested, depth, depthAll, depthAll, ih]
    rfl

theorem isIntegral_nested (n : Nat) : (nested n).isIntegral = true := by
  induction n with
  | zero => rfl
  | succ n ih => exact isIntegralAll_cons.2 ⟨ih, rfl⟩

theorem isOrdered_nested (n : Nat) : (nested n).isOrdered = true := by
  induction n with
  | zero => rfl
  | succ n ih => simp [nested, isOrdered, isOrderedAll, ih]

theorem fits_nested (n : Nat) : (nested n).fits = true := by
  induction n with
  | zero => rfl
  | succ n ih => exact fitsAll_cons.2 ⟨ih, rfl⟩

theorem bracket_of_mem_nested {n : Nat} {c : Char} (h : c ∈ compactChars (nested n)) : c = '[' ∨ c = ']' := by
  induction n with
  | zero => simpa [nested, compactChars, compactItems] using h
  | succ n ih =>
    simp only [nested, compactChars, compactItems, List.cons_append, List.mem_cons, List.mem_append, List.not_mem_nil,
      or_false] at h
    rcases h with rfl | h | rfl
    · exact .inl rfl
    · exact ih h
    · exact .inr rfl

end Json

/-- Nested arrays are found in a reply up to as many levels as are read. -/
theorem Event.inline_nested {n : Nat} (h : n < depthLimit) :
    inline (String.ofList (openMark ++ Json.compactChars (.nested n) ++ closeMark)) = [.raw (.nested n)] := by
  have htext : openMark ++ Json.compactChars (.nested n) ++ closeMark = marked [] [(Json.compactChars (.nested n), [])] ++ [] := by
    simp only [marked, List.append_assoc, List.nil_append, List.append_nil]
  have hclose : ¬closeMark <:+: Json.compactChars (.nested n) := by
    intro hinside
    have hmem : '<' ∈ Json.compactChars (.nested n) := hinside.subset (by decide)
    rcases Json.bracket_of_mem_nested hmem with heq | heq
    · cases heq
    · cases heq
  have hempty : ¬openMark <:+: [] := by decide
  have hspans : ∀ span ∈ [(Json.compactChars (.nested n), [])], ¬closeMark <:+: span.1 ∧ ¬openMark <:+: span.2 :=
    List.forall_mem_singleton.2 ⟨hclose, hempty⟩
  have htrim : Text.trim (Json.compactChars (.nested n)) = (Json.nested n).compact.toList := by
    rw [Json.compact, String.toList_ofList]
    refine Text.trim_of_not_blank fun c hc => ?_
    rcases Json.bracket_of_mem_nested hc with rfl | rfl
    · rfl
    · rfl
  have hevent : ofJson? (.nested n) = none := by
    cases n with
    | zero => rfl
    | succ n =>
      unfold ofJson? tagged
      split
      · cases n <;> rfl
      · rfl
  have hdepth : (Json.nested n).depth ≤ depthLimit := by
    rw [Json.depth_nested]
    exact h
  rw [inline, String.toList_ofList, htext, bodies_marked hempty hspans (.inl rfl), List.map_singleton, List.map_singleton,
    ofBody_of_value (Json.isIntegral_nested n) (Json.isOrdered_nested n) (Json.fits_nested n) hdepth hevent htrim]

/-! ## Deliveries -/

namespace Outbox

variable {c : Courier MemorySink}

/-- What holds of all events that are queued holds of all that get numbers. -/
theorem forall_issued {P : Event → Prop} {l : Ledger MemorySink} (hl : ∀ p ∈ l.issued, P p.event) {actions : List Action}
    (h : ∀ agent session event usage, .enqueue agent session event usage ∈ actions → P event) :
    ∀ p ∈ (l.after c actions).issued, P p.event := by
  induction actions generalizing l with
  | nil => exact hl
  | cons a rest ih =>
    refine ih ?_ fun agent session event usage hmem => h agent session event usage (List.mem_cons_of_mem a hmem)
    cases a with
    | enqueue agent session event usage =>
      have hevent := h agent session event usage List.mem_cons_self
      show ∀ p ∈ l.issued ++ _, P p.event
      rw [List.forall_mem_append]
      refine ⟨hl, fun p hp => ?_⟩
      obtain ⟨n, _, rfl⟩ := List.mem_map.1 hp
      exact hevent
    | _ => exact hl

/-- A sink that refuses nothing keeps all that it is brought. -/
theorem batches_deliveries (hsink : c.sink = MemorySink.sink) (parcels : List Parcel) {s : MemorySink}
    (hs : s.failing = false) :
    (deliveries c parcels s).batches = s.batches ++ parcels.map fun p => c.batchOf p.postings := by
  induction parcels generalizing s with
  | nil => exact (List.append_nil _).symm
  | cons p rest ih =>
    have htaken : (c.sink.deliver (c.batchOf p.postings) s).2 = { s with batches := s.batches ++ [c.batchOf p.postings] } := by
      rw [hsink]
      simp [MemorySink.sink, hs]
    have hrest : (deliveries c rest { s with batches := s.batches ++ [c.batchOf p.postings] }).batches = _ := ih hs
    show (deliveries c rest (c.sink.deliver (c.batchOf p.postings) s).2).batches = _
    rw [htaken, hrest, List.map_cons, List.append_assoc]
    rfl

/-- A sink that refuses nothing has the batches of all deliveries that ended. -/
theorem batches_history (hsink : c.sink = MemorySink.sink) (delay : Nat) (actions : List Action) :
    (Ledger.history c ⟨delay, false, []⟩ actions).outbox.sink.batches =
      ((Ledger.history c ⟨delay, false, []⟩ actions).ended.map fun p =>
        EventBatch.create c.context c.config.source (p.postings.map c.envelope)).map (·.sign c.scheme c.security) := by
  rw [(Kept.history c _ actions).handed, batches_deliveries hsink _ rfl, List.map_map]
  rfl

/-- What holds of all events that are queued holds of all that were delivered. -/
theorem forall_ended {P : Event → Prop} {sink : MemorySink} {actions : List Action}
    (h : ∀ agent session event usage, .enqueue agent session event usage ∈ actions → P event) :
    ∀ p ∈ (Ledger.history c sink actions).ended, ∀ q ∈ p.postings, P q.event := by
  intro p hp q hq
  have hkept := Kept.history c sink actions
  have hbegun : p ∈ (Ledger.history c sink actions).begun := hkept.single ▸ List.mem_append_left _ hp
  obtain ⟨_, _, hinside⟩ := hkept.full p hbegun
  exact forall_issued (List.forall_mem_nil _) h q (hinside.subset hq)

end Outbox

/-- If each item gives something, then nothing is missing if and only if no item is. -/
theorem flatMap_filter_eq_iff {α β : Type} {f : α → List β} {p : α → Bool} {items : List α}
    (h : ∀ a ∈ items, ¬p a = true → f a ≠ []) :
    (items.filter p).flatMap f = items.flatMap f ↔ ∀ a ∈ items, p a = true := by
  constructor
  · intro heq
    induction items with
    | nil => exact List.forall_mem_nil _
    | cons a rest ih =>
      obtain ⟨ha, hrest⟩ := List.forall_mem_cons.1 h
      by_cases hp : p a = true
      · rw [List.filter_cons_of_pos hp, List.flatMap_cons, List.flatMap_cons] at heq
        exact List.forall_mem_cons.2 ⟨hp, ih hrest (List.append_cancel_left heq)⟩
      · exfalso
        rw [List.filter_cons_of_neg hp, List.flatMap_cons] at heq
        have hshorter : ((rest.filter p).flatMap f).length ≤ (rest.flatMap f).length :=
          (List.filter_sublist.flatMap f).length_le
        have hsome : 0 < (f a).length := List.length_pos_iff.2 (ha hp)
        rw [heq, List.length_append] at hshorter
        omega
  · intro hall
    rw [List.filter_eq_self.2 hall]

/-- Of batches whose free-form data has no doubles, a sink tells the envelopes of those whose events are all legible. -/
theorem MemorySink.envelopes_eq {s : MemorySink} {scheme : Scheme} {security : Option Security} {delivered : List EventBatch}
    (hs : s.batches = delivered.map (·.sign scheme security)) (h : ∀ b ∈ delivered, ∀ e ∈ b.events, e.event.Plain) :
    s.envelopes = (delivered.filter fun b => b.events.all (·.event.legible)).flatMap (·.events) := by
  have hread : ∀ b ∈ delivered, ((·.batch?) ∘ (·.sign scheme security)) b =
      Option.guard (fun b => b.events.all (·.event.legible)) b := by
    intro b hb
    rw [Function.comp_apply, EventBatch.batch?_sign, EventBatch.parse?_body_eq (h b hb), Option.guard]
    simp only [List.all_eq_true]
  rw [envelopes, hs, List.filterMap_map, List.filterMap_congr hread, List.filterMap_eq_filter]

/-- A sink that refuses nothing takes the batches of all deliveries that end, and what it tells of them are the envelopes of those that
    can be read back. Of events that were found in replies, whose free-form data has no doubles, a batch can be read back if and only
    if each of them leaves four levels of nesting to the batch. So all envelopes that were delivered are told, in order, if and only if
    no event among them is nested more deeply than that; else those of its whole batch are missing. -/
theorem envelopes_of_replies {c : Courier MemorySink} (hsink : c.sink = MemorySink.sink) (delay : Nat)
    {actions : List Outbox.Action}
    (hactions : ∀ agent session event usage, .enqueue agent session event usage ∈ actions →
      (∃ reply, event ∈ Event.inline reply) ∧ ∀ data, event = .raw data → data.isIntegral = true) :
    let l := Outbox.Ledger.history c ⟨delay, false, []⟩ actions
    let delivered := l.ended.map fun p => EventBatch.create c.context c.config.source (p.postings.map c.envelope)
    l.outbox.sink.batches = delivered.map (·.sign c.scheme c.security) ∧
    (∀ b ∈ delivered, (b.sign c.scheme c.security).batch? =
      if ∀ e ∈ b.events, e.event.legible = true then some b else none) ∧
    l.outbox.sink.envelopes = (delivered.filter fun b => b.events.all (·.event.legible)).flatMap (·.events) ∧
    (l.outbox.sink.envelopes = delivered.flatMap (·.events) ↔ ∀ b ∈ delivered, ∀ e ∈ b.events, e.event.legible = true) := by
  intro l delivered
  have hbatches : l.outbox.sink.batches = delivered.map (·.sign c.scheme c.security) := Outbox.batches_history hsink delay actions
  have hplain : ∀ b ∈ delivered, ∀ e ∈ b.events, e.event.Plain := by
    intro b hb e he
    obtain ⟨p, hp, rfl⟩ := List.mem_map.1 hb
    obtain ⟨q, hq, rfl⟩ := List.mem_map.1 he
    refine Outbox.forall_ended (fun agent session event usage hmem => ?_) p hp q hq
    obtain ⟨⟨reply, hreply⟩, hintegral⟩ := hactions agent session event usage hmem
    exact Event.plain_of_mem_inline hreply hintegral
  -- From here on it does not matter how the batches came about.
  clear_value l delivered
  have henvelopes := MemorySink.envelopes_eq hbatches hplain
  refine ⟨hbatches, fun b hb => ?_, henvelopes, ?_⟩
  · rw [EventBatch.batch?_sign, EventBatch.parse?_body_eq (hplain b hb)]
  · rw [henvelopes, flatMap_filter_eq_iff]
    · simp only [List.all_eq_true]
    · intro b _ hillegible hnone
      exact hillegible (List.all_eq_true.2 (hnone ▸ List.forall_mem_nil _))

/-- A courier to a sink that keeps all that it is brought. -/
def keeper : Courier MemorySink where
  scheme := .standard
  context := ⟨"run-1", "hash-1", "user-1"⟩
  config := .standard
  security := none
  sink := MemorySink.sink
  time := .ofMillis

/-- Two events are queued, flushed and delivered. The data of the first is nested four levels less than the limit, and one more. -/
def nestedActions : List Outbox.Action :=
  [.enqueue "agent" none (.raw (.nested 123)) none, .enqueue "agent" none (.raw (.nested 0)) none, .flush, .land]

/-- Two events from replies are delivered in one batch. The data of one is nested more deeply than can be read of a batch, so neither
    of them is told. -/
theorem nested_data_unread :
    (∀ agent session event usage, .enqueue agent session event usage ∈ nestedActions →
      (∃ reply, event ∈ Event.inline reply) ∧ ∀ data, event = .raw data → data.isIntegral = true) ∧
    (Outbox.Ledger.history keeper ⟨0, false, []⟩ nestedActions).outbox.sink.batches.map (·.size) = [2] ∧
    (Outbox.Ledger.history keeper ⟨0, false, []⟩ nestedActions).outbox.sink.envelopes = [] := by
  have hactions : ∀ agent session event usage, .enqueue agent session event usage ∈ nestedActions →
      (∃ reply, event ∈ Event.inline reply) ∧ ∀ data, event = .raw data → data.isIntegral = true := by
    intro agent session event usage hmem
    have hnested : ∃ n, n < depthLimit ∧ event = .raw (.nested n) := by
      simp only [nestedActions, List.mem_cons, Outbox.Action.enqueue.injEq, List.not_mem_nil, or_false, reduceCtorEq] at hmem
      rcases hmem with ⟨_, _, rfl, _⟩ | ⟨_, _, rfl, _⟩
      · exact ⟨123, by decide, rfl⟩
      · exact ⟨0, by decide, rfl⟩
    obtain ⟨n, hn, rfl⟩ := hnested
    refine ⟨⟨_, (Event.inline_nested hn).symm ▸ List.mem_singleton_self _⟩, ?_⟩
    rintro data heq
    cases heq
    exact Json.isIntegral_nested n
  obtain ⟨_, _, henvelopes, _⟩ := envelopes_of_replies (c := keeper) rfl 0 hactions
  refine ⟨hactions, rfl, henvelopes.trans ?_⟩
  have hdeep : (Event.raw (.nested 123)).legible = false := by
    simp only [Event.legible, Event.nesting, Json.depth_nested]
    decide
  have hended : (Outbox.Ledger.history keeper ⟨0, false, []⟩ nestedActions).ended =
      [⟨.flush false false, [⟨1, 0, "agent", none, .raw (.nested 123), none⟩, ⟨2, 0, "agent", none, .raw (.nested 0), none⟩]⟩] :=
    rfl
  rw [hended]
  simp [EventBatch.create, Courier.envelope, hdeep]

end Playbook
