import Playbook.Outbox.Batch
import Playbook.Proofs.Event.Roundtrip
import Playbook.Proofs.Text.Trim

/-!
# `Proofs.Outbox.Signing` — a signed batch can be checked and read back

The text of a batch is read as the batch that it was made from, whatever events it holds, as long as free-form data in them has no
doubles. Its signature holds for the text, also if its digits are written in upper case and there are blanks around it.

## Contents
- **Signatures.** `Hex.decode_trim_encode`, `Scheme.verify_sign_written`.
- **Batches.** `EventBatch.ofJson?_toJson`, `EventBatch.parse?_body`.
- **Signing.** `Receipt`: what whoever gets a signed batch can rely on; `receipt_sign`.
-/

namespace Playbook

open Digest (Scheme)
open Text (isBlank)

/-! ## Signatures -/

namespace Text.Hex

/-- How digits may be written: each with its value, and none as a blank. -/
def Digits (write : Char → Char) : Prop :=
  ∀ n < 16, value? (write (digit n)) = some n ∧ isBlank (write (digit n)) = false

instance (write : Char → Char) : Decidable (Digits write) :=
  inferInstanceAs (Decidable (∀ n < 16, _))

variable {write : Char → Char}

theorem decode_map_encode (h : Digits write) (bytes : List UInt8) :
    decode ((encode bytes).map write) = some bytes := by
  induction bytes with
  | nil => rfl
  | cons b rest ih =>
    have hb : b.toNat < 256 := b.toNat_lt
    have hbyte : UInt8.ofNat (b.toNat / 16 * 16 + b.toNat % 16) = b := by
      rw [Nat.div_add_mod']
      exact UInt8.ofNat_toNat
    simp only [encode, List.map_cons, decode, (h _ (by omega : b.toNat / 16 < 16)).1,
      (h _ (by omega : b.toNat % 16 < 16)).1, ih]
    show some (UInt8.ofNat (b.toNat / 16 * 16 + b.toNat % 16) :: rest) = _
    rw [hbyte]

theorem isBlank_of_mem_map_encode (h : Digits write) {bytes : List UInt8} {c : Char}
    (hc : c ∈ (encode bytes).map write) : isBlank c = false := by
  induction bytes with
  | nil => cases hc
  | cons b rest ih =>
    have hb : b.toNat < 256 := b.toNat_lt
    rw [encode, List.map_cons, List.map_cons, List.mem_cons, List.mem_cons] at hc
    rcases hc with rfl | rfl | hc
    · exact (h _ (by omega)).2
    · exact (h _ (by omega)).2
    · exact ih hc

/-- Bytes are read from their digits in either case, with blanks around them. -/
theorem decode_trim_encode (h : Digits write) (bytes : List UInt8) {before after : List Char}
    (hbefore : ∀ c ∈ before, isBlank c = true) (hafter : ∀ c ∈ after, isBlank c = true) :
    decode (trim (before ++ (encode bytes).map write ++ after)) = some bytes := by
  rw [trim_blanks hbefore hafter fun _ hc => isBlank_of_mem_map_encode h hc, decode_map_encode h]

end Text.Hex

/-- A signature holds for what was signed, in whichever case its digits are written, with blanks around it. -/
theorem Digest.Scheme.verify_sign_written (scheme : Scheme) (secret text : String) {write : Char → Char}
    (h : Text.Hex.Digits write) {before after : List Char} (hbefore : ∀ c ∈ before, isBlank c = true)
    (hafter : ∀ c ∈ after, isBlank c = true) :
    scheme.verify secret text
      (String.ofList (before ++ (scheme.sign secret text).toList.map write ++ after)) = true := by
  rw [Scheme.verify, Scheme.sign, String.toList_ofList, String.toList_ofList,
    Text.Hex.decode_trim_encode h _ hbefore hafter, beq_self_eq_true]

namespace EventBatch

/-! ## Batches -/

theorem keys_nodup (b : EventBatch) :
    (([("ok", .bool b.ok), ("v", .nat b.version.toNat), ("runId", .str b.runId),
      ("programHash", .str b.programHash), ("principalId", .str b.principalId),
      ("source", .str b.source), ("events", .arr (b.events.map (·.toJson)))] :
        List (String × Json)).map (·.1)).Nodup := by
  show ["ok", "v", "runId", "programHash", "principalId", "source", "events"].Nodup
  decide

variable {b : EventBatch}

/-- A batch is read back from its normal form. -/
theorem ofJson?_toJson (h : ∀ e ∈ b.events, e.event.Plain) : ofJson? b.toJson.normalize = some b := by
  rw [ofJson?, toJson, Json.slots_normalize b.keys_nodup]
  have hevents : Json.required (Json.listOf Envelope.ofJson?)
      (Json.slotOf ((some (.arr (b.events.map (·.toJson)))).map Json.normalize)) = some b.events :=
    Json.required_read (Json.listOf_normalize fun e he => Envelope.ofJson?_toJson (h e he))
  simp only [List.map_cons, List.map_nil, KeyMap.get?, String.reduceEq, if_true, if_false,
    Json.required_str, Json.required_uint32, hevents]
  rfl

theorem isIntegral_toJson (h : ∀ e ∈ b.events, e.event.Plain) : b.toJson.isIntegral = true := by
  have hevents : Json.isIntegralAll (b.events.map (·.toJson)) = true := by
    refine Json.isIntegralAll_iff.2 fun v hv => ?_
    obtain ⟨e, he, rfl⟩ := List.mem_map.1 hv
    exact Envelope.isIntegral_toJson (h e he)
  simp only [toJson, Json.isIntegral, Json.isIntegralMembers, hevents, Json.nat, Bool.and_self]

theorem fits_toJson (h : ∀ e ∈ b.events, e.event.Plain) : b.toJson.fits = true := by
  have hversion : (Json.nat b.version.toNat).fits = true :=
    Json.fits_nat (Nat.lt_trans b.version.toNat_lt_size (by decide))
  have hevents : (Json.arr (b.events.map (·.toJson))).fits = true := by
    refine Json.fitsAll_iff.2 fun v hv => ?_
    obtain ⟨e, he, rfl⟩ := List.mem_map.1 hv
    exact Envelope.fits_toJson (h e he)
  refine Json.fitsMembers_iff.2 ?_
  simp only [List.forall_mem_cons, hversion, hevents]
  exact ⟨rfl, trivial, rfl, rfl, rfl, rfl, trivial, fun _ hm => nomatch hm⟩

/-- The text of a batch is read as the batch. -/
theorem parse?_body (h : ∀ e ∈ b.events, e.event.Plain) (hdepth : b.toJson.depth ≤ Json.depthLimit) :
    parse? b.body = some b := by
  have hdenotes := Json.denotes_compact (Json.isIntegral_normalize (isIntegral_toJson h))
    (Json.fits_normalize (fits_toJson h))
  have hread := Json.readTree_of_denotes hdenotes
    (Nat.le_trans (Json.depth_normalize_le b.toJson) hdepth)
  rw [parse?, body, Json.canonical, hread, Option.bind_some, ofJson?_toJson h]

end EventBatch

/-! ## Signing -/

/-- What whoever gets a signed batch can rely on: it is the batch that was signed, which has the same text again and as
many events as it says; and with security, its signature holds, in upper case and with blanks around it too. -/
structure Receipt (scheme : Scheme) (batch : EventBatch) (security : Option Security)
    (signed : SignedBatch) : Prop where
  reads : signed.batch? = some batch
  rewrites : signed.batch?.map EventBatch.body = some signed.body
  counts : signed.size = batch.events.length
  holds : ∀ s ∈ security, scheme.verify s.sharedSecret signed.body signed.signature = true
  holds_upper : ∀ s ∈ security, scheme.verify s.sharedSecret signed.body
    (String.ofList (signed.signature.toList.map Char.toUpper)) = true
  holds_blanks : ∀ s ∈ security, ∀ before after : List Char, (∀ c ∈ before, isBlank c = true) →
    (∀ c ∈ after, isBlank c = true) → scheme.verify s.sharedSecret signed.body
      (String.ofList (before ++ signed.signature.toList ++ after)) = true

/-- Every batch of a run can be signed, checked and read back, whatever its events are, if free-form data in them has
no doubles and the text is not nested too deeply. -/
theorem receipt_sign (scheme : Scheme) (context : RunContext) (source : String) {events : List Envelope}
    (security : Option Security) (hplain : ∀ e ∈ events, e.event.Plain)
    (hdepth : (EventBatch.create context source events).toJson.depth ≤ Json.depthLimit) :
    Receipt scheme (.create context source events) security
      ((EventBatch.create context source events).sign scheme security) := by
  have hread := EventBatch.parse?_body (b := .create context source events) hplain hdepth
  -- One fact about the signature serves for all three ways to write it.
  have hwritten : ∀ s ∈ security, ∀ (write : Char → Char) {before after : List Char},
      Text.Hex.Digits write → (∀ c ∈ before, isBlank c = true) → (∀ c ∈ after, isBlank c = true) →
      scheme.verify s.sharedSecret (EventBatch.create context source events).body
        (String.ofList (before ++ ((EventBatch.create context source events).sign scheme
          security).signature.toList.map write ++ after)) = true := by
    intro s hs write before after hdigits hbefore hafter
    rw [Option.mem_def.1 hs]
    exact scheme.verify_sign_written _ _ hdigits hbefore hafter
  have hnone : ∀ c ∈ ([] : List Char), isBlank c = true := fun _ hc => nomatch hc
  constructor
  case reads => exact hread
  case rewrites => exact congrArg (Option.map EventBatch.body) hread
  case counts => rfl
  case holds =>
    intro s hs
    have hsame := hwritten s hs id (by decide) hnone hnone
    rwa [List.map_id, List.nil_append, List.append_nil, String.ofList_toList] at hsame
  case holds_upper =>
    intro s hs
    have hupper := hwritten s hs Char.toUpper (by decide) hnone hnone
    rwa [List.nil_append, List.append_nil] at hupper
  case holds_blanks =>
    intro s hs before after hbefore hafter
    have hsame := hwritten s hs id (by decide) hbefore hafter
    rwa [List.map_id] at hsame

/-- A batch with free-form data, with usage and without a session. -/
theorem receipt_sign_raw :
    Receipt .standard
      (.create ⟨"run-1", "digest", "p-1"⟩ "procflow" [⟨1, "run-1", "digest", "p-1", "a", none, 1, "now",
        .raw (.obj [("b", .arr [.int (-1), .null]), ("type", .str "\n")]), some ⟨none, 1, 2, 0⟩⟩])
      (some ⟨"secret", ""⟩)
      ((EventBatch.create ⟨"run-1", "digest", "p-1"⟩ "procflow" [⟨1, "run-1", "digest", "p-1", "a", none, 1,
        "now", .raw (.obj [("b", .arr [.int (-1), .null]), ("type", .str "\n")]),
        some ⟨none, 1, 2, 0⟩⟩]).sign .standard (some ⟨"secret", ""⟩)) := by
  refine receipt_sign .standard _ _ _ (fun e he => ?_) (by decide)
  rcases List.mem_singleton.1 he with rfl
  exact ⟨by decide, by decide, by decide⟩

end Playbook
