import Playbook.Proofs.Outbox.Ledger
import Playbook.Proofs.Outbox.Packing

/-!
# `Proofs.Outbox.Conservation` — every event is in exactly one place

Whatever callers and time do to an outbox, in whatever order: an event that got a number waits, is on its way, has been brought
to the sink or gave way because the queue was full, and nothing else; events are sent in the order of their numbers, in batches
of one delivery at a time; and a flush sends two batches at most and says how many events they held.

## Contents
- **Places.** `Ledger.aloft`, `Ledger.arrived`; `Kept.carried`: what their batches carry.
- **Numbers.** `map_seq_of_infix`, `pairwise_seq_of_sublist`: events that came one after another, and events in order.
- **Statement.** `Accounted`, and `accounted` after all actions.
-/

namespace Playbook.Outbox

variable {δ : Type} {c : Courier δ}

/-! ## Places -/

namespace Ledger

/-- The events of the delivery under way. -/
def aloft (l : Ledger δ) : List Posting :=
  l.outbox.flight.toList.flatMap (·.postings)

/-- The events of the deliveries that have ended, whether the sink took them or not. -/
def arrived (l : Ledger δ) : List Posting :=
  l.ended.flatMap (·.postings)

end Ledger

/-- The deliveries that have begun have ended, but for the one under way. -/
theorem Kept.begun_eq {sink : δ} {l : Ledger δ} (h : Kept c sink l) :
    l.begun.flatMap (·.postings) = l.arrived ++ l.aloft := by
  rw [h.single]
  simp [Ledger.arrived, Ledger.aloft, List.flatMap_map, Flight.parcel]

/-- What has been brought to the sink, and what is on its way, carries the events that it should. -/
theorem Kept.carried {sink : δ} {l : Ledger δ} (h : Kept c sink l) :
    (∀ p ∈ l.ended, c.Carries (c.batchOf p.postings) p.postings) ∧
      ∀ f, l.outbox.flight = some f → c.Carries f.batch f.postings := by
  refine ⟨fun p _ => c.carries_batchOf p.postings, fun f hf => ?_⟩
  rw [h.aboard f hf]
  exact c.carries_batchOf f.postings

/-! ## Numbers -/

/-- Events that came one after another have numbers that follow one another. -/
theorem map_seq_of_infix {ps issued : List Posting} {n : Nat} (h : ps <:+: issued)
    (hnumbered : issued.map (·.seq) = List.range' 1 n) :
    ∃ first, ps.map (·.seq) = List.range' first ps.length := by
  obtain ⟨before, later, rfl⟩ := h
  rw [List.append_assoc, List.map_append, List.map_append] at hnumbered
  obtain ⟨k, _, _, hrest⟩ := List.range'_eq_append_iff.1 hnumbered.symm
  obtain ⟨m, hm, hps, _⟩ := List.range'_eq_append_iff.1 hrest.symm
  have hlength : ps.length = m := by
    rw [← List.length_map (f := (·.seq)), hps, List.length_range']
  exact ⟨_, hlength ▸ hps⟩

/-- Events in the order in which they came have rising numbers. -/
theorem pairwise_seq_of_sublist {ps issued : List Posting} {n : Nat} (h : ps.Sublist issued)
    (hnumbered : issued.map (·.seq) = List.range' 1 n) : ps.Pairwise (·.seq < ·.seq) := by
  have hissued : (issued.map (·.seq)).Pairwise (· < ·) := hnumbered ▸ List.pairwise_lt_range' 1
  exact (List.pairwise_map.1 hissued).sublist h

/-- Of numbered events the latest ones have the latest numbers. -/
theorem map_seq_of_suffix {front ps : List Posting} {n : Nat}
    (hnumbered : (front ++ ps).map (·.seq) = List.range' 1 n) :
    ps.map (·.seq) = List.range' (n + 1 - ps.length) ps.length := by
  rw [List.map_append] at hnumbered
  obtain ⟨k, hk, _, hps⟩ := List.range'_eq_append_iff.1 hnumbered.symm
  have hlength : ps.length = n - k := by
    rw [← List.length_map (f := (·.seq)), hps, List.length_range']
  rw [hps, hlength]
  congr 1
  omega

/-! ## Statement -/

/-- What holds of an outbox and its ledger at any time. -/
structure Accounted (c : Courier δ) (sink : δ) (l : Ledger δ) : Prop where
  /-- Each event that got a number is in exactly one place. -/
  places : (l.outbox.queue ++ l.aloft ++ l.arrived ++ l.lost).Perm l.issued
  /-- The numbers given are those from one to the latest, each once. -/
  numbered : l.issued.map (·.seq) = List.range' 1 l.outbox.seq
  /-- The events that gave way are counted. -/
  dropped : l.outbox.dropped = l.lost.length
  /-- The events that wait are the latest ones, without a gap. -/
  waiting : l.outbox.queue.map (·.seq) =
    List.range' (l.outbox.seq + 1 - l.outbox.queue.length) l.outbox.queue.length
  /-- No more events wait than may. -/
  bounded : l.outbox.queue.length ≤ max 1 c.config.maxQueue
  /-- Of the deliveries that have begun all have ended, but for the one under way if there is one. -/
  single : l.begun = l.ended ++ l.outbox.flight.toList.map (·.parcel)
  /-- A batch holds at least one event and not too many, without a gap. -/
  batches : ∀ p ∈ l.begun, 1 ≤ p.postings.length ∧ p.postings.length ≤ max 1 c.config.maxBatch ∧
    ∃ first, p.postings.map (·.seq) = List.range' first p.postings.length
  /-- Batches begin in the order of their numbers. -/
  ordered : (l.begun.flatMap (·.postings)).Pairwise (·.seq < ·.seq)
  /-- The sink was brought just the batches whose deliveries have ended, in order. -/
  handed : l.outbox.sink = deliveries c l.ended sink
  /-- Each of these carries its events, and so does the one under way. -/
  carried : (∀ p ∈ l.ended, c.Carries (c.batchOf p.postings) p.postings) ∧
    ∀ f, l.outbox.flight = some f → c.Carries f.batch f.postings
  /-- A flush that is done took at most two batches and gave back how many events they held. -/
  flushes : ∀ flush ∈ l.flushes, flush.1.length ≤ 2 ∧
    flush.2 = (flush.1.flatMap (·.postings)).length
  /-- What flushes took, those that are done and the one under way, is all that was sent before the stop. -/
  tallied : l.begun.filter (!·.isDrains) = l.flushes.flatMap (·.1) ++ l.taking
  /-- A flush that finds a delivery under way, or nothing to send, gives back zero and changes nothing. -/
  refused : l.outbox.flight ≠ none ∨ l.outbox.queue = [] →
    l.outbox.beginFlush c false = { l.outbox with flushed := 0 }

/-- **Conservation and order.** After any actions each event is accounted for. -/
theorem accounted (c : Courier δ) (sink : δ) (actions : List Action) :
    Accounted c sink (.history c sink actions) := by
  have hk := Kept.history c sink actions
  have hc := Counted.history c sink actions
  generalize Ledger.history c sink actions = l at hk hc
  obtain ⟨front, hissued, hsublist, hperm⟩ := hk.parted
  have hbegun := hk.begun_eq
  refine
    { places := ?_
      numbered := hk.numbered
      dropped := hk.dropped
      waiting := ?_
      bounded := by simpa [Config.queueLimit, Nat.max_comm] using hk.bounded
      single := hk.single
      batches := fun p hp => ?_
      ordered := pairwise_seq_of_sublist (hsublist.trans ?_) hk.numbered
      handed := hk.handed
      carried := hk.carried
      flushes := fun x hx => ?_
      tallied := hc.tallied
      refused := ?_ }
  · calc l.outbox.queue ++ l.aloft ++ l.arrived ++ l.lost
      List.Perm _ (l.lost ++ (l.outbox.queue ++ l.aloft ++ l.arrived)) := List.perm_append_comm
      List.Perm _ (l.lost ++ (l.arrived ++ (l.aloft ++ l.outbox.queue))) :=
        (List.perm_append_comm.trans (List.perm_append_comm.append_left _)).append_left _
      List.Perm _ (l.lost ++ l.begun.flatMap (·.postings) ++ l.outbox.queue) := by
        simp [hbegun]
      List.Perm _ (front ++ l.outbox.queue) := hperm.append_right _
      List.Perm _ l.issued := hissued ▸ List.Perm.refl _
  · exact map_seq_of_suffix (hissued ▸ hk.numbered)
  · obtain ⟨hne, hle, hinfix⟩ := hk.full p hp
    refine ⟨List.length_pos_iff.2 hne, ?_, map_seq_of_infix hinfix hk.numbered⟩
    simpa [Config.batchLimit, Nat.max_comm] using hle
  · exact hissued ▸ List.sublist_append_left front _
  · exact hc.flushes x hx
  · rintro (hbusy | hempty)
    · obtain ⟨f, hf⟩ := Option.ne_none_iff_exists'.1 hbusy
      exact beginFlush_of_busy hf
    · rcases Option.eq_none_or_eq_some l.outbox.flight with hfree | ⟨f, hf⟩
      · rw [beginFlush_of_free hfree, launch_of_nil (by exact hempty)]
        rfl
      · exact beginFlush_of_busy hf

end Playbook.Outbox
