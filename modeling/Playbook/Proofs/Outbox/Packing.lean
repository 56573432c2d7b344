import Playbook.Outbox.Basic
import Playbook.Proofs.Outbox.Signing

/-!
# `Proofs.Outbox.Packing` — what is in the batch of some events

The batch that a courier makes of some events is the signed text of their envelopes, one for each, in order. What an envelope and a
batch hold is said field by field, so that it can be read off a batch without knowing how it was made.

## Contents
- **Envelopes.** `Courier.Bears`, and `Courier.bears_envelope`; `Courier.map_of_bears`, `Courier.exists_of_mem_bears`.
- **Batches.** `Courier.bundle`, `Courier.Holds`, `Courier.Carries`, and `Courier.carries_batchOf`; `Courier.exists_holds` for
  several of them.
-/

namespace Playbook.Courier

variable {δ : Type}

/-! ## Envelopes -/

/-- An envelope bears an event of the outbox: it says which it is, who reported it when, and in which run. -/
structure Bears (c : Courier δ) (p : Posting) (e : Envelope) : Prop where
  version : e.version = eventVersion
  run : e.runId = c.context.runId
  program : e.programHash = c.context.programHash
  principal : e.principalId = c.context.principalId
  agent : e.agentName = p.agent
  session : e.sessionId = p.session
  seq : e.seq = UInt64.ofNat p.seq
  time : e.timestamp = (c.time p.time).text
  event : e.event = p.event
  usage : e.usage = p.usage

theorem bears_envelope (c : Courier δ) (p : Posting) : c.Bears p (c.envelope p) :=
  ⟨rfl, rfl, rfl, rfl, rfl, rfl, rfl, rfl, rfl, rfl⟩

/-- Envelopes have in common with events what each of them has in common with its event. -/
theorem map_of_bears {α : Type} {c : Courier δ} {f : Posting → α} {g : Envelope → α}
    (hfg : ∀ p e, c.Bears p e → g e = f p) {postings : List Posting} {envelopes : List Envelope}
    (h : List.Forall₂ c.Bears postings envelopes) : envelopes.map g = postings.map f := by
  have hsame : List.Forall₂ (· = ·) (postings.map f) (envelopes.map g) := by
    rw [List.forall₂_map_left_iff, List.forall₂_map_right_iff]
    exact h.imp fun p e he => (hfg p e he).symm
  rw [List.forall₂_eq_eq_eq] at hsame
  exact hsame.symm

/-- Each of the envelopes bears one of the events. -/
theorem exists_of_mem_bears {c : Courier δ} {postings : List Posting} {envelopes : List Envelope}
    (h : List.Forall₂ c.Bears postings envelopes) {e : Envelope} (he : e ∈ envelopes) :
    ∃ p ∈ postings, c.Bears p e := by
  induction h with
  | nil => cases he
  | cons hfirst _ ih =>
    rcases List.mem_cons.1 he with rfl | he
    · exact ⟨_, List.mem_cons_self, hfirst⟩
    · obtain ⟨p, hp, hbears⟩ := ih he
      exact ⟨p, List.mem_cons_of_mem _ hp, hbears⟩

/-! ## Batches -/

/-- The batch in which some envelopes of a run are sent. -/
def bundle (c : Courier δ) (envelopes : List Envelope) : EventBatch where
  ok := true
  version := eventVersion
  runId := c.context.runId
  programHash := c.context.programHash
  principalId := c.context.principalId
  source := c.config.source
  events := envelopes

/-- A signed batch holds some envelopes: its text is that of their batch and is read as it, as far as batches can be read, and it is
    counted and signed as such. -/
structure Holds (c : Courier δ) (b : SignedBatch) (envelopes : List Envelope) : Prop where
  run : b.runId = c.context.runId
  body : b.body = (c.bundle envelopes).body
  read : (∀ e ∈ envelopes, e.event.Plain) → (c.bundle envelopes).toJson.depth ≤ Json.depthLimit →
    b.batch? = some (c.bundle envelopes)
  size : b.size = envelopes.length
  signature : ∀ s, c.security = some s → b.signature = c.scheme.sign s.sharedSecret b.body
  token : ∀ s, c.security = some s → b.token = s.ingestToken
  unsigned : c.security = none → b.signature = "" ∧ b.token = ""

/-- A signed batch carries some events: it holds an envelope for each, in order, and no others. -/
def Carries (c : Courier δ) (b : SignedBatch) (postings : List Posting) : Prop :=
  ∃ envelopes, c.Holds b envelopes ∧ List.Forall₂ c.Bears postings envelopes

theorem holds_batchOf (c : Courier δ) (postings : List Posting) :
    c.Holds (c.batchOf postings) (postings.map c.envelope) where
  run := rfl
  body := rfl
  read := EventBatch.parse?_body (b := c.bundle (postings.map c.envelope))
  size := rfl
  signature s hs := by simp [batchOf, EventBatch.sign, hs]
  token s hs := by simp [batchOf, EventBatch.sign, hs]
  unsigned hs := by simp [batchOf, EventBatch.sign, hs]

/-- The batch of some events carries them. -/
theorem carries_batchOf (c : Courier δ) (postings : List Posting) :
    c.Carries (c.batchOf postings) postings :=
  ⟨_, c.holds_batchOf postings, List.forall₂_map_right_iff.2 (List.forall₂_same.2 fun p _ => c.bears_envelope p)⟩

/-- The envelopes of batches that carry some events are those of all these events, in order. -/
theorem exists_holds {c : Courier δ} {batches : List SignedBatch} {groups : List (List Posting)}
    (h : List.Forall₂ c.Carries batches groups) :
    ∃ envelopes, List.Forall₂ c.Holds batches envelopes ∧
      List.Forall₂ c.Bears groups.flatten envelopes.flatten := by
  induction h with
  | nil => exact ⟨[], .nil, .nil⟩
  | cons hfirst _ ih =>
    obtain ⟨first, hholds, hbears⟩ := hfirst
    obtain ⟨rest, hrest, hflat⟩ := ih
    exact ⟨first :: rest, .cons hholds hrest, List.rel_append hbears hflat⟩

end Playbook.Courier
