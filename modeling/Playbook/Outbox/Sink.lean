import Playbook.Failure.Cause
import Playbook.Outbox.Batch
import Playbook.Outbox.Config
import Playbook.Timestamp

/-!
# `Playbook.Outbox.Sink` — where batches go

## Contents
- **Sinks.** `Sink`; `Sink.log` takes all, `MemorySink` keeps what it takes and may refuse.
- **Couriers.** A `Courier` is all that an outbox needs to know to send its events: whose they are, how they
  are batched and signed, and where they go.
-/

namespace Playbook

open Digest (Scheme)

/-! ## Sinks -/

/-- Where batches go; `δ` is the state of the place. -/
structure Sink (δ : Type) where
  /-- How many milliseconds a delivery takes. -/
  delay : SignedBatch → δ → Nat
  /-- The end of a delivery, which is taken or refused. -/
  deliver : SignedBatch → δ → Except Failure Unit × δ

/-- A sink that takes all batches and keeps none. -/
def Sink.log : Sink Unit where
  delay _ _ := 0
  deliver _ _ := (.ok (), ())

/-- A sink that keeps the batches that it takes. -/
structure MemorySink where
  /-- How many milliseconds a delivery takes. -/
  delay : Nat
  /-- Whether deliveries are refused. -/
  failing : Bool
  /-- The batches taken. -/
  batches : List SignedBatch

namespace MemorySink

/-- A sink that has taken nothing. -/
def empty : MemorySink := ⟨0, false, []⟩

/-- The operations. -/
def sink : Sink MemorySink where
  delay _ s := s.delay
  deliver b s :=
    if s.failing then (Failure.raise (.delivery "memory sink is failing"), s)
    else (.ok (), { s with batches := s.batches ++ [b] })

/-- The envelopes of the batches taken; a batch that cannot be read counts for none. -/
def envelopes (s : MemorySink) : List Envelope :=
  (s.batches.filterMap (·.batch?)).flatMap (·.events)

end MemorySink

/-! ## Couriers -/

/-- What an outbox needs to know to send its events. -/
structure Courier (δ : Type) where
  /-- How batches are signed. -/
  scheme : Scheme
  /-- The run. -/
  context : RunContext
  /-- How events are batched. -/
  config : Outbox.Config
  /-- With what batches are signed. -/
  security : Option Security
  /-- Where batches go. -/
  sink : Sink δ
  /-- What the clock of the run shows, as a point in time. -/
  time : Nat → Timestamp

end Playbook
