import Playbook.Json.Decode

/-!
# `Playbook.Outbox.Config` — how events are sent in batches

## Contents
- **Settings.** `Outbox.Config`, its default, and the bounds that it sets: `interval`, `batchLimit`,
  `queueLimit`, each at least one.
- **JSON.** `Outbox.Config.ofJson?`, `Outbox.Config.toJson`.
-/

namespace Playbook.Outbox

open Json (slots withDefault asString asNat)

/-- How events are sent in batches. -/
structure Config where
  /-- Milliseconds between two flushes of the timer. -/
  flushIntervalMs : Nat
  /-- The most events of a batch. -/
  maxBatch : Nat
  /-- The most events that wait. -/
  maxQueue : Nat
  /-- What batches name as their source. -/
  source : String
  deriving DecidableEq, Repr

namespace Config

/-- Twice a second, up to 50 events of up to 2000 that wait. -/
def standard : Config :=
  ⟨500, 50, 2000, "procflow"⟩

/-- The time between two flushes of the timer. -/
def interval (c : Config) : Nat :=
  max c.flushIntervalMs 1

/-- How many events go into one batch. -/
def batchLimit (c : Config) : Nat :=
  max c.maxBatch 1

/-- How many events can wait. -/
def queueLimit (c : Config) : Nat :=
  max c.maxQueue 1

/-- Settings from an object; what is left out is as in `standard`. -/
def ofJson? (v : Json) : Option Config :=
  match slots ["flush_interval_ms", "max_batch", "max_queue", "source"] v with
  | some [flushIntervalMs, maxBatch, maxQueue, source] => do
    return { flushIntervalMs :=
               ← withDefault standard.flushIntervalMs (asNat UInt64.size) flushIntervalMs
             maxBatch := ← withDefault standard.maxBatch (asNat UInt64.size) maxBatch
             maxQueue := ← withDefault standard.maxQueue (asNat UInt64.size) maxQueue
             source := ← withDefault standard.source asString source }
  | _ => none

/-- Settings as an object. -/
def toJson (c : Config) : Json :=
  .obj [("flush_interval_ms", .nat c.flushIntervalMs), ("max_batch", .nat c.maxBatch),
    ("max_queue", .nat c.maxQueue), ("source", .str c.source)]

end Config

end Playbook.Outbox
