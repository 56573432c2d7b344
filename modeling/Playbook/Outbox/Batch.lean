import Playbook.Digest.Seal
import Playbook.Event.Json
import Playbook.Json.Printer
import Playbook.Run.Context

/-!
# `Playbook.Outbox.Batch` — batches of events and their signatures

Events leave a run in batches. The body of a batch is its canonical JSON; it is both what is sent and what is
signed.

## Contents
- **Batches.** `EventBatch`, `EventBatch.create`, its JSON and its `body`.
- **Signatures.** `SignedBatch`, `EventBatch.sign`.
-/

namespace Playbook

open Json (slots required asBool asString asUInt32 listOf)
open Digest (Scheme)

/-- Events on their way to the collector. -/
structure EventBatch where
  /-- Always true in a batch that is sent. -/
  ok : Bool
  version : UInt32
  runId : String
  programHash : String
  principalId : String
  /-- Who sends the batch. -/
  source : String
  events : List Envelope
  deriving Repr, BEq

namespace EventBatch

/-- The batch of a run's events. -/
def create (context : RunContext) (source : String) (events : List Envelope) : EventBatch where
  ok := true
  version := eventVersion
  runId := context.runId
  programHash := context.programHash
  principalId := context.principalId
  source
  events

/-- A batch as an object. -/
def toJson (b : EventBatch) : Json :=
  .obj [("ok", .bool b.ok), ("v", .nat b.version.toNat), ("runId", .str b.runId),
    ("programHash", .str b.programHash), ("principalId", .str b.principalId),
    ("source", .str b.source), ("events", .arr (b.events.map (·.toJson)))]

/-- A batch from an object. -/
def ofJson? (v : Json) : Option EventBatch :=
  match slots ["ok", "v", "runId", "programHash", "principalId", "source", "events"] v with
  | some [ok, version, runId, programHash, principalId, source, events] => do
    return { ok := ← required asBool ok
             version := ← required asUInt32 version
             runId := ← required asString runId
             programHash := ← required asString programHash
             principalId := ← required asString principalId
             source := ← required asString source
             events := ← required (listOf Envelope.ofJson?) events }
  | _ => none

/-- The batch that a text denotes. -/
def parse? (text : String) : Option EventBatch :=
  (Json.readTree text).bind ofJson?

/-- The text of a batch. -/
def body (b : EventBatch) : String :=
  b.toJson.canonical

end EventBatch

/-- A batch ready to be sent. -/
structure SignedBatch where
  runId : String
  /-- The text of the batch. -/
  body : String
  /-- The signature of the text, empty without security. -/
  signature : String
  /-- The token that goes with it, empty for none. -/
  token : String
  /-- The number of its events. -/
  size : Nat
  deriving DecidableEq, Repr

/-- Sign a batch. -/
def EventBatch.sign (scheme : Scheme) (b : EventBatch) (security : Option Security) :
    SignedBatch where
  runId := b.runId
  body := b.body
  signature := (security.map fun s => scheme.sign s.sharedSecret b.body).getD ""
  token := (security.map (·.ingestToken)).getD ""
  size := b.events.length

/-- The batch that was signed, if its text can be read. -/
def SignedBatch.batch? (b : SignedBatch) : Option EventBatch :=
  EventBatch.parse? b.body

end Playbook
