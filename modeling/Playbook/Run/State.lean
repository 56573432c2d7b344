import Playbook.Backend.Basic
import Playbook.Outbox.Clock
import Playbook.Run.Scope
import Playbook.Run.Script
import Playbook.Store.Basic

/-!
# `Playbook.Run.State` — what a run works with and what it has done

## Contents
- **Hosts.** A `Host` has the operations that a run needs: a courier for its events, a backend and a store.
- **State.** `RunState` holds all that changes while a run goes on.
- **Reports.** `RunOutcome` is what a run that went well has to show.
- **Work.** `Work` is a script over the state of a run; `Host.perform`, `Host.storePut` and `Host.storeGet` are
  its calls to backend and store.
-/

namespace Playbook

/-! ## Hosts -/

/-- What a run works with. -/
structure Host (τ η κ δ : Type) where
  /-- How events are sent, and whose run it is. -/
  courier : Courier δ
  /-- Where sessions are held. -/
  backend : Backend τ η
  /-- Where texts and records are kept. -/
  store : ContentStore κ

/-! ## State -/

/-- All that changes while a run goes on. -/
structure RunState (τ κ δ : Type) where
  scope : Scope
  /-- The latest session of each agent, by the agent's name. -/
  sessions : KeyMap String
  counters : Counters
  /-- The tokens of all sessions that ended well. -/
  usage : Usage
  backend : τ
  store : κ
  /-- The events that wait; its clock is the clock of the run. -/
  outbox : Outbox δ

namespace RunState

variable {τ κ δ : Type}

/-- The state before a run. -/
def fresh (backend : τ) (store : κ) (sink : δ) : RunState τ κ δ :=
  ⟨.empty, [], .zero, .zero, backend, store, .empty sink⟩

/-- Count something. -/
def count (f : Counters → Counters) (s : RunState τ κ δ) : RunState τ κ δ :=
  { s with counters := f s.counters }

/-- Keep the latest session of an agent. -/
def remember (agent id : String) (s : RunState τ κ δ) : RunState τ κ δ :=
  { s with sessions := s.sessions.insert agent id }

end RunState

/-! ## Reports -/

/-- What a run that went well has to show. -/
structure RunOutcome where
  runId : String
  bindings : List Binding
  outputs : List Binding
  counters : Counters
  usage : Usage
  deriving Repr, DecidableEq

/-- An outcome as an object. -/
def RunOutcome.toJson (o : RunOutcome) : Json :=
  .obj [("runId", .str o.runId), ("bindings", .arr (o.bindings.map (·.toJson))),
    ("outputs", .arr (o.outputs.map (·.toJson))), ("counters", o.counters.toJson),
    ("usage", o.usage.toJson)]

/-! ## Work -/

/-- A script over the state of a run. -/
abbrev Work (τ κ δ α : Type) := Script (RunState τ κ δ) α

namespace Host

variable {τ η κ δ : Type}

/-- What identifies the run. -/
def context (h : Host τ η κ δ) : RunContext :=
  h.courier.context

/-- What the run has to show in a state. -/
def outcome (h : Host τ η κ δ) (s : RunState τ κ δ) : RunOutcome :=
  ⟨h.context.runId, s.scope.bindings, s.scope.outputs, s.counters, s.usage⟩

/-- Take the time of a call to the backend, then make it. -/
def perform {α : Type} (h : Host τ η κ δ) (call : Backend.Call η) (f : τ → α × τ) :
    Work τ κ δ α := do
  Script.pause fun s => h.backend.latency call s.backend
  Script.act fun s =>
    let (a, backend) := f s.backend
    (a, { s with backend })

/-- Write bytes to the store. -/
def storePut (h : Host τ η κ δ) (key : String) (bytes : List UInt8) (mime : String) :
    Work τ κ δ StoredContent := do
  Script.pause fun s => h.store.latency (.put key) s.store
  let receipt ← Script.act fun s =>
    let (receipt, store) := h.store.put key bytes mime s.store
    (receipt, { s with store })
  Script.ofExcept receipt

/-- Read bytes from the store. -/
def storeGet (h : Host τ η κ δ) (key : String) : Work τ κ δ (Option (List UInt8)) := do
  Script.pause fun s => h.store.latency (.get key) s.store
  let bytes ← Script.act fun s =>
    let (bytes, store) := h.store.get key s.store
    (bytes, { s with store })
  Script.ofExcept bytes

end Host

end Playbook
