import Playbook.Event.Basic
import Playbook.Failure.Cause

/-!
# `Playbook.Backend.Basic` — where sessions are held

A backend opens sessions. An open session is sent a prompt, answers with a stream of turns and is closed. A
run knows a backend only by these operations, each of which may fail, may change the backend's state, and may
take time.

## Contents
- **Turns.** `Turn`, `TurnStream`.
- **Backends.** `SessionArgs`, `Backend`, and `Backend.Call`, which says how long each call takes.
-/

namespace Playbook

/-! ## Turns -/

/-- One piece of a session's answer. -/
structure Turn where
  /-- The id that the session has from now on. -/
  sessionId : Option String
  /-- Tokens that were used. -/
  usage : Option Usage
  /-- Something that the agent did. -/
  event : Option Event
  /-- A part of the reply. -/
  text : Option String
  deriving Repr, BEq

namespace Turn

/-- A turn that holds nothing. -/
def empty : Turn := ⟨none, none, none, none⟩

/-- A turn with an event. -/
def ofEvent (e : Event) : Turn :=
  { empty with event := some e }

/-- A turn with a part of the reply. -/
def ofText (text : String) : Turn :=
  { empty with text := some text }

/-- A turn with usage. -/
def ofUsage (u : Usage) : Turn :=
  { empty with usage := some u }

/-- The session id that a turn announces, by itself or in its event. -/
def announced (t : Turn) : Option String :=
  t.sessionId <|> t.event.bind Event.announced

end Turn

/-- The answer of a session, as it is read. What a turn is and what follows it may depend on what has become of the
    backend by then. -/
inductive TurnStream (τ : Type) where
  /-- Nothing more comes; this is what becomes of the backend. -/
  | finished (leave : τ → τ)
  /-- After some milliseconds comes a turn, and then the rest, or a failure, after which nobody reads on. -/
  | next (ms : τ → Nat) (take : τ → Except Failure Turn × τ) (rest : Turn → τ → TurnStream τ)

namespace TurnStream

variable {τ : Type}

/-- A stream of which all is known: turns and failures, each with the milliseconds that pass before it, and what becomes
    of the backend when all have been read. -/
def ofList (leave : τ → τ) : List (Nat × Except Failure Turn) → TurnStream τ
  | [] => finished leave
  | (ms, t) :: rest => next (fun _ => ms) (fun s => (t, s)) fun _ _ => ofList leave rest

/-- A stream of turns that are known and follow one another at once. -/
def ofTurns (turns : List Turn) : TurnStream τ :=
  ofList id (turns.map fun t => (0, .ok t))

/-- Read a stream without waiting: its turns up to the first failure, and what becomes of the backend. -/
def read : TurnStream τ → τ → List (Except Failure Turn) × τ
  | finished leave, s => ([], leave s)
  | next _ take rest, s =>
    match take s with
    | (.error e, s) => ([.error e], s)
    | (.ok t, s) =>
      let (turns, s) := (rest t s).read s
      (.ok t :: turns, s)

end TurnStream

/-! ## Backends -/

/-- What a backend is told about a session that it is to open. -/
structure SessionArgs where
  runId : String
  principalId : String
  agentName : String
  /-- The model that the agent asks for. -/
  model : Option String
  /-- What the agent is told about itself. -/
  systemPrompt : Option String
  /-- The task. -/
  title : String
  deriving DecidableEq, Repr

namespace Backend

/-- A call to a backend whose sessions are `η`. -/
inductive Call (η : Type) where
  | create (args : SessionArgs)
  | resume (args : SessionArgs) (sessionId : String)
  | send (session : η) (prompt : String)
  | close (session : η)

end Backend

/-- The operations of a backend whose state is a `τ` and whose sessions are `η`. -/
structure Backend (τ η : Type) where
  /-- The name, for failures. -/
  name : String
  /-- Open a new session. -/
  create : SessionArgs → τ → Except Failure η × τ
  /-- Take up a session again. -/
  resume : SessionArgs → String → τ → Except Failure η × τ
  /-- The id of a session, once it is known. -/
  sessionId : η → Option String
  /-- Send the prompt of the next exchange. -/
  send : String → η → τ → Except Failure Unit × η × τ
  /-- Take the answer; it can be taken once. -/
  stream : η → τ → Except Failure (TurnStream τ) × η × τ
  /-- End the session. -/
  close : η → τ → Except Failure Unit × η × τ
  /-- How many milliseconds a call takes. -/
  latency : Backend.Call η → τ → Nat := fun _ _ => 0

end Playbook
