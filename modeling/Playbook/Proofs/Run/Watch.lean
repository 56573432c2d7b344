import Playbook.Proofs.Run.Journal

/-!
# `Proofs.Run.Watch` — a run that notes its session calls

Which session of an agent a run has held last, and under which id, is not to be seen from outside: ids change while an answer is
read, and calls that go on side by side end in any order. So a run can be *watched*: it keeps a log in which it notes what its calls
ask the backend for, and, whenever a record has been written, which turns had been heard. The log lies next to the store, where the
run does not look, and the scripts here are those of the run but for what they note.

## Contents
- **Notes.** `Note`, `Log`; what a log says of an agent: `Log.firstRequest`, `Log.lastRecorded`.
- **Keeping it.** `Host.watched`, `RunState.unwatched`, `RunState.log`, `RunState.note`.
- **Calls.** `Host.watchListen`, `Host.watchConverse`, `Host.watchRecord`, `Host.watchSession`, `Host.watchCall`, and with them
  `Host.watcher`, the narrator that notes what becomes of sessions.
-/

namespace Playbook

/-! ## Notes -/

/-- What is noted of a session call. -/
inductive Note where
  /-- The backend is asked for a session of an agent: to take up an earlier one, or for a new one if there is none. -/
  | asked (agent : String) (resume : Bool) (prior : Option String)
  /-- The record of an agent has been written, after a session that was opened with an id and gave some turns. -/
  | recorded (agent : String) (opened : Option String) (turns : List Turn)

/-- What a run notes, in order. -/
abbrev Log := List Note

/-- The id of a session after some turns: the one that was announced last, else the one with which the session was opened. -/
def sessionAfter (opened : Option String) (turns : List Turn) : Option String :=
  (turns.filterMap (·.announced)).getLast? <|> opened

namespace Note

/-- What the backend was asked for, if the note is about that and the agent. -/
def request? (agent : String) : Note → Option (Bool × Option String)
  | asked a resume prior => if a = agent then some (resume, prior) else none
  | recorded _ _ _ => none

/-- The id that a session of the agent had in the end, if the note is about its record. -/
def ended? (agent : String) : Note → Option (Option String)
  | asked _ _ _ => none
  | recorded a opened turns => if a = agent then some (sessionAfter opened turns) else none

end Note

namespace Log

/-- What the backend was asked for first, for an agent: whether the call was to resume a session, and which. -/
def firstRequest (l : Log) (agent : String) : Option (Bool × Option String) :=
  l.findSome? (·.request? agent)

/-- What the session had for its id in the end whose record was the last to be written, for an agent. -/
def lastEnded (l : Log) (agent : String) : Option (Option String) :=
  (l.filterMap (·.ended? agent)).getLast?

/-- The session of an agent whose record was the last to be written. -/
def lastRecorded (l : Log) (agent : String) : Option String :=
  (l.lastEnded agent).join

/-- Whether the backend was asked for a session of an agent. -/
def Asks (l : Log) (agent : String) : Prop :=
  ∃ resume prior, .asked agent resume prior ∈ l

end Log

/-! ## Keeping it -/

variable {τ η κ δ : Type}

/-- The state of a run that is watched. -/
abbrev WatchState (τ κ δ : Type) := RunState τ (κ × Log) δ

namespace RunState

/-- The state without the log. -/
def unwatched (s : WatchState τ κ δ) : RunState τ κ δ :=
  { s with store := s.store.1 }

/-- The state with a log. -/
def withLog (s : RunState τ κ δ) (l : Log) : WatchState τ κ δ :=
  { s with store := (s.store, l) }

/-- The log. -/
def log (s : WatchState τ κ δ) : Log :=
  s.store.2

/-- Make a note. -/
def note (n : Note) (s : WatchState τ κ δ) : WatchState τ κ δ :=
  { s with store := (s.store.1, s.store.2 ++ [n]) }

end RunState

/-- A script over the state of a run that is watched. -/
abbrev WatchWork (τ κ δ α : Type) := Work τ (κ × Log) δ α

namespace Host

/-- The host of a run that is watched. -/
def watched (h : Host τ η κ δ) : Host τ η (κ × Log) δ where
  courier := h.courier
  backend := h.backend
  store := h.store.aside Log

/-! ## Calls -/

/-- Read a stream of which some turns have been read; also gives all of its turns. -/
def watchListen (h : Host τ η κ δ) (agent : String) :
    TurnStream τ → List Turn → Hearing → WatchWork τ κ δ (Hearing × List Turn)
  | .finished leave, turns, l => do
    Script.update fun s => { s with backend := leave s.backend }
    return (l, turns)
  | .next ms take rest, turns, l => do
    Script.pause fun s => ms s.backend
    let (l, t, backend) ← Script.ofExcept (← Script.act (h.watched.takeTurn agent take l))
    h.watchListen agent (rest t backend) (turns ++ [t]) l

/-- Take a session's answer and read it; gives the session back for closing. -/
def watchAnswer (h : Host τ η κ δ) (agent : String) (id : Option String) (session : η) :
    WatchWork τ κ δ (Except Failure (Hearing × List Turn) × η) := do
  let (stream, session) ← Script.act fun s =>
    let (r, session, backend) := h.backend.stream session s.backend
    ((r, session), { s with backend })
  match stream with
  | .error e => return (.error e, session)
  | .ok stream => return (← (h.watchListen agent stream [] ⟨.empty, id⟩).hold, session)

/-- Send a session its prompt and read its answer; gives the session back for closing. -/
def watchConverse (h : Host τ η κ δ) (agent prompt : String) (id : Option String) (session : η) :
    WatchWork τ κ δ (Except Failure (Hearing × List Turn) × η) := do
  keepOpened agent id
  let (sent, session) ← h.watched.perform (.send session prompt) fun backend =>
    let (r, session, backend) := h.backend.send prompt session backend
    ((r, session), backend)
  match sent with
  | .error e => return (.error e, session)
  | .ok () => h.watchAnswer agent id session

/-- The answer of the store to a record, and a note if the record has been written. -/
def putNoted (h : Host τ η κ δ) (key : String) (bytes : List UInt8) (n : Note) (s : WatchState τ κ δ) :
    Except Failure StoredContent × WatchState τ κ δ :=
  -- In one step with the write: so the last note about an agent's record is about its last write.
  match h.store.put key bytes "text/markdown" s.store.1 with
  | (.ok receipt, store) => (.ok receipt, { s with store := (store, s.store.2 ++ [n]) })
  | (.error e, store) => (.error e, { s with store := (store, s.store.2) })

/-- Write a record to the store, and make a note of it at once if it has been written. -/
def watchPut (h : Host τ η κ δ) (key : String) (bytes : List UInt8) (n : Note) : WatchWork τ κ δ StoredContent := do
  Script.pause fun s => h.store.latency (.put key) s.store.1
  Script.ofExcept (← Script.act (h.putNoted key bytes n))

/-- Leave a record of an agent's session, and note the turns that were heard once it has been written. -/
def watchRecord (h : Host τ η κ δ) (agent id title : String) (opened : Option String) (turns : List Turn) :
    WatchWork τ κ δ Unit := do
  let now ← Script.observe fun s => h.courier.time s.outbox.clock
  let text := MemoryRecord.text ⟨id, h.context.principalId, agent, title, now⟩
  let _ ← h.watchPut (h.recordKey agent) (Text.Utf8.encode text.toList) (.recorded agent opened turns)
  return ()

/-- Leave a record of a session that was heard to its end, if its agent persists. -/
def watchRecordHeard (h : Host τ η κ δ) (agent : Agent) (l : Hearing) (title : String) (opened : Option String)
    (turns : List Turn) : WatchWork τ κ δ Unit :=
  match agent.persists, l.sessionId with
  | true, some id => h.watchRecord agent.name id title opened turns
  | _, _ => return ()

/-- Hear the answer of a session that is open; also gives all of its turns. -/
def watchHear (h : Host τ η κ δ) (agent : Agent) (title prompt : String) (id : Option String) (session : η) :
    WatchWork τ κ δ (Hearing × List Turn) := do
  let (answer, session) ← h.watchConverse agent.name prompt id session
  h.watched.closeSession session
  let (heard, turns) ← Script.ofExcept (withFacts [("agent", agent.name), ("title", title)] answer)
  Script.update fun s => { s with usage := s.usage.add heard.tally.usage }
  return (heard, turns)

/-- Open a session, hear its answer and leave a record. -/
def watchSession (h : Host τ η κ δ) (agent : Agent) (title prompt : String) (prior : Option String) :
    WatchWork τ κ δ String := do
  let opened ← (h.watched.openSession ⟨h.context.runId, h.context.principalId, agent.name, agent.model, agent.prompt,
    title⟩ prior).hold
  let session ← Script.ofExcept (withFacts [("agent", agent.name)] opened)
  let id := h.backend.sessionId session <|> prior
  let (heard, turns) ← h.watchHear agent title prompt id session
  h.watchRecordHeard agent heard title id turns
  return heard.tally.finalResult

variable (h : Host τ η κ δ) (p : Program)

/-- Hold a session and give its result. Before the backend is asked, a note is made of what it is asked for. -/
def watchCall (call : SessionCall) (resume : Bool) : WatchWork τ κ δ String := do
  let agent ← Script.ofExcept (p.agentFor call)
  let prior ← h.watched.priorSession agent resume
  let prompt ← Script.observe fun s => renderPrompt call.title agent s.scope.bindings
  Script.update (·.note (.asked agent.name resume prior))
  h.watchSession agent call.title prompt prior

/-- The narrator that notes what becomes of sessions. What begins and ends is not noted. -/
def watcher : Narrator τ (κ × Log) δ where
  enter _ _ work := work
  call _ := h.watchCall p
  write _ := h.watched.writeBinding

end Host

end Playbook
