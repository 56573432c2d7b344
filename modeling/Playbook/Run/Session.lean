import Playbook.Program.Basic
import Playbook.Run.State
import Playbook.Session.Prompt
import Playbook.Session.Tally
import Playbook.Store.Memory

/-!
# `Playbook.Run.Session` — holding a session

A session call finds its agent, opens a session or takes one up again, sends the prompt, reads the answer to
its end, closes the session whatever happened, and gives the result. What an agent that persists has said last
is kept for later runs.

## Contents
- **Agents.** `Program.agentFor`.
- **Bindings.** `Host.writeBinding`.
- **Sessions to take up again.** `Host.recordedSession`, `Host.priorSession`, `Host.record`.
- **Answers.** `Hearing`, `Host.hear`, `Host.takeTurn`, `Host.listen`.
- **The whole call.** `Host.openSession`, `Host.converse`, `Host.callSession`.
-/

namespace Playbook

/-! ## Agents -/

/-- The agent of a call. A call that names none is for the agent called `default`, which need not be
    defined. -/
def Program.agentFor (p : Program) (call : SessionCall) : Except Failure Agent :=
  match call.agent with
  | none => .ok ((p.agent? defaultAgentName).getD (.named defaultAgentName))
  | some name =>
    match p.agent? name with
    | some agent => .ok agent
    | none => Failure.raise (.unknownAgent name)

namespace Host

variable {τ η κ δ : Type}

/-! ## Bindings -/

/-- The key of the text of a binding, the n-th that its run writes. -/
def bindingKey (runId name : String) (n : Nat) : String :=
  "runs/" ++ runId ++ "/bindings/" ++ name ++ "/" ++ toString n ++ ".txt"

/-- The binding of a stored text. -/
def bindingOf (name : String) (kind : BindingKind) (text : String) (receipt : StoredContent) :
    Binding where
  name
  kind
  contentRef := receipt.contentRef
  preview := preview text
  summary := none
  sha256 := some receipt.sha256
  size := some (UInt64.ofNat receipt.size)
  mime := some receipt.mime

/-- Bind a name to a text. The text is stored first, under a key of its own; if that fails nothing is
    bound. -/
def writeBinding (h : Host τ η κ δ) (name : String) (kind : BindingKind) (text : String) :
    Work τ κ δ Unit := do
  -- The number is taken before the text is stored, so that branches never share a key.
  let n ← Script.act fun s =>
    let s := s.count fun c => { c with bindingsWritten := c.bindingsWritten + 1 }
    (s.counters.bindingsWritten, s)
  let receipt ← h.storePut (bindingKey h.context.runId name n) (Text.Utf8.encode text.toList)
    "text/plain"
  Script.update fun s => { s with scope := s.scope.bind (bindingOf name kind text receipt) text }

/-! ## Sessions to take up again -/

/-- The key of an agent's record in this run. -/
def recordKey (h : Host τ η κ δ) (agent : String) : String :=
  memoryKey h.context.runId h.context.principalId agent

/-- The session that an agent's record names. -/
def recordedSession (h : Host τ η κ δ) (agent : String) : Work τ κ δ (Option String) := do
  let bytes ← h.storeGet (h.recordKey agent)
  return bytes.bind sessionIdOfBytes?

/-- The session that a call takes up again: the agent's latest in this run, else the one in its record.
    There is none unless the agent persists. -/
def priorSession (h : Host τ η κ δ) (agent : Agent) (resume : Bool) :
    Work τ κ δ (Option String) := do
  if resume && agent.persists then
    match ← Script.observe fun s => s.sessions.get? agent.name with
    | some id => return some id
    | none => h.recordedSession agent.name
  else return none

/-- Leave a record of an agent's session. -/
def record (h : Host τ η κ δ) (agent id title : String) : Work τ κ δ Unit := do
  let now ← Script.observe fun s => h.courier.time s.outbox.clock
  let text := MemoryRecord.text ⟨id, h.context.principalId, agent, title, now⟩
  let _ ← h.storePut (h.recordKey agent) (Text.Utf8.encode text.toList) "text/markdown"
  return ()

/-! ## Answers -/

/-- What has been heard of an answer. -/
structure Hearing where
  tally : Tally
  /-- The session's id, as known by now. -/
  sessionId : Option String

/-- Take note of the session id that a turn announces. -/
def noteSession (agent : String) (t : Turn) (l : Hearing) (s : RunState τ κ δ) :
    Hearing × RunState τ κ δ :=
  match t.announced with
  | none => (l, s)
  | some id =>
    if l.sessionId = some id then (l, s)
    else ({ l with sessionId := some id }, s.remember agent id)

/-- Send on the event of a turn, with the usage that the turn was the first to report. -/
def forward (h : Host τ η κ δ) (agent : String) (event : Event) (usage : Option Usage) (l : Hearing)
    (s : RunState τ κ δ) : Hearing × RunState τ κ δ :=
  let (tally, accepted) := l.tally.accept event
  let l := { l with tally }
  if accepted then
    match s.outbox.enqueue h.courier agent l.sessionId event usage with
    | (outbox, some _) =>
      (l, { s with outbox }.count fun c => { c with eventsForwarded := c.eventsForwarded + 1 })
    | (outbox, none) => (l, { s with outbox })
  else (l, s)

/-- Take in one turn. -/
def hear (h : Host τ η κ δ) (agent : String) (t : Turn) (l : Hearing) (s : RunState τ κ δ) :
    Hearing × RunState τ κ δ :=
  let (l, s) := noteSession agent t l s
  -- Usage goes on an event only if it has not been counted for the same message before.
  let (tally, usage) := (l.tally.addText (t.text.getD "")).countUsage t.usage
  let l := { l with tally }
  match t.event with
  | none => (l, s)
  | some event => h.forward agent event usage l s

/-- Take the next turn of a stream and take it in; also gives the turn and what it has left of the backend. -/
def takeTurn (h : Host τ η κ δ) (agent : String) (take : τ → Except Failure Turn × τ) (l : Hearing)
    (s : RunState τ κ δ) : Except Failure (Hearing × Turn × τ) × RunState τ κ δ :=
  match take s.backend with
  | (.error e, backend) => (.error e, { s with backend })
  | (.ok t, backend) =>
    let (l, s) := h.hear agent t l { s with backend }
    (.ok (l, t, backend), s)

/-- Read a stream, up to the first failure. -/
def listen (h : Host τ η κ δ) (agent : String) : TurnStream τ → Hearing → Work τ κ δ Hearing
  | .finished leave, l => do
    Script.update fun s => { s with backend := leave s.backend }
    return l
  | .next ms take rest, l => do
    Script.pause fun s => ms s.backend
    let (l, t, backend) ← Script.ofExcept (← Script.act (h.takeTurn agent take l))
    h.listen agent (rest t backend) l

/-! ## The whole call -/

/-- Open a session, anew or with the id of one that is taken up again. -/
def openSession (h : Host τ η κ δ) (args : SessionArgs) (prior : Option String) : Work τ κ δ η := do
  match prior with
  | some id =>
    Script.update (·.count fun c => { c with sessionsResumed := c.sessionsResumed + 1 })
    Script.ofExcept (← h.perform (.resume args id) (h.backend.resume args id))
  | none =>
    Script.update (·.count fun c => { c with sessionsCreated := c.sessionsCreated + 1 })
    Script.ofExcept (← h.perform (.create args) (h.backend.create args))

/-- Keep the id of a session that is known when it is opened. -/
def keepOpened (agent : String) (id : Option String) : Work τ κ δ Unit :=
  match id with
  | some id => Script.update (·.remember agent id)
  | none => return ()

/-- Take a session's answer and read it; gives the session back for closing. -/
def readAnswer (h : Host τ η κ δ) (agent : String) (id : Option String) (session : η) :
    Work τ κ δ (Except Failure Hearing × η) := do
  let (stream, session) ← Script.act fun s =>
    let (r, session, backend) := h.backend.stream session s.backend
    ((r, session), { s with backend })
  match stream with
  | .error e => return (.error e, session)
  | .ok stream => return (← (h.listen agent stream ⟨.empty, id⟩).hold, session)

/-- Send a session its prompt and read its answer; gives the session back for closing. -/
def converse (h : Host τ η κ δ) (agent prompt : String) (id : Option String) (session : η) :
    Work τ κ δ (Except Failure Hearing × η) := do
  keepOpened agent id
  let (sent, session) ← h.perform (.send session prompt) fun backend =>
    let (r, session, backend) := h.backend.send prompt session backend
    ((r, session), backend)
  match sent with
  | .error e => return (.error e, session)
  | .ok () => h.readAnswer agent id session

/-- Close a session. A failure to do so changes nothing. -/
def closeSession (h : Host τ η κ δ) (session : η) : Work τ κ δ Unit :=
  h.perform (.close session) fun backend => ((), (h.backend.close session backend).2.2)

/-- Add facts to the failure of something. -/
def withFacts {α : Type} (facts : List (String × String)) (r : Except Failure α) :
    Except Failure α :=
  r.mapError fun e => facts.foldl (fun e fact => e.withContext fact.1 fact.2) e

/-- Leave a record of a session that was heard to its end, if its agent persists. -/
def recordHeard (h : Host τ η κ δ) (agent : Agent) (l : Hearing) (title : String) :
    Work τ κ δ Unit :=
  match agent.persists, l.sessionId with
  | true, some id => h.record agent.name id title
  | _, _ => return ()

/-- Hold a session and give its result. -/
def callSession (h : Host τ η κ δ) (p : Program) (call : SessionCall) (resume : Bool) :
    Work τ κ δ String := do
  let agent ← Script.ofExcept (p.agentFor call)
  let prior ← h.priorSession agent resume
  let prompt ← Script.observe fun s => renderPrompt call.title agent s.scope.bindings
  let args : SessionArgs :=
    { runId := h.context.runId
      principalId := h.context.principalId
      agentName := agent.name
      model := agent.model
      systemPrompt := agent.prompt
      title := call.title }
  let opened ← (h.openSession args prior).hold
  let session ← Script.ofExcept (withFacts [("agent", agent.name)] opened)
  let id := h.backend.sessionId session <|> prior
  let (answer, session) ← h.converse agent.name prompt id session
  -- The session is closed before its failure, if it has one, is raised.
  h.closeSession session
  let heard ← Script.ofExcept (withFacts [("agent", agent.name), ("title", call.title)] answer)
  Script.update fun s => { s with usage := s.usage.add heard.tally.usage }
  h.recordHeard agent heard call.title
  return heard.tally.finalResult

end Host

end Playbook
