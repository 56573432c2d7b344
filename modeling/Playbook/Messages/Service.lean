import Playbook.Http.Exchange
import Playbook.Json.Printer
import Playbook.KeyMap
import Playbook.Messages.Config
import Playbook.Messages.Frames
import Playbook.Messages.Reply

/-!
# `Playbook.Messages.Service` — the backend that asks a Messages service

The service remembers nothing, so the backend keeps a transcript of each session and sends all of it with every
prompt. A session that is taken up again goes on with its transcript for as long as the backend lives.

## Contents
- **Transcripts.** `Role`, `Message`, `State`.
- **Sessions.** `Session`.
- **Requests.** `requestBody`, `request`.
- **Answers.** `answer` reads a reply as turns.
- **Backend.** `Service`, `Service.backend`.
-/

namespace Playbook.Messages

/-! ## Transcripts -/

/-- Who wrote a message. -/
inductive Role where
  | user
  | assistant
  deriving DecidableEq, Repr

/-- The word for a role. -/
def Role.name : Role → String
  | user => "user"
  | assistant => "assistant"

/-- A message of a transcript. -/
structure Message where
  role : Role
  content : String
  deriving DecidableEq, Repr

/-- A message as an object. -/
def Message.toJson (m : Message) : Json :=
  .obj [("role", .str m.role.name), ("content", .str m.content)]

/-- What the backend keeps. -/
structure State (ρ : Type) where
  /-- The messages of each session, by its id. -/
  transcripts : KeyMap (List Message)
  /-- How many sessions were created. -/
  created : Nat
  /-- The state of the peer. -/
  peer : ρ

namespace State

variable {ρ : Type}

/-- The state before the first session. -/
def fresh (peer : ρ) : State ρ := ⟨[], 0, peer⟩

/-- The transcript of a session. -/
def transcript (s : State ρ) (id : String) : List Message :=
  (s.transcripts.get? id).getD []

/-- Add a message to the transcript of a session. -/
def push (s : State ρ) (id : String) (m : Message) : State ρ :=
  { s with transcripts := s.transcripts.insert id (s.transcript id ++ [m]) }

end State

/-! ## Sessions -/

/-- A session with the service. -/
structure Session where
  id : String
  /-- Whether it was taken up again. -/
  resumed : Bool
  /-- The model to ask for. -/
  model : String
  /-- What the agent is told about itself. -/
  system : Option String
  /-- The prompt that waits for its answer. -/
  pending : Option String
  /-- Whether an answer has been taken. -/
  streamed : Bool
  deriving DecidableEq, Repr

namespace Session

/-- A session that has just been opened. -/
def opened (c : Config) (args : SessionArgs) (id : String) (resumed : Bool) : Session :=
  ⟨id, resumed, c.model args.model, args.systemPrompt, none, false⟩

/-- The turn that opens an answer. -/
def opening (s : Session) : Turn :=
  { Turn.ofEvent (if s.resumed then .sessionResumed s.id else .sessionStarted s.id) with
    sessionId := some s.id }

end Session

/-! ## Requests -/

/-- The body of a request. -/
def requestBody (c : Config) (s : Session) (messages : List Message) : Json :=
  .obj ([("model", .str s.model), ("messages", .arr (messages.map (·.toJson)))] ++
    Json.present "system" .str s.system ++
    [("max_tokens", .nat c.maxTokens), ("stream", .bool true)])

/-- The request for an answer to a transcript. -/
def request (c : Config) (s : Session) (messages : List Message) : Http.Request where
  method := "POST"
  url := c.baseUrl ++ "/messages"
  headers := [("x-api-key", c.apiKey.getD ""), ("anthropic-version", c.apiVersion),
    ("content-type", "application/json")]
  body := (requestBody c s messages).compact

/-! ## Answers -/

/-- A failure of the backend. -/
def failure (reason : String) : Failure :=
  (Failure.Cause.adapter "messages" reason).failure

/-- Read the chunks of a reply as turns; gives the reply if it is whole. -/
def readChunks (chunks : List (List UInt8)) (broken : Option String) :
    List Turn × Except Failure Reply :=
  let events := (feedAll [] chunks).1.filterMap StreamEvent.ofFrame?
  match Reply.empty.applyAll events, broken with
  | (turns, .error e), _ => (turns, .error e)
  | (turns, .ok _), some reason => (turns, .error (failure ("stream interrupted: " ++ reason)))
  | (turns, .ok r), none => (turns ++ r.closing, .ok r)

/-- Read a reply as turns; gives the text of the reply if it is whole. -/
def answer : Http.Reply → List Turn × Except Failure String
  | .unanswered reason => ([], .error (failure ("request failed: " ++ reason)))
  | .answered status chunks broken =>
    if Http.Reply.isSuccess status then
      let (turns, r) := readChunks chunks broken
      (turns, r.map (·.text))
    else
      let text := Http.Reply.bodyText chunks broken
      ([], .error ((failure ("API error (" ++ toString status ++ "): " ++ text)).withContext
        "status" (toString status)))

/-! ## Backend -/

/-- A Messages service: how it is asked, who answers, and how new sessions are called. -/
structure Service (ρ : Type) where
  config : Config
  peer : Http.Peer ρ
  /-- The id of the n-th session that is created, counted from one. -/
  newId : Nat → String

namespace Service

variable {ρ : Type}

/-- Take the answer to the prompt that waits. It belongs to the transcript only once it has been read
    to its end. -/
def stream (v : Service ρ) (s : Session) (st : State ρ) :
    Except Failure (TurnStream (State ρ)) × Session × State ρ :=
  if s.streamed then (Failure.raise (.streamConsumed (some s.id)), s, st)
  else
    match s.pending with
    | none => (.error (failure "stream requested before send"), s, st)
    | some prompt =>
      -- The prompt stays in the transcript even if no answer comes.
      let st := st.push s.id ⟨.user, prompt⟩
      let (reply, peer) := v.peer.exchange (request v.config s (st.transcript s.id)) st.peer
      let s := { s with pending := none, streamed := true }
      let st := { st with peer }
      let opened := (s.opening :: (answer reply).1).map fun t => (0, .ok t)
      match (answer reply).2 with
      | .error e => (.ok (.ofList id (opened ++ [(0, .error e)])), s, st)
      | .ok text => (.ok (.ofList (fun st => st.push s.id ⟨.assistant, text⟩) opened), s, st)

/-- The backend that asks the service. -/
def backend (v : Service ρ) : Backend (State ρ) Session where
  name := "messages"
  create args st :=
    let n := st.created + 1
    (.ok (.opened v.config args (v.newId n) false), { st with created := n })
  resume args id st := (.ok (.opened v.config args id true), st)
  sessionId s := some s.id
  send prompt s st := (.ok (), { s with pending := some prompt }, st)
  stream s st := v.stream s st
  close s st := (.ok (), { s with pending := none }, st)

end Service

end Playbook.Messages
