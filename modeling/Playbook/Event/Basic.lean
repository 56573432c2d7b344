import Playbook.Json.Basic

/-!
# `Playbook.Event.Basic` — what agents report

A session's backend may use any form of its own; what leaves it is one of the kinds of event below.
An event that is sent on is put into an envelope that says where it comes from.

## Contents
- **Parts of events.** `LogLevel`, `StepStatus`, `TodoAction`, `FileAction`, `CheckpointAction`.
- **Events.** `Event`, its `kind`, and the `artifactKey` by which artifacts are told apart.
- **Usage.** `Usage` and its sums.
- **Envelopes.** `Envelope`.
-/

namespace Playbook

/-! ## Parts of events -/

/-- How much a log line matters. -/
inductive LogLevel where
  | debug
  | info
  | warn
  | error
  deriving DecidableEq, Repr

/-- How far a step has come. -/
inductive StepStatus where
  | started
  | completed
  | failed
  deriving DecidableEq, Repr

/-- What happened to a to-do item. -/
inductive TodoAction where
  | add
  | update
  | complete
  deriving DecidableEq, Repr

/-- What happened to a file. -/
inductive FileAction where
  | opened
  | read
  | created
  | edited
  | deleted
  | moved
  | copied
  | mkdir
  | rmdir
  deriving DecidableEq, Repr

/-- What happened to a checkpoint. -/
inductive CheckpointAction where
  | create
  | restore
  | drop
  deriving DecidableEq, Repr

/-! ## Events -/

/-- Something that an agent did. -/
inductive Event where
  | sessionStarted (sessionId : String)
  | sessionResumed (sessionId : String)
  | log (level : LogLevel) (message : String)
  | step (status : StepStatus) (name : String) (detail : Option String)
  | todo (action : TodoAction) (id : String) (text : Option String)
  | artifact (name path contentRef mime : Option String)
  /-- The last part is where a moved or copied file went. -/
  | file (action : FileAction) (path : String) (destination : Option String)
  | checkpoint (action : CheckpointAction) (name : String)
  | resultText (text : String)
  | thinking (text : String)
  /-- Anything else, as JSON in normal form. -/
  | raw (data : Json)
  deriving Repr, BEq

namespace Event

/-- The name of an event's kind. -/
def kind : Event → String
  | sessionStarted _ => "session_started"
  | sessionResumed _ => "session_resumed"
  | log _ _ => "log"
  | step _ _ _ => "step"
  | todo _ _ _ => "todo"
  | artifact _ _ _ _ => "artifact"
  | file _ _ _ => "file"
  | checkpoint _ _ => "checkpoint"
  | resultText _ => "result_text"
  | thinking _ => "thinking"
  | raw _ => "raw"

/-- What tells artifacts apart: the content reference, else the path, else the name. -/
def artifactKey : Event → Option String
  | artifact name path contentRef _ => contentRef <|> path <|> name
  | _ => none

/-- The session id that an event announces. -/
def announced : Event → Option String
  | sessionStarted id => some id
  | sessionResumed id => some id
  | _ => none

end Event

/-! ## Usage -/

/-- The tokens that a message cost. -/
structure Usage where
  /-- The message, if it has an id; usage is counted once for each. -/
  messageId : Option String
  /-- Tokens read. -/
  inputTokens : UInt64
  /-- Tokens written. -/
  outputTokens : UInt64
  /-- Tokens read from a cache. -/
  cacheReadTokens : UInt64
  deriving DecidableEq, Repr

namespace Usage

/-- No tokens. -/
def zero : Usage :=
  ⟨none, 0, 0, 0⟩

/-- Add the tokens of another usage. -/
def add (total u : Usage) : Usage :=
  { total with
    inputTokens := total.inputTokens + u.inputTokens
    outputTokens := total.outputTokens + u.outputTokens
    cacheReadTokens := total.cacheReadTokens + u.cacheReadTokens }

/-- Tokens read and written. -/
def total (u : Usage) : UInt64 :=
  u.inputTokens + u.outputTokens

end Usage

/-! ## Envelopes -/

/-- The version of envelopes and batches. -/
def eventVersion : UInt32 := 1

/-- An event on its way to the collector. -/
structure Envelope where
  version : UInt32
  runId : String
  programHash : String
  principalId : String
  agentName : String
  sessionId : Option String
  /-- The number of the event in its run, counted from one. -/
  seq : UInt64
  /-- When it was reported. -/
  timestamp : String
  event : Event
  /-- The usage first counted with it. -/
  usage : Option Usage
  deriving Repr, BEq

end Playbook
