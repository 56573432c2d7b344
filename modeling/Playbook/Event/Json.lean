import Playbook.Event.Basic
import Playbook.Json.Decode

/-!
# `Playbook.Event.Json` — events as JSON

An event is an object tagged with its kind under `type`. Usage and envelopes are plain objects. What is
absent is left out.

## Contents
- **Names.** The words for levels, statuses and actions.
- **Writing.** `Event.toJson`, `Usage.toJson`, `Envelope.toJson`.
- **Reading.** `Event.ofJson?`, `Usage.ofJson?`, `Envelope.ofJson?`, and `Event.parse?` for text.
-/

namespace Playbook

open Json (present slots required optional withDefault tagged asString asUInt32 asUInt64 oneOf
  anyValue)

/-! ## Names -/

/-- The words for levels. -/
def LogLevel.names : List (String × LogLevel) :=
  [("debug", .debug), ("info", .info), ("warn", .warn), ("error", .error)]

/-- The words for statuses. -/
def StepStatus.names : List (String × StepStatus) :=
  [("started", .started), ("completed", .completed), ("failed", .failed)]

/-- The words for what happens to to-do items. -/
def TodoAction.names : List (String × TodoAction) :=
  [("add", .add), ("update", .update), ("complete", .complete)]

/-- The words for what happens to files. -/
def FileAction.names : List (String × FileAction) :=
  [("opened", .opened), ("read", .read), ("created", .created), ("edited", .edited),
   ("deleted", .deleted), ("moved", .moved), ("copied", .copied), ("mkdir", .mkdir),
   ("rmdir", .rmdir)]

/-- The words for what happens to checkpoints. -/
def CheckpointAction.names : List (String × CheckpointAction) :=
  [("create", .create), ("restore", .restore), ("drop", .drop)]

/-- The word for a value. -/
def nameIn {α : Type} [BEq α] (names : List (String × α)) (a : α) : String :=
  ((names.find? (·.2 == a)).map (·.1)).getD ""

/-- The word for a value, as JSON. -/
def nameJson {α : Type} [BEq α] (names : List (String × α)) (a : α) : Json :=
  .str (nameIn names a)

/-! ## Writing -/

/-- The members of an event besides its tag. -/
def Event.members : Event → List (String × Json)
  | .sessionStarted id => [("session_id", .str id)]
  | .sessionResumed id => [("session_id", .str id)]
  | .log level message => [("level", nameJson LogLevel.names level), ("message", .str message)]
  | .step status name detail =>
    [("status", nameJson StepStatus.names status), ("name", .str name)] ++
      present "detail" .str detail
  | .todo action id text =>
    [("action", nameJson TodoAction.names action), ("id", .str id)] ++ present "text" .str text
  | .artifact name path contentRef mime =>
    present "name" .str name ++ present "path" .str path ++
      present "contentRef" .str contentRef ++ present "mime" .str mime
  | .file action path destination =>
    [("op", nameJson FileAction.names action), ("path", .str path)] ++
      present "to" .str destination
  | .checkpoint action name =>
    [("action", nameJson CheckpointAction.names action), ("name", .str name)]
  | .resultText text => [("text", .str text)]
  | .thinking text => [("text", .str text)]
  | .raw data => [("data", data)]

/-- An event as a tagged object. -/
def Event.toJson (e : Event) : Json :=
  .obj (("type", .str e.kind) :: e.members)

/-- A number of tokens. -/
def tokensJson (n : UInt64) : Json :=
  .nat n.toNat

/-- Usage as an object. -/
def Usage.toJson (u : Usage) : Json :=
  .obj (present "messageId" .str u.messageId ++
    [("inputTokens", tokensJson u.inputTokens), ("outputTokens", tokensJson u.outputTokens),
     ("cacheReadTokens", tokensJson u.cacheReadTokens)])

/-- An envelope as an object. -/
def Envelope.toJson (e : Envelope) : Json :=
  .obj ([("v", .nat e.version.toNat), ("runId", .str e.runId), ("programHash", .str e.programHash),
    ("principalId", .str e.principalId), ("agentName", .str e.agentName)] ++
    present "sessionId" .str e.sessionId ++
    [("seq", .nat e.seq.toNat), ("ts", .str e.timestamp), ("event", e.event.toJson)] ++
    present "usage" Usage.toJson e.usage)

/-! ## Reading -/

/-- Read the record of one kind of event. -/
def Event.ofRecord? (kind : String) (v : Json) : Option Event :=
  match kind with
  | "session_started" =>
    match slots ["session_id"] v with
    | some [id] => (required asString id).map .sessionStarted
    | _ => none
  | "session_resumed" =>
    match slots ["session_id"] v with
    | some [id] => (required asString id).map .sessionResumed
    | _ => none
  | "log" =>
    match slots ["level", "message"] v with
    | some [level, message] => do
      return .log (← required (oneOf LogLevel.names true) level) (← required asString message)
    | _ => none
  | "step" =>
    match slots ["status", "name", "detail"] v with
    | some [status, name, detail] => do
      return .step (← required (oneOf StepStatus.names true) status) (← required asString name)
        (← optional asString detail)
    | _ => none
  | "todo" =>
    match slots ["action", "id", "text"] v with
    | some [action, id, text] => do
      return .todo (← required (oneOf TodoAction.names true) action) (← required asString id)
        (← optional asString text)
    | _ => none
  | "artifact" =>
    match slots ["name", "path", "contentRef", "mime"] v with
    | some [name, path, contentRef, mime] => do
      return .artifact (← optional asString name) (← optional asString path)
        (← optional asString contentRef) (← optional asString mime)
    | _ => none
  | "file" =>
    match slots ["op", "path", "to"] v with
    | some [action, path, destination] => do
      return .file (← required (oneOf FileAction.names true) action) (← required asString path)
        (← optional asString destination)
    | _ => none
  | "checkpoint" =>
    match slots ["action", "name"] v with
    | some [action, name] => do
      return .checkpoint (← required (oneOf CheckpointAction.names true) action)
        (← required asString name)
    | _ => none
  | "result_text" =>
    match slots ["text"] v with
    | some [text] => (required asString text).map .resultText
    | _ => none
  | "thinking" =>
    match slots ["text"] v with
    | some [text] => (required asString text).map .thinking
    | _ => none
  | "raw" =>
    match slots ["data"] v with
    | some [data] => (required anyValue data).map .raw
    | _ => none
  | _ => none

/-- The kinds of events. -/
def Event.kinds : List String :=
  ["session_started", "session_resumed", "log", "step", "todo", "artifact", "file", "checkpoint",
   "result_text", "thinking", "raw"]

/-- An event from a tagged object. -/
def Event.ofJson? (v : Json) : Option Event :=
  (tagged "type" Event.kinds false v).bind fun t => Event.ofRecord? t.1 t.2

/-- The event that a text denotes. -/
def Event.parse? (text : String) : Option Event :=
  (Json.readTree text).bind Event.ofJson?

/-- Usage from an object. -/
def Usage.ofJson? (v : Json) : Option Usage :=
  match slots ["messageId", "inputTokens", "outputTokens", "cacheReadTokens"] v with
  | some [messageId, input, output, cacheRead] => do
    return { messageId := ← optional asString messageId
             inputTokens := ← required asUInt64 input
             outputTokens := ← required asUInt64 output
             cacheReadTokens := ← withDefault 0 asUInt64 cacheRead }
  | _ => none

/-- An envelope from an object. -/
def Envelope.ofJson? (v : Json) : Option Envelope :=
  match slots ["v", "runId", "programHash", "principalId", "agentName", "sessionId", "seq", "ts",
      "event", "usage"] v with
  | some [version, runId, programHash, principalId, agentName, sessionId, seq, timestamp, event,
      usage] => do
    return { version := ← required asUInt32 version
             runId := ← required asString runId
             programHash := ← required asString programHash
             principalId := ← required asString principalId
             agentName := ← required asString agentName
             sessionId := ← optional asString sessionId
             seq := ← required asUInt64 seq
             timestamp := ← required asString timestamp
             event := ← required Event.ofJson? event
             usage := ← optional Usage.ofJson? usage }
  | _ => none

end Playbook
