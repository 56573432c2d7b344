import Playbook.Backend.Basic
import Playbook.Text.Blank

/-!
# `Playbook.Backend.Echo` — a backend that answers with the prompt

## Contents
- **Sessions.** `EchoSession`, its `send` and `stream`.
- **Backend.** `Backend.echo`, whose state is the number of sessions that it has created.
-/

namespace Playbook

/-- A session that answers with its prompt. -/
structure EchoSession where
  /-- The id. -/
  id : String
  /-- Whether it was taken up again. -/
  resumed : Bool
  /-- The prompt that waits for its answer. -/
  prompt : Option String
  /-- Whether the answer has been taken. -/
  streamed : Bool
  /-- Whether it has been closed. -/
  closed : Bool
  deriving DecidableEq, Repr

namespace EchoSession

/-- A session that has just been opened. -/
def opened (id : String) (resumed : Bool) : EchoSession :=
  ⟨id, resumed, none, false, false⟩

/-- Keep the prompt, unless the session has been closed. -/
def send (s : EchoSession) (prompt : String) : Except Failure Unit × EchoSession :=
  if s.closed then (Failure.raise (.adapter "echo" "session is closed"), s)
  else (.ok (), { s with prompt := some prompt })

/-- The event that opens the answer. -/
def opening (s : EchoSession) : Event :=
  if s.resumed then .sessionResumed s.id else .sessionStarted s.id

/-- The answer to a prompt: the prompt itself as the result, at the cost of its words. -/
def reply (s : EchoSession) (prompt : String) : List Turn :=
  let words := UInt64.ofNat (Text.words prompt.toList).length
  [{ Turn.ofEvent s.opening with sessionId := some s.id },
   { Turn.ofText ("<result>\n" ++ prompt ++ "\n</result>") with
     usage := some ⟨some (s.id ++ "-reply"), words, words, 0⟩ }]

/-- Take the answer to the prompt that waits, or to an empty one. -/
def stream (s : EchoSession) : Except Failure (List Turn) × EchoSession :=
  if s.streamed then (Failure.raise (.streamConsumed (some s.id)), s)
  else (.ok (s.reply (s.prompt.getD "")), { s with prompt := none, streamed := true })

end EchoSession

namespace Backend

/-- The backend that answers with the prompt. Its sessions are numbered from one. -/
def echo : Backend Nat EchoSession where
  name := "echo"
  create _ n := (.ok (.opened ("echo-" ++ toString (n + 1)) false), n + 1)
  resume _ id n := (.ok (.opened id true), n)
  sessionId s := some s.id
  send prompt s n :=
    let (r, s) := s.send prompt
    (r, s, n)
  stream s n :=
    let (r, s) := s.stream
    (r.map TurnStream.ofTurns, s, n)
  close s n := (.ok (), { s with closed := true }, n)

end Backend

end Playbook
