import Playbook.Backend.Basic
import Playbook.KeyMap
import Playbook.Text.Search

/-!
# `Playbook.Backend.Rehearsal` — a backend that plays given parts

A rehearsal tries out a program without any agent: a part says for each task how its session goes, down to
failures and delays. The backend notes every call.

## Contents
- **Parts.** `Part`; `Part.turnsFor` gives a task without turns of its own a plain answer.
- **Calls.** `RehearsalCall`.
- **Backend.** `Rehearsal` is the state, `Backend.rehearsal` the backend.
-/

namespace Playbook

/-- How a session goes. -/
structure Part where
  /-- The session's id, if it is not simply numbered. -/
  id : Option String
  /-- Whether the session keeps its id to itself. -/
  withholdsId : Bool
  /-- The failure to open it. -/
  openFailure : Option Failure
  /-- The failure to send it a prompt. -/
  sendFailure : Option Failure
  /-- The failure to take its answer. -/
  streamFailure : Option Failure
  /-- The failure to close it. -/
  closeFailure : Option Failure
  /-- Its answer, with the milliseconds before each turn. -/
  turns : Option (List (Nat × Except Failure Turn))

namespace Part

/-- A session of which nothing is given. -/
def plain : Part := ⟨none, false, none, none, none, none, none⟩

/-- A session's answer. Without one that is given, a task that starts with `fail` fails, and any other
    is answered with its title. -/
def turnsFor (p : Part) (title id : String) : List (Nat × Except Failure Turn) :=
  match p.turns with
  | some turns => turns
  | none =>
    if Text.startsWith title.toList "fail".toList then
      [(0, .error (.ofKind .adapterFailed (title ++ " broke")))]
    else
      [(0, .ok (.ofEvent (.sessionStarted id))),
       (0, .ok { Turn.ofText ("<result>" ++ title ++ "</result>") with sessionId := some id })]

end Part

/-- A call that the backend notes. -/
inductive RehearsalCall where
  /-- A session is opened, anew or with the id of one that is taken up again. -/
  | begin (args : SessionArgs) (resumed : Option String)
  | send (title prompt : String)
  | close (title : String)
  deriving Repr

/-- The parts, and what has happened so far. -/
structure Rehearsal where
  /-- The parts for each task, for its sessions one after another; the last one goes on. -/
  parts : KeyMap (List Part)
  /-- How many sessions have been opened for each task. -/
  opened : KeyMap Nat
  /-- How many sessions have been numbered. -/
  numbered : Nat
  /-- The calls, last first. -/
  calls : List RehearsalCall

/-- A session of a rehearsal. -/
structure RehearsalSession where
  title : String
  id : String
  part : Part

namespace Rehearsal

/-- The rehearsal before the first call. -/
def ofParts (parts : KeyMap (List Part)) : Rehearsal :=
  ⟨parts, [], 0, []⟩

/-- Note a call. -/
def note (r : Rehearsal) (call : RehearsalCall) : Rehearsal :=
  { r with calls := call :: r.calls }

/-- The part that the next session for a task plays. -/
def nextPart (r : Rehearsal) (title : String) : Part :=
  match r.parts.get? title with
  | none => .plain
  | some parts => (parts[(r.opened.get? title).getD 0]? <|> parts.getLast?).getD .plain

/-- Open a session. -/
def begin (r : Rehearsal) (args : SessionArgs) (resumed : Option String) :
    Except Failure RehearsalSession × Rehearsal :=
  let part := r.nextPart args.title
  let r := r.note (.begin args resumed)
  let r := { r with opened := r.opened.insert args.title ((r.opened.get? args.title).getD 0 + 1) }
  match part.openFailure with
  | some f => (.error f, r)
  | none =>
    match part.id <|> resumed with
    | some id => (.ok ⟨args.title, id, part⟩, r)
    | none =>
      let n := r.numbered + 1
      (.ok ⟨args.title, "s-" ++ toString n, part⟩, { r with numbered := n })

/-- The outcome of a call that fails as a part says. -/
def outcome : Option Failure → Except Failure Unit
  | none => .ok ()
  | some f => .error f

end Rehearsal

namespace Backend

/-- The backend of a rehearsal. -/
def rehearsal : Backend Rehearsal RehearsalSession where
  name := "scripted"
  create args r := r.begin args none
  resume args id r := r.begin args (some id)
  sessionId s := if s.part.withholdsId then none else some s.id
  send prompt s r := (Rehearsal.outcome s.part.sendFailure, s, r.note (.send s.title prompt))
  stream s r :=
    match s.part.streamFailure with
    | some f => (.error f, s, r)
    | none => (.ok (.ofList id (s.part.turnsFor s.title s.id)), s, r)
  close s r := (Rehearsal.outcome s.part.closeFailure, s, r.note (.close s.title))

end Backend

end Playbook
