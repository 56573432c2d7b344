import Playbook.Event.Basic
import Playbook.Text.Search

/-!
# `Playbook.Session.Tally` — what a session's stream adds up to

While a session's turns come in, a tally gathers its text, counts usage once for each message, lets an
artifact pass only once, and in the end gives the session's result.

## Contents
- **Results in text.** `resultSpan` finds the text between `<result>` and `</result>`.
- **Tallies.** `Tally`, `Tally.addText`, `Tally.countUsage`, `Tally.accept`, `Tally.finalResult`.
-/

namespace Playbook

open Text

/-- What opens a result. -/
def resultOpen : List Char := "<result>".toList

/-- What closes a result. -/
def resultClose : List Char := "</result>".toList

/-- The trimmed text between the first `<result>` and the first `</result>` after it. -/
def resultSpan (text : List Char) : Option (List Char) := do
  let (_, after) ← splitFirst resultOpen text
  let (span, _) ← splitFirst resultClose after
  return trim span

/-- What a stream has added up to so far. -/
structure Tally where
  /-- All of its text. -/
  text : String
  /-- The text of its first `result_text` event. -/
  resultText : Option String
  /-- The usage counted. -/
  usage : Usage
  /-- The messages whose usage is counted. -/
  seenMessages : List String
  /-- The keys of the artifacts that passed. -/
  seenArtifacts : List String

namespace Tally

/-- The tally of no turns. -/
def empty : Tally :=
  ⟨"", none, .zero, [], []⟩

/-- Add text. -/
def addText (t : Tally) (text : String) : Tally :=
  { t with text := t.text ++ text }

/-- Count usage, unless it belongs to a message whose usage is counted; says whether it was. -/
def recordUsage (t : Tally) (u : Usage) : Tally × Bool :=
  match u.messageId with
  | none => ({ t with usage := t.usage.add u }, true)
  | some id =>
    if t.seenMessages.contains id then (t, false)
    else ({ t with usage := t.usage.add u, seenMessages := id :: t.seenMessages }, true)

/-- Count the usage of a turn, if it has any; gives it back if it was counted. -/
def countUsage (t : Tally) : Option Usage → Tally × Option Usage
  | none => (t, none)
  | some u =>
    let (t, counted) := t.recordUsage u
    (t, if counted then some u else none)

/-- Keep the text of the first `result_text` event. -/
def noteResult (t : Tally) : Event → Tally
  | .resultText text =>
    match t.resultText with
    | none => { t with resultText := some text }
    | some _ => t
  | _ => t

/-- Let an event pass; says whether it does. An artifact passes once. -/
def accept (t : Tally) (e : Event) : Tally × Bool :=
  let t := t.noteResult e
  match e.artifactKey with
  | none => (t, true)
  | some key =>
    if t.seenArtifacts.contains key then (t, false)
    else ({ t with seenArtifacts := key :: t.seenArtifacts }, true)

/-- The result of the session: the text of a `result_text` event, else the marked part of its text,
    else all of its text without blanks at the ends. -/
def finalResult (t : Tally) : String :=
  match t.resultText with
  | some text => text
  | none =>
    match resultSpan t.text.toList with
    | some span => String.ofList span
    | none => trimmed t.text

end Tally

end Playbook
