import Playbook.Event.Json
import Playbook.Text.Search

/-!
# `Playbook.Event.Marker` — events written into replies

An agent reports events by writing them into its reply, each as JSON between `<event>` and `</event>`.
What stands between the marks without being an event is kept as raw data: as the JSON value that it
denotes, else as text.

## Contents
- **Marks.** `openMark`, `closeMark`.
- **Reading.** `bodies` finds what stands between marks, `ofBody` reads one of them, `Event.inline` all.
-/

namespace Playbook.Event

open Text

/-- What opens an event. -/
def openMark : List Char := "<event>".toList

/-- What closes an event. -/
def closeMark : List Char := "</event>".toList

/-- The texts between the marks: each from the first opening mark to the closing mark after it, the
    next search starting behind that. -/
def bodies (text : List Char) : List (List Char) :=
  match _h : splitFirst openMark text with
  | none => []
  | some (_, after) =>
    match _h' : splitFirst closeMark after with
    | none => []
    | some (body, rest) => body :: bodies rest
termination_by text.length
decreasing_by
  have h1 := splitFirst_length _h
  have h2 := splitFirst_length _h'
  have : openMark.length = 7 := rfl
  omega

/-- The event that a text between marks denotes. -/
def ofBody (body : List Char) : Event :=
  let text := String.ofList (trim body)
  -- First as an event, then as any value, at last as it stands.
  match Event.parse? text with
  | some event => event
  | none =>
    match Json.parse text with
    | some data => .raw data
    | none => .raw (.str text)

/-- The events written into a reply, in order. -/
def inline (text : String) : List Event :=
  (bodies text.toList).map ofBody

end Playbook.Event
