import Playbook.Failure.Kind

/-!
# `Playbook.Failure.Basic` — failures and their texts

A failure has a kind, a message, a status, the operation that raised it, facts about it as pairs of
texts in the order in which they were added, and possibly the text of a deeper failure.

## Contents
- **The type.** `Failure`, `Failure.ofKind`.
- **Builders.** `withOperation`, `withContext`, `withStatus`, `withSource`, `persist`.
- **Texts.** `display` is one line for a log, `describe` several lines for a reader.
-/

namespace Playbook

/-- What went wrong. -/
structure Failure where
  /-- The kind. -/
  kind : Failure.Kind
  /-- What a reader is told; a program that catches the failure binds this text. -/
  message : String
  /-- Whether trying again may help. -/
  status : Failure.Status
  /-- The operation that raised it, empty when none is known. -/
  operation : String
  /-- Facts about it, in the order in which they were added. -/
  context : List (String × String)
  /-- The text of the failure behind it. -/
  source : Option String
  deriving DecidableEq, Repr

namespace Failure

/-- A failure of a kind, with the status that goes with the kind. -/
def ofKind (kind : Kind) (message : String) : Failure where
  kind
  message
  status := if kind.isRetryable then .temporary else .permanent
  operation := ""
  context := []
  source := none

/-! ## Builders -/

/-- Add a fact. -/
def withContext (f : Failure) (key value : String) : Failure :=
  { f with context := f.context ++ [(key, value)] }

/-- Name the operation. One named before stays among the facts as `called`. -/
def withOperation (f : Failure) (operation : String) : Failure :=
  let f := if f.operation = "" then f else f.withContext "called" f.operation
  { f with operation }

/-- Set the status. -/
def withStatus (f : Failure) (status : Status) : Failure :=
  { f with status }

/-- Name the failure behind this one. -/
def withSource (f : Failure) (source : String) : Failure :=
  { f with source := some source }

/-- Note that trying again did not help. -/
def persist (f : Failure) : Failure :=
  { f with status := f.status.persist }

/-- The first value under a key among the facts. -/
def contextValue (f : Failure) (key : String) : Option String :=
  (f.context.find? (·.1 == key)).map (·.2)

/-- Whether a program's own `try` may handle the failure. -/
def isCatchable (f : Failure) : Bool :=
  f.kind.isCatchable

/-! ## Texts -/

/-- The first words of either text. -/
def heading (f : Failure) : String :=
  f.kind.name ++ " (" ++ f.status.name ++ ") at " ++ f.operation

/-- The failure on one line. -/
def display (f : Failure) : String :=
  let facts := f.context.map fun fact => fact.1 ++ ": " ++ fact.2
  f.heading ++
    (if facts.isEmpty then "" else ", context \x7b " ++ ", ".intercalate facts ++ " \x7d") ++
    (if f.message = "" then "" else " => " ++ f.message)

/-- The failure on several lines, with a blank line before each part. -/
def describe (f : Failure) : String :=
  let facts := f.context.map fun fact => "        " ++ fact.1 ++ ": " ++ fact.2 ++ "\n"
  f.heading ++ "\n" ++
    (if f.message = "" then "" else "\n    Message: " ++ f.message ++ "\n") ++
    (if facts.isEmpty then "" else "\n    Context:\n" ++ String.join facts) ++
    (match f.source with
      | none => ""
      | some source => "\n    Source: " ++ source ++ "\n")

end Failure

end Playbook
