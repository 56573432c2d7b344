import Playbook.Decimal.Binary64
import Playbook.KeyMap

/-!
# `Playbook.Json.Basic` — JSON values

## Contents
- **The type.** `Json`, with the members of an object in the order in which they stand.
- **Normal form.** `normalize` sorts the members of every object by key and keeps the last of equal
  keys, so that two texts that denote the same value have one normal form.
- **Access.** `get?`, `Json.ofOption`, and builders for objects with optional members.

A value read from text may hold `void` where a literal is well formed and yet denotes nothing;
`readable` says that none is left.
-/

namespace Playbook

open Decimal

/-- A JSON value. -/
inductive Json where
  | null
  | bool (b : Bool)
  | int (n : Int)
  | float (x : Binary64)
  | str (s : String)
  | arr (items : List Json)
  | obj (members : List (String × Json))
  /-- A well-formed literal without a value: a number beyond the range of doubles, a string with an
      unpaired surrogate, an array or object nested too deeply. It may stand only where nothing
      reads it. -/
  | void
  deriving Repr, BEq, Inhabited

namespace Json

/-! ## Normal form -/

/-- Members sorted by key; of equal keys the last one counts. -/
def sortMembers (members : List (String × Json)) : List (String × Json) :=
  KeyMap.ofList members

mutual

/-- The value with the members of every object sorted by key, each key once. -/
def normalize : Json → Json
  | .arr items => .arr (normalizeAll items)
  | .obj members => .obj (sortMembers (normalizeMembers members))
  | v => v

/-- `normalize` for each item of an array. -/
def normalizeAll : List Json → List Json
  | [] => []
  | v :: rest => normalize v :: normalizeAll rest

/-- `normalize` for the value of each member of an object. -/
def normalizeMembers : List (String × Json) → List (String × Json)
  | [] => []
  | (k, v) :: rest => (k, normalize v) :: normalizeMembers rest

end

/-! ## Access -/

mutual

/-- Whether the value holds no `void`. -/
def readable : Json → Bool
  | .void => false
  | .arr items => readableAll items
  | .obj members => readableMembers members
  | _ => true

/-- Whether every item is readable. -/
def readableAll : List Json → Bool
  | [] => true
  | v :: rest => readable v && readableAll rest

/-- Whether the value of every member is readable. -/
def readableMembers : List (String × Json) → Bool
  | [] => true
  | (_, v) :: rest => readable v && readableMembers rest

end

/-- The value of the last member with a key. -/
def get? (v : Json) (key : String) : Option Json :=
  match v with
  | .obj members => (members.reverse.find? (·.1 == key)).map (·.2)
  | _ => none

/-- A natural number as a value. -/
def nat (n : Nat) : Json :=
  .int n

/-- An optional value, `null` when absent. -/
def ofOption {α : Type} (f : α → Json) : Option α → Json
  | none => .null
  | some a => f a

/-- A member that is left out when its value is absent. -/
def present {α : Type} (key : String) (f : α → Json) : Option α → List (String × Json)
  | none => []
  | some a => [(key, f a)]

end Json

end Playbook
