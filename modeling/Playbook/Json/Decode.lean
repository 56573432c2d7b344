import Playbook.Json.Reader

/-!
# `Playbook.Json.Decode` — from JSON to typed values

A record is written as an object, or as the array of its fields in their order. `slots` finds what
was given for each field; the field readers then say what an absent field means. Members that the
record does not know are never looked at. A *tagged* value is a record with one member more, which
names the kind; it may be an array too, the tag first, and everything in it has to be readable.

## Contents
- **Records.** `Slot`, `slots` and the field readers `required`, `optional`, `optionalMember`,
  `withDefault`.
- **Tags.** `kindOf`, `tagged`.
- **Scalars.** `asString`, `asBool`, `asNat`, `listOf`, `mapOf`, `oneOf`, `anyValue`.
-/

namespace Playbook.Json

/-! ## Records -/

/-- What was given for a field of a record. -/
inductive Slot where
  | given (v : Json)
  /-- The object has no such member. -/
  | absent
  /-- The array ends before the field. -/
  | beyond

/-- Fill the fields from an array. -/
def slotsOfItems : List String → List Json → Option (List Slot)
  | [], [] => some []
  | [], _ :: _ => none
  | _ :: fields, [] => (slotsOfItems fields []).map (.beyond :: ·)
  | _ :: fields, v :: items => (slotsOfItems fields items).map (.given v :: ·)

/-- What an object gives for one field; nothing if it gives two values. -/
def slotOfMembers (members : List (String × Json)) (field : String) : Option Slot :=
  match members.filter (·.1 == field) with
  | [] => some .absent
  | [m] => some (.given m.2)
  | _ => none

/-- What a value gives for each field of a record. -/
def slots (fields : List String) : Json → Option (List Slot)
  | .arr items => slotsOfItems fields items
  | .obj members => fields.mapM (slotOfMembers members)
  | _ => none

/-- A field that must be given. -/
def required {α : Type} (f : Json → Option α) : Slot → Option α
  | .given v => f v
  | _ => none

/-- A field that may be left out or `null`. -/
def optional {α : Type} (f : Json → Option α) : Slot → Option (Option α)
  | .given .null => some none
  | .given v => (f v).map some
  | _ => some none

/-- A field that an object may leave out or give as `null`, and an array only the latter. -/
def optionalMember {α : Type} (f : Json → Option α) : Slot → Option (Option α)
  | .beyond => none
  | slot => optional f slot

/-- A field with a value of its own when left out. -/
def withDefault {α : Type} (default : α) (f : Json → Option α) : Slot → Option α
  | .given v => f v
  | _ => some default

/-! ## Tags -/

/-- The kind that a tag names. Inside another tagged value it may be a number, the place of the kind
    among all kinds. -/
def kindOf (kinds : List String) (inside : Bool) : Json → Option String
  | .str kind => some kind
  | .int n => if inside && 0 ≤ n then some (kinds.getD n.toNat "") else none
  | _ => none

/-- The kind of a tagged value, and the record without its tag. -/
def tagged (tag : String) (kinds : List String) (inside : Bool) (v : Json) :
    Option (String × Json) :=
  if v.readable then
    match v with
    | .arr (kind :: items) => (kindOf kinds inside kind).map (·, .arr items)
    | .obj members =>
      match members.filter (·.1 == tag) with
      | [(_, kind)] => (kindOf kinds inside kind).map (·, .obj (members.filter (·.1 != tag)))
      | _ => none
    | _ => none
  else none

/-! ## Scalars -/

/-- A string. -/
def asString : Json → Option String
  | .str s => some s
  | _ => none

/-- A truth value. -/
def asBool : Json → Option Bool
  | .bool b => some b
  | _ => none

/-- A natural number below a bound. -/
def asNat (bound : Nat) : Json → Option Nat
  | .int n => if 0 ≤ n && n < bound then some n.toNat else none
  | _ => none

/-- A 64-bit unsigned number. -/
def asUInt64 (v : Json) : Option UInt64 :=
  (asNat UInt64.size v).map UInt64.ofNat

/-- A 32-bit unsigned number. -/
def asUInt32 (v : Json) : Option UInt32 :=
  (asNat UInt32.size v).map UInt32.ofNat

/-- An array of like items. -/
def listOf {α : Type} (f : Json → Option α) : Json → Option (List α)
  | .arr items => items.mapM f
  | _ => none

/-- An object used as a map; of equal keys the last one counts. -/
def mapOf {α : Type} (f : Json → Option α) : Json → Option (KeyMap α)
  | .obj members => (members.mapM fun m => (f m.2).map (m.1, ·)).map KeyMap.ofList
  | _ => none

/-- Any value, in normal form. -/
def anyValue (v : Json) : Option Json :=
  if v.readable then some v.normalize else none

/-- One of a few named values: its name, or an object with the name as its only key and `null`, or
    inside a tagged value also an empty object, as the value. -/
def oneOf {α : Type} (names : List (String × α)) (inTagged : Bool) : Json → Option α
  | .str s => (names.find? (·.1 == s)).map (·.2)
  | .obj [(s, .null)] => (names.find? (·.1 == s)).map (·.2)
  | .obj [(s, .obj [])] => if inTagged then (names.find? (·.1 == s)).map (·.2) else none
  | _ => none

end Playbook.Json
