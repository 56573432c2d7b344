import Playbook.Json.Token

/-!
# `Playbook.Json.Reader` — reading JSON text

The tokens of a text are read one by one against a stack of the arrays and objects that are open.
`readTree` keeps the members of objects as they stand, repeated keys and all; `parse` is for text
that is wanted as a plain value, and gives it in normal form.

Arrays and objects nested deeper than `depthLimit` have no value. Neither has a number beyond the
doubles or a string with an unpaired surrogate; `parse` refuses a text with any of these.

## Contents
- **Stack.** `Frame`, `Want`, `State`.
- **Steps.** `complete` hands a finished value to the innermost open container, `step` reads one
  token.
- **Reading.** `readTree`, `parse`.
-/

namespace Playbook.Json

/-- The greatest number of arrays and objects inside each other. -/
def depthLimit : Nat := 127

/-! ## Stack -/

/-- An open array or object, with what it holds so far, last first. -/
inductive Frame where
  | arr (items : List Json)
  /-- The members so far, and the key whose value is to come. A key without a value of its own
      leaves the object without one too, and is kept as nothing. -/
  | obj (members : List (String × Json)) (broken : Bool) (key : String)

/-- What may come next. -/
inductive Want where
  | value
  | itemOrEnd
  | keyOrEnd
  | key
  | colon
  | commaOrEnd

/-- How far reading has come. -/
inductive State where
  | reading (want : Want) (stack : List Frame)
  | finished (v : Json)

/-! ## Steps -/

/-- Hand a finished value to the innermost open container. -/
def complete (v : Json) : List Frame → State
  | [] => .finished v
  | .arr items :: stack => .reading .commaOrEnd (.arr (v :: items) :: stack)
  | .obj members broken key :: stack =>
    .reading .commaOrEnd (.obj ((key, v) :: members) broken key :: stack)

/-- A container that has just ended, with the stack around it: it has no value if it stands too
    deep. -/
def closed (v : Json) (stack : List Frame) : State :=
  complete (if stack.length < depthLimit then v else .void) stack

/-- The value of an ended object. -/
def ofMembers (members : List (String × Json)) (broken : Bool) : Json :=
  if broken then .void else .obj members.reverse

/-- Read a token where a value may stand. -/
def stepValue (stack : List Frame) : Token → Option State
  | .openArr => some (.reading .itemOrEnd (.arr [] :: stack))
  | .openObj => some (.reading .keyOrEnd (.obj [] false "" :: stack))
  | .str (some s) => some (complete (.str s) stack)
  | .str none => some (complete .void stack)
  | .scalar v => some (complete v stack)
  | _ => none

/-- Read a token where a key must stand. -/
def stepKey (stack : List Frame) (token : Token) : Option State :=
  match token, stack with
  | .str (some s), .obj members broken _ :: stack =>
    some (.reading .colon (.obj members broken s :: stack))
  -- The object is well formed, and yet has no value from here on.
  | .str none, .obj members _ _ :: stack => some (.reading .colon (.obj members true "" :: stack))
  | _, _ => none

/-- Read one token. -/
def step (token : Token) : State → Option State
  | .finished _ => none
  | .reading want stack =>
    match want, token, stack with
    | .itemOrEnd, .closeArr, .arr items :: stack => some (closed (.arr items.reverse) stack)
    | .commaOrEnd, .closeArr, .arr items :: stack => some (closed (.arr items.reverse) stack)
    | .commaOrEnd, .comma, .arr items :: stack => some (.reading .value (.arr items :: stack))
    | .keyOrEnd, .closeObj, .obj members broken _ :: stack =>
      some (closed (ofMembers members broken) stack)
    | .commaOrEnd, .closeObj, .obj members broken _ :: stack =>
      some (closed (ofMembers members broken) stack)
    | .commaOrEnd, .comma, .obj members broken key :: stack =>
      some (.reading .key (.obj members broken key :: stack))
    | .colon, .colon, stack => some (.reading .value stack)
    | .value, token, stack => stepValue stack token
    | .itemOrEnd, token, stack => stepValue stack token
    | .key, token, stack => stepKey stack token
    | .keyOrEnd, token, stack => stepKey stack token
    | _, _, _ => none

/-- Read tokens from a state. -/
def run (state : State) : List Token → Option State
  | [] => some state
  | token :: rest =>
    match step token state with
    | none => none
    | some state => run state rest

/-! ## Reading -/

/-- The value of a text, members as they stand and `void` where a literal has no value. -/
def readTree (text : String) : Option Json :=
  match (tokens text.toList).bind (run (.reading .value [])) with
  | some (.finished v) => some v
  | _ => none

/-- The value of a text, in normal form. -/
def parse (text : String) : Option Json :=
  match readTree text with
  | some v => if v.readable then some v.normalize else none
  | none => none

end Playbook.Json
