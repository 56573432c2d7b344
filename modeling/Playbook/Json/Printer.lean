import Playbook.Decimal.Shortest
import Playbook.Json.Basic
import Playbook.Text.Hex

/-!
# `Playbook.Json.Printer` — writing JSON

Values are written in two layouts. The compact one has no white space. The indented one puts each
item or member on its own line, two spaces deeper than its container, and writes an empty container
in two characters. Members stand in the order of the value; the *canonical* text of a value is the
compact text of its normal form.

## Contents
- **Numbers.** `FloatFormat` holds the decisions on the text of a double; `floatFormat` is the one
  used here.
- **Strings.** `escape` and `quoted`.
- **Layouts.** `compact`, `indented`, `canonical`.
-/

namespace Playbook

open Decimal Text

/-- How the shortest digits of a double are laid out. -/
structure FloatFormat where
  /-- The least decimal exponent written without an exponent part. -/
  leastPlain : Int
  /-- The first decimal exponent above those written without an exponent part. -/
  firstScaled : Int
  /-- What ends an integral number without an exponent part. -/
  integralEnd : List Char
  /-- What opens a nonnegative exponent. -/
  positiveMark : List Char
  /-- What opens a negative exponent. -/
  negativeMark : List Char

namespace Json

/-- Doubles are written out from 1e-5 up to below 1e16, an integral one with `.0`; the others have
    one digit before the point and a signed exponent. -/
def floatFormat : FloatFormat :=
  ⟨-5, 16, ['.', '0'], ['e', '+'], ['e', '-']⟩

/-- The decimal digits of a natural number. -/
def digitsOf (n : Nat) : List Char :=
  Nat.toDigits 10 n

/-- A decimal integer. -/
def intText : Int → List Char
  | .ofNat n => digitsOf n
  | .negSucc n => '-' :: digitsOf (n + 1)

/-- Lay out `digits · 10^place`. -/
def layoutDecimal (format : FloatFormat) (digits : Nat) (place : Int) : List Char :=
  let text := digitsOf digits
  let scientific := place + text.length - 1
  if scientific < format.leastPlain || format.firstScaled ≤ scientific then
    let mantissa :=
      match text with
      | first :: second :: rest => first :: '.' :: second :: rest
      | short => short
    mantissa ++
      (if scientific < 0 then format.negativeMark else format.positiveMark) ++
      digitsOf scientific.natAbs
  else if place ≥ 0 then
    text ++ List.replicate place.toNat '0' ++ format.integralEnd
  else if scientific ≥ 0 then
    text.take (scientific.toNat + 1) ++ '.' :: text.drop (scientific.toNat + 1)
  else
    '0' :: '.' :: List.replicate (-scientific - 1).toNat '0' ++ text

/-- The text of a double. -/
def floatText (x : Binary64) : List Char :=
  let (digits, place) := shortest x
  (if x.negative then ['-'] else []) ++ layoutDecimal floatFormat digits place

/-! ## Strings -/

/-- One character of a string: quote, backslash and control characters are escaped, the latter by
    their short form if they have one. -/
def escape (c : Char) : List Char :=
  if c = '"' then ['\\', '"']
  else if c = '\\' then ['\\', '\\']
  else if c.toNat < 0x20 then
    if c.toNat = 8 then ['\\', 'b']
    else if c.toNat = 9 then ['\\', 't']
    else if c.toNat = 10 then ['\\', 'n']
    else if c.toNat = 12 then ['\\', 'f']
    else if c.toNat = 13 then ['\\', 'r']
    else ['\\', 'u', '0', '0', Hex.digit (c.toNat / 16), Hex.digit (c.toNat % 16)]
  else [c]

/-- A string between quotes. -/
def quoted (s : String) : List Char :=
  '"' :: s.toList.flatMap escape ++ ['"']

/-! ## Layouts -/

/-- The text of a value that is neither array nor object. -/
def scalarText : Json → List Char
  | .null => "null".toList
  | .bool true => "true".toList
  | .bool false => "false".toList
  | .int n => intText n
  | .float x => floatText x
  | .str s => quoted s
  | _ => "null".toList

mutual

/-- The text of a value without white space. -/
def compactChars : Json → List Char
  | .arr items => '[' :: compactItems items ++ [']']
  | .obj members => '\x7b' :: compactMembers members ++ ['\x7d']
  | v => scalarText v

/-- The items of an array, with commas between them. -/
def compactItems : List Json → List Char
  | [] => []
  | [v] => compactChars v
  | v :: w :: rest => compactChars v ++ ',' :: compactItems (w :: rest)

/-- The members of an object, with commas between them. -/
def compactMembers : List (String × Json) → List Char
  | [] => []
  | [(k, v)] => quoted k ++ ':' :: compactChars v
  | (k, v) :: m :: rest => quoted k ++ ':' :: compactChars v ++ ',' :: compactMembers (m :: rest)

end

/-- A line end and the indentation of a depth. -/
def newLine (depth : Nat) : List Char :=
  '\n' :: List.replicate (2 * depth) ' '

mutual

/-- The text of a value at a depth, with every item and member on a line of its own. -/
def indentedChars (depth : Nat) : Json → List Char
  | .arr [] => ['[', ']']
  | .arr (v :: rest) =>
    '[' :: indentedItems (depth + 1) (v :: rest) ++ newLine depth ++ [']']
  | .obj [] => ['\x7b', '\x7d']
  | .obj (m :: rest) =>
    '\x7b' :: indentedMembers (depth + 1) (m :: rest) ++ newLine depth ++ ['\x7d']
  | v => scalarText v

/-- The items of an array, each on its line. -/
def indentedItems (depth : Nat) : List Json → List Char
  | [] => []
  | [v] => newLine depth ++ indentedChars depth v
  | v :: w :: rest =>
    newLine depth ++ indentedChars depth v ++ ',' :: indentedItems depth (w :: rest)

/-- The members of an object, each on its line. -/
def indentedMembers (depth : Nat) : List (String × Json) → List Char
  | [] => []
  | [(k, v)] => newLine depth ++ quoted k ++ ':' :: ' ' :: indentedChars depth v
  | (k, v) :: m :: rest =>
    newLine depth ++ quoted k ++ ':' :: ' ' :: indentedChars depth v ++
      ',' :: indentedMembers depth (m :: rest)

end

/-- The compact text of a value. -/
def compact (v : Json) : String :=
  String.ofList (compactChars v)

/-- The indented text of a value. -/
def indented (v : Json) : String :=
  String.ofList (indentedChars 0 v)

/-- The canonical text of a value: compact, with the members of every object sorted by key. -/
def canonical (v : Json) : String :=
  compact (normalize v)

end Json

end Playbook
