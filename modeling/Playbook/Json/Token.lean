import Playbook.Json.Basic
import Playbook.Text.Hex

/-!
# `Playbook.Json.Token` — the tokens of JSON text

JSON text is cut into tokens one character at a time: a `Mode` says inside which token the last
character left the scanner, and `scan` goes from mode to mode. White space between tokens is space,
tab, line feed and carriage return.

## Contents
- **Numbers.** `Number.ofChars?` reads a literal: an integer if it has neither point nor exponent
  and fits 64 bits, else a double.
- **Strings.** `joinUnits` puts code units together, a surrogate pair to one character.
- **Tokens.** `Token`, `Mode`, `scan`, `tokens`.
-/

namespace Playbook.Json

open Decimal

/-! ## Numbers -/

namespace Number

/-- The value of a decimal digit. -/
def digitValue (c : Char) : Nat :=
  c.toNat - '0'.toNat

/-- A number greater than every significand. -/
def significandBound : Nat := UInt64.size

/-- Take digits into a significand as long as it stays below the bound; gives the significand, how
    many digits it took, and the rest. -/
def takeDigits (significand taken : Nat) : List Char → Nat × Nat × List Char
  | [] => (significand, taken, [])
  | c :: rest =>
    let next := significand * 10 + digitValue c
    if next < significandBound then takeDigits next (taken + 1) rest
    else (significand, taken, c :: rest)

/-- The value of an exponent's digits. -/
def exponentValue (digits : List Char) : Nat :=
  digits.foldl (fun n c => n * 10 + digitValue c) 0

/-- The greatest exponent that is not taken for infinite. -/
def exponentBound : Nat := 2147483647

/-- The parts of a well-formed number literal. -/
structure Parts where
  /-- Whether a minus sign stands before it. -/
  negative : Bool
  /-- The digits before the point. -/
  whole : List Char
  /-- The digits after the point, if there is one. -/
  fraction : Option (List Char)
  /-- The exponent's sign (whether it is negative) and digits, if there is one. -/
  exponent : Option (Bool × List Char)

/-- Read an optional exponent, up to the end. -/
def exponentPart? : List Char → Option (Option (Bool × List Char))
  | [] => some none
  | e :: rest =>
    if e = 'e' || e = 'E' then
      let (negative, digits) :=
        match rest with
        | '+' :: digits => (false, digits)
        | '-' :: digits => (true, digits)
        | digits => (false, digits)
      if digits ≠ [] && digits.all (·.isDigit) then some (some (negative, digits)) else none
    else none

/-- Cut a literal into its parts: no leading zeros, digits on both sides of a point. -/
def parts? (literal : List Char) : Option Parts :=
  let (negative, body) :=
    match literal with
    | '-' :: body => (true, body)
    | body => (false, body)
  let whole := body.takeWhile (·.isDigit)
  let rest := body.dropWhile (·.isDigit)
  if whole = [] || (whole.length > 1 && whole.head? == some '0') then none
  else
    match rest with
    | '.' :: rest =>
      let fraction := rest.takeWhile (·.isDigit)
      if fraction = [] then none
      else (exponentPart? (rest.dropWhile (·.isDigit))).map fun exponent =>
        ⟨negative, whole, some fraction, exponent⟩
    | rest => (exponentPart? rest).map fun exponent => ⟨negative, whole, none, exponent⟩

/-- The double that the parts denote. The leading digits that fit 64 bits make the significand; the
    digits after them count only as places. -/
def Parts.double (p : Parts) : Option Binary64 :=
  let (significand, taken, _) := takeDigits 0 0 p.whole
  let places : Int := p.whole.length - taken
  let fraction := p.fraction.getD []
  let (significand, taken, _) := takeDigits significand 0 fraction
  let places := places - taken
  match p.exponent with
  | none => Binary64.ofDecimal p.negative significand places
  | some (negative, digits) =>
    let exponent := exponentValue digits
    if exponent > exponentBound then
      -- So great an exponent leaves zero or nothing, whatever the digits are.
      if significand = 0 || negative then some (Binary64.zero p.negative) else none
    else
      Binary64.ofDecimal p.negative significand
        (if negative then places - exponent else places + exponent)

/-- The value of a literal: an integer from -2^63 to 2^64 - 1 if it has neither point nor exponent,
    else a double; `void` for a double beyond the greatest, nothing for an ill-formed literal. -/
def ofChars? (literal : List Char) : Option Json :=
  (parts? literal).map fun p =>
    let n := exponentValue p.whole
    let isInt := p.fraction.isNone && p.exponent.isNone &&
      (if p.negative then 0 < n && Int64.minValue.toInt ≤ -n else n < UInt64.size)
    if isInt then .int (if p.negative then -n else n)
    else (p.double.map Json.float).getD .void

end Number

/-! ## Strings -/

/-- Put code units together: a high surrogate and the low one after it make one character, and no
    other surrogate may occur. The result is built with its last character first. -/
def joinUnitsFrom (chars : List Char) : List Nat → Option (List Char)
  | [] => some chars.reverse
  | u :: rest =>
    if 0xD800 ≤ u && u < 0xDC00 then
      match rest with
      | v :: rest =>
        if 0xDC00 ≤ v && v < 0xE000 then
          joinUnitsFrom (Char.ofNat (0x10000 + (u - 0xD800) * 0x400 + (v - 0xDC00)) :: chars) rest
        else none
      | [] => none
    else if 0xDC00 ≤ u && u < 0xE000 then none
    else joinUnitsFrom (Char.ofNat u :: chars) rest

/-- The string of a list of code units. -/
def joinUnits (units : List Nat) : Option String :=
  (joinUnitsFrom [] units).map String.ofList

/-- The character that a one-letter escape stands for. -/
def shortEscape? (c : Char) : Option Char :=
  match c with
  | '"' => some '"'
  | '\\' => some '\\'
  | '/' => some '/'
  | 'b' => some '\x08'
  | 'f' => some '\x0c'
  | 'n' => some '\n'
  | 'r' => some '\r'
  | 't' => some '\t'
  | _ => none

/-! ## Tokens -/

/-- A token. -/
inductive Token where
  | openArr
  | closeArr
  | openObj
  | closeObj
  | comma
  | colon
  /-- A string; nothing if it holds an unpaired surrogate. -/
  | str (s : Option String)
  /-- A number or one of the three words. -/
  | scalar (v : Json)
  deriving BEq

/-- Inside which token the scanner stands. What was read of it has its last part first. -/
inductive Mode where
  | between
  | word (chars : List Char)
  | number (chars : List Char)
  | inString (units : List Nat)
  | escape (units : List Nat)
  | hex (units : List Nat) (value count : Nat)

/-- The token of a word. -/
def word? (chars : List Char) : Option Token :=
  if chars = "null".toList then some (.scalar .null)
  else if chars = "true".toList then some (.scalar (.bool true))
  else if chars = "false".toList then some (.scalar (.bool false))
  else none

/-- Whether a character can belong to a number. -/
def isNumberChar (c : Char) : Bool :=
  c.isDigit || c == '-' || c == '+' || c == '.' || c == 'e' || c == 'E'

/-- Whether a character can belong to a word. -/
def isWordChar (c : Char) : Bool :=
  'a' ≤ c && c ≤ 'z'

/-- Whether a character may stand between tokens. -/
def isSpace (c : Char) : Bool :=
  c == ' ' || c == '\n' || c == '\t' || c == '\r'

/-- Read a character between tokens: the tokens so far, last first, and the new mode. -/
def begin (done : List Token) (c : Char) : Option (List Token × Mode) :=
  if isSpace c then some (done, .between)
  else
    match c with
    | '[' => some (.openArr :: done, .between)
    | ']' => some (.closeArr :: done, .between)
    | '\x7b' => some (.openObj :: done, .between)
    | '\x7d' => some (.closeObj :: done, .between)
    | ',' => some (.comma :: done, .between)
    | ':' => some (.colon :: done, .between)
    | '"' => some (done, .inString [])
    | c =>
      if isWordChar c then some (done, .word [c])
      else if isNumberChar c then some (done, .number [c])
      else none

/-- Read one character in a mode. -/
def read (done : List Token) (c : Char) : Mode → Option (List Token × Mode)
  | .between => begin done c
  | .word chars =>
    if isWordChar c then some (done, .word (c :: chars))
    else do begin ((← word? chars.reverse) :: done) c
  | .number chars =>
    if isNumberChar c then some (done, .number (c :: chars))
    else do begin (.scalar (← Number.ofChars? chars.reverse) :: done) c
  | .inString units =>
    if c = '"' then some (.str (joinUnits units.reverse) :: done, .between)
    else if c = '\\' then some (done, .escape units)
    else if c.toNat < 0x20 then none
    else some (done, .inString (c.toNat :: units))
  | .escape units =>
    if c = 'u' then some (done, .hex units 0 0)
    else (shortEscape? c).map fun e => (done, .inString (e.toNat :: units))
  | .hex units value count =>
    (Text.Hex.value? c).map fun digit =>
      let value := value * 16 + digit
      (done, if count = 3 then .inString (value :: units) else .hex units value (count + 1))

/-- The tokens at the end of the text. -/
def finish (done : List Token) : Mode → Option (List Token)
  | .between => some done.reverse
  | .word chars => do return ((← word? chars.reverse) :: done).reverse
  | .number chars => do return (.scalar (← Number.ofChars? chars.reverse) :: done).reverse
  | _ => none

/-- Read the rest of a text from a mode. -/
def scan (done : List Token) (mode : Mode) : List Char → Option (List Token)
  | [] => finish done mode
  | c :: rest =>
    match read done c mode with
    | none => none
    | some (done, mode) => scan done mode rest

/-- The tokens of a text. -/
def tokens (text : List Char) : Option (List Token) :=
  scan [] .between text

end Playbook.Json
