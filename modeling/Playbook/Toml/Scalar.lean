import Playbook.Json.Token
import Playbook.Text.Search

/-!
# `Playbook.Toml.Scalar` — numbers, truth values and dates of TOML

Values other than strings, arrays and tables are words without blanks in them, apart from one that may stand between a
date and a time of day. Each is read as a JSON value. Numbers that are no finite double have none and are read as
`void`; a date is read as an object, since it is neither a number nor a text.

## Contents
- **Digits.** `digitGroup?`, `valueOf`.
- **Integers.** `integer?`, in 64 bits.
- **Floats.** `float?`.
- **Dates.** `isDate`, `isTime`, `isMoment`.
- **Any word.** `scalar?`.
-/

namespace Playbook.Toml

open Decimal (Binary64)

/-! ## Digits -/

/-- The digits of a group in which single underscores may stand between digits. -/
def digitGroup? (p : Char → Bool) (text : List Char) : Option (List Char) :=
  let pieces := Text.splitOn '_' text
  if pieces.all fun piece => !piece.isEmpty && piece.all p then some pieces.flatten else none

/-- The value of digits in a base up to 16. -/
def valueOf (base : Nat) (digits : List Char) : Nat :=
  digits.foldl (fun n c => n * base + (Text.Hex.value? c).getD 0) 0

/-- The digits of a decimal number without a sign, which has no zero before other digits. -/
def wholeDigits? (text : List Char) : Option (List Char) :=
  (digitGroup? (·.isDigit) text).filter fun digits => digits.length = 1 || digits.head? ≠ some '0'

/-- A sign, if there is one, and the text after it. -/
def splitSign : List Char → Bool × List Char
  | '-' :: rest => (true, rest)
  | '+' :: rest => (false, rest)
  | text => (false, text)

/-! ## Integers -/

/-- A number, if it fits 64 bits, sign included. -/
def bounded? (n : Int) : Option Int :=
  if Int64.minValue.toInt ≤ n ∧ n ≤ Int64.maxValue.toInt then some n else none

/-- An integer in a base that its second character names. -/
def basedInteger? (base : Nat) (text : List Char) : Option Int :=
  (digitGroup? (fun c => (Text.Hex.value? c).any (· < base)) text).bind fun digits =>
    bounded? (valueOf base digits)

/-- An integer. -/
def integer? : List Char → Option Int
  | '0' :: 'x' :: rest => basedInteger? 16 rest
  | '0' :: 'o' :: rest => basedInteger? 8 rest
  | '0' :: 'b' :: rest => basedInteger? 2 rest
  | text =>
    let (negative, body) := splitSign text
    (wholeDigits? body).bind fun digits =>
      let n : Int := valueOf 10 digits
      bounded? (if negative then -n else n)

/-! ## Floats -/

/-- The most decimal places, before or after the point, that are looked at. -/
def placeLimit : Nat := 400

/-- The double nearest to a decimal number, or nothing beyond the doubles. -/
def nearest (negative : Bool) (digits : List Char) (exponent : Int) : Option Binary64 :=
  let significant := digits.dropWhile (· == '0')
  let n := valueOf 10 significant
  let place := significant.length + exponent
  if significant = [] || place < -(placeLimit : Int) then some (.zero negative)
  else if place > placeLimit then none
  else if exponent ≥ 0 then Binary64.ofRatio negative (n * Nat.pow 10 exponent.toNat) 1
  else Binary64.ofRatio negative n (Nat.pow 10 (-exponent).toNat)

/-- The part after the exponent's mark. -/
def exponent? (text : List Char) : Option Int :=
  let (negative, body) := splitSign text
  (digitGroup? (·.isDigit) body).map fun digits =>
    let n : Int := valueOf 10 digits
    if negative then -n else n

/-- Cut at the first character that satisfies `p`, which belongs to neither part. -/
def cutAt (p : Char → Bool) (text : List Char) : List Char × Option (List Char) :=
  match text.dropWhile (!p ·) with
  | [] => (text, none)
  | _ :: rest => (text.takeWhile (!p ·), some rest)

/-- The double of a number with a fraction or an exponent, or nothing for one that would be infinite;
    of these only a negative one is allowed. -/
def decimal? (negative : Bool) (body : List Char) : Option (Option Binary64) := do
  let (mantissa, scale) := cutAt (fun c => c == 'e' || c == 'E') body
  let (whole, fraction) := cutAt (· == '.') mantissa
  let digits ← wholeDigits? whole
  let fractionDigits ← fraction.elim (some []) (digitGroup? (·.isDigit))
  let exponent ← scale.elim (some 0) exponent?
  if fraction.isNone && scale.isNone then none
  else
    match nearest negative (digits ++ fractionDigits) (exponent - fractionDigits.length) with
    | some x => some (some x)
    | none => if negative then some none else none

/-- A float: a double, or nothing if it is not finite. -/
def float? (text : List Char) : Option (Option Binary64) :=
  let (negative, body) := splitSign text
  if body = "inf".toList || body = "nan".toList then some none else decimal? negative body

/-! ## Dates -/

/-- The value of a number of digits. -/
def fixedDigits? (count : Nat) (text : List Char) : Option Nat :=
  if text.length = count && text.all (·.isDigit) then some (valueOf 10 text) else none

/-- Whether a text is a number of two digits up to a bound. -/
def isTwoDigits (greatest : Nat) (text : List Char) : Bool :=
  (fixedDigits? 2 text).any (· ≤ greatest)

/-- How many days a month has. -/
def daysOf (year month : Nat) : Nat :=
  if month = 2 then
    if year % 4 = 0 && (year % 100 ≠ 0 || year % 400 = 0) then 29 else 28
  else if [4, 6, 9, 11].contains month then 30
  else 31

/-- Whether a text is a date. -/
def isDate (text : List Char) : Bool :=
  match Text.splitOn '-' text with
  | [year, month, day] =>
    match fixedDigits? 4 year, fixedDigits? 2 month, fixedDigits? 2 day with
    | some year, some month, some day =>
      1 ≤ month && month ≤ 12 && 1 ≤ day && day ≤ daysOf year month
    | _, _, _ => false
  | _ => false

/-- Whether a text is a time of day. The last minute may have a leap second. -/
def isTime (text : List Char) : Bool :=
  let (clock, fraction) := cutAt (· == '.') text
  (match Text.splitOn ':' clock with
    | [hour, minute, second] =>
      isTwoDigits 23 hour && isTwoDigits 59 minute && isTwoDigits 60 second
    | _ => false) &&
  fraction.all fun digits => !digits.isEmpty && digits.all (·.isDigit)

/-- Whether a text is an offset without its sign. -/
def isOffset (text : List Char) : Bool :=
  match Text.splitOn ':' text with
  | [hour, minute] => isTwoDigits 23 hour && isTwoDigits 59 minute
  | _ => false

/-- Whether a text is a time of day, with or without an offset. -/
def isZonedTime (text : List Char) : Bool :=
  let (time, offset) := cutAt (fun c => c == '+' || c == '-') text
  match offset with
  | some offset => isTime time && isOffset offset
  | none =>
    match time.getLast? with
    | some 'Z' => isTime time.dropLast
    | some 'z' => isTime time.dropLast
    | _ => isTime time

/-- Whether a text is a date, a time of day, or both with a separator between them. -/
def isMoment (text : List Char) : Bool :=
  isDate text || isTime text ||
  match text.drop 10 with
  | [] => false
  | separator :: rest =>
    ['T', 't', ' '].contains separator && isDate (text.take 10) && isZonedTime rest

/-- A date or time as a value. -/
def moment? (text : List Char) : Option Json :=
  if isMoment text then some (.obj [("moment", .str (String.ofList text))]) else none

/-! ## Any word -/

/-- The value of a word. -/
def scalar? (text : List Char) : Option Json :=
  if text = "true".toList then some (.bool true)
  else if text = "false".toList then some (.bool false)
  else
    moment? text <|> (float? text).map (·.elim .void .float) <|> (integer? text).map .int

example : integer? "0xdead_BEEF".toList = some 3735928559 := by decide +kernel
example : ["-0", "9223372036854775807", "-9223372036854775808"].map (integer? ·.toList)
    = [some 0, some Int64.maxValue.toInt, some Int64.minValue.toInt] := by decide +kernel
example : float? "5_0.25e-1".toList = some (Binary64.ofRatio false 5025 1000) := by decide +kernel
example : ["01", "1__0", "_1", "1.", ".5", "0x", "9223372036854775808", "1e999", "1979-02-29"].all
    fun word => (scalar? word.toList).isNone := by decide +kernel
example : ["1e5", "-1e999", "+nan", "1979-05-27", "07:32:00.5", "1979-05-27T07:32:60-07:00",
    "2000-02-29 00:00:00z"].all fun word => (scalar? word.toList).isSome := by decide +kernel

end Playbook.Toml
