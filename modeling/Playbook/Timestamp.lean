/-!
# `Playbook.Timestamp` — points in time and their text

A point in time is counted in seconds from the start of 1970 in UTC, and nanoseconds. Its text is the date
and time of day with the offset `+00:00`; the fraction of a second has the fewest of 0, 3, 6 or 9 digits
that show all of it.

## Contents
- **The type.** `Timestamp`, `Timestamp.ofParts?`, `Timestamp.ofMillis`.
- **Dates.** `civil` turns a day number into year, month and day.
- **Text.** `Timestamp.text`.
-/

namespace Playbook

/-- A point in time. -/
structure Timestamp where
  /-- Seconds since the start of 1970. -/
  seconds : Int
  /-- Nanoseconds; 10^9 and more stand for a leap second. -/
  nanos : Nat
  deriving DecidableEq, Repr

namespace Timestamp

/-- The seconds for which a date is known: from the first of the year -262143 to the last of the year 262142. -/
def knownSeconds (seconds : Int) : Bool :=
  -8334601228800 ≤ seconds && seconds ≤ 8210266876799

/-- The point in time of some seconds and nanoseconds, if its date is known. A leap second stands only at the end of a
    minute. -/
def ofParts? (seconds nanos : Int) : Option Timestamp :=
  if knownSeconds seconds && 0 ≤ nanos &&
      (nanos < 1000000000 || (nanos < 2000000000 && seconds % 60 = 59)) then
    some ⟨seconds, nanos.toNat⟩
  else none

/-- A point in time in milliseconds since the start of 1970. -/
def ofMillis (ms : Nat) : Timestamp :=
  ⟨(ms / 1000 : Nat), ms % 1000 * 1000000⟩

/-- Year, month and day of the Gregorian calendar for a number of days since the start of 1970. The
    calendar repeats itself every 400 years, which are counted from the first of March. -/
def civil (days : Int) : Int × Nat × Nat :=
  let z := days + 719468
  let era := z / 146097
  let ofEra := (z % 146097).toNat
  let yearOfEra := (ofEra - ofEra / 1460 + ofEra / 36524 - ofEra / 146096) / 365
  let ofYear := ofEra - (365 * yearOfEra + yearOfEra / 4 - yearOfEra / 100)
  let fromMarch := (5 * ofYear + 2) / 153
  let day := ofYear - (153 * fromMarch + 2) / 5 + 1
  let month := if fromMarch < 10 then fromMarch + 3 else fromMarch - 9
  (era * 400 + yearOfEra + (if month ≤ 2 then 1 else 0), month, day)

/-- A number with zeros before it up to a number of digits. -/
def padded (width n : Nat) : String :=
  let digits := toString n
  String.ofList (List.replicate (width - digits.length) '0') ++ digits

/-- A year: four digits from 0 to 9999, else a sign and at least four digits. -/
def yearText (year : Int) : String :=
  if 0 ≤ year ∧ year ≤ 9999 then padded 4 year.toNat
  else (if year < 0 then "-" else "+") ++ padded 4 year.natAbs

/-- The fraction of a second. -/
def fractionText (nanos : Nat) : String :=
  if nanos = 0 then ""
  else if nanos % 1000000 = 0 then "." ++ padded 3 (nanos / 1000000)
  else if nanos % 1000 = 0 then "." ++ padded 6 (nanos / 1000)
  else "." ++ padded 9 nanos

/-- The text of a point in time. -/
def text (t : Timestamp) : String :=
  let (year, month, day) := civil (t.seconds / 86400)
  let second := (t.seconds % 86400).toNat
  let (leap, nanos) := if t.nanos ≥ 1000000000 then (1, t.nanos - 1000000000) else (0, t.nanos)
  yearText year ++ "-" ++ padded 2 month ++ "-" ++ padded 2 day ++ "T" ++
    padded 2 (second / 3600) ++ ":" ++ padded 2 (second / 60 % 60) ++ ":" ++
    padded 2 (second % 60 + leap) ++ fractionText nanos ++ "+00:00"

example : text ⟨951827696, 123456789⟩ = "2000-02-29T12:34:56.123456789+00:00" := by decide +kernel
example : text ⟨-62135596801, 0⟩ = "0000-12-31T23:59:59+00:00" := by decide +kernel

end Timestamp

end Playbook
