import Playbook.Decimal.Binary64

/-!
# `Playbook.Decimal.Shortest` — the fewest digits that read back

The decimal text of a double holds the fewest significant digits that still identify it: of all
decimals with that many digits in the interval of reals that round to the double, the nearest.

## Contents
- **The interval.** `Interval` and `Binary64.interval`.
- **Digits.** `shortest` tries the two decimal neighbours of the value with one digit, two digits,
  and so on.
-/

namespace Playbook.Decimal

/-- The reals that round to a double, as fractions over one denominator. The ends belong to it iff
    the mantissa is even. -/
structure Interval where
  /-- Numerator of the lower end. -/
  low : Nat
  /-- Numerator of the double itself. -/
  value : Nat
  /-- Numerator of the upper end. -/
  high : Nat
  /-- The common denominator. -/
  den : Nat
  /-- Whether the ends round to the double. -/
  closed : Bool

/-- The reals that round to the magnitude of `x`. The lower half is half as wide at a power of
    two, where the doubles below lie closer together. -/
def Binary64.interval (x : Binary64) : Interval :=
  let unit := 1 <<< x.exponent.toNat
  let narrow := x.mantissa = Binary64.leastFull ∧ x.exponent > -1074
  { low := 4 * x.mantissa * unit - (if narrow then unit else 2 * unit)
    value := 4 * x.mantissa * unit
    high := 4 * x.mantissa * unit + 2 * unit
    den := 4 <<< (-x.exponent).toNat
    closed := x.mantissa % 2 = 0 }

namespace Interval

/-- Whether `digits · 10^place` lies in the interval. -/
def holds (i : Interval) (digits : Nat) (place : Int) : Bool :=
  let num := digits * Nat.pow 10 place.toNat * i.den
  let scale := Nat.pow 10 (-place).toNat
  if i.closed then i.low * scale ≤ num && num ≤ i.high * scale
  else i.low * scale < num && num < i.high * scale

/-- The greatest multiple of `10^place` that is not above the value, in units of `10^place`. -/
def floorAt (i : Interval) (place : Int) : Nat :=
  i.value * Nat.pow 10 (-place).toNat / (i.den * Nat.pow 10 place.toNat)

/-- Twice the distance from the value down to its floor, compared with one unit: `lt` when the
    floor is the nearer neighbour. -/
def compareHalf (i : Interval) (place : Int) : Ordering :=
  let den := i.den * Nat.pow 10 place.toNat
  compare (2 * (i.value * Nat.pow 10 (-place).toNat % den)) den

/-- The neighbour on the grid of `10^place` that lies in the interval, the nearer one if both do. -/
def neighbour? (i : Interval) (place : Int) : Option Nat :=
  let below := i.floorAt place
  match i.holds below place, i.holds (below + 1) place with
  | false, false => none
  | true, false => some below
  | false, true => some (below + 1)
  | true, true =>
    match i.compareHalf place with
    | .lt => some below
    | .gt => some (below + 1)
    | .eq => some (if below % 2 = 0 then below else below + 1)

/-- Try finer and finer grids; `tries` bounds their number. -/
def search (i : Interval) (place : Int) : Nat → Nat × Int
  | 0 => (i.floorAt place, place)
  | tries + 1 =>
    match i.neighbour? place with
    | some digits => (digits, place)
    | none => search i (place - 1) tries

end Interval

/-- A power of ten with more digits than the integer part of the value has. -/
def magnitude (i : Interval) : Int :=
  ((i.value.log2 : Int) - i.den.log2) * 30103 / 100000 + 1

/-- Drop trailing zeros of the digits, raising the place for each; `tries` bounds their number. -/
def dropZeros (digits : Nat) (place : Int) : Nat → Nat × Int
  | 0 => (digits, place)
  | tries + 1 =>
    if digits ≠ 0 && digits % 10 = 0 then dropZeros (digits / 10) (place + 1) tries
    else (digits, place)

/-- The shortest decimal `digits · 10^place` that reads back as the magnitude of `x`; the digits of
    zero are a single zero. -/
def shortest (x : Binary64) : Nat × Int :=
  if x.mantissa = 0 then (0, 0)
  else
    let i := x.interval
    -- Seventeen digits always suffice, and the first grids may lie above the value.
    let (digits, place) := i.search (magnitude i) 25
    dropZeros digits place 25

end Playbook.Decimal
