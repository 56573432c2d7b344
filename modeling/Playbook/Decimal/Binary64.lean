/-!
# `Playbook.Decimal.Binary64` — finite double-precision numbers

A finite double is a sign, a mantissa below 2^53 and a power of two. All arithmetic here is exact
arithmetic on natural numbers followed by one rounding to the nearest double, ties to the even
mantissa.

## Contents
- **The type.** `Binary64`.
- **Rounding.** `roundDiv` rounds a quotient of naturals to an integer; `ofRatio` rounds one to a
  double.
- **Arithmetic.** `mul` and `div` on magnitudes, and `powerOfTen`.
- **Reading.** `ofDecimal` scales a significand by a power of ten.
-/

namespace Playbook.Decimal

/-- A finite double: `mantissa · 2^exponent`, negated when `negative` holds. -/
structure Binary64 where
  /-- Whether the sign bit is set; zero has a sign too. -/
  negative : Bool
  /-- The mantissa, below 2^53, and at least 2^52 unless the exponent is the least one. -/
  mantissa : Nat
  /-- The power of two, from -1074 to 971. -/
  exponent : Int
  deriving DecidableEq, Repr

namespace Binary64

/-- Zero with the given sign. -/
def zero (negative : Bool) : Binary64 :=
  ⟨negative, 0, -1074⟩

/-- The least mantissa of full precision, 2^52. -/
def leastFull : Nat := 1 <<< 52

/-! ## Rounding -/

/-- The integer nearest to `num / den`, a tie going to the even one. -/
def roundDiv (num den : Nat) : Nat :=
  let quotient := num / den
  let twice := 2 * (num % den)
  if twice > den || (twice == den && quotient % 2 == 1) then quotient + 1 else quotient

/-- Round `num · 2^shift / den` to an integer. -/
def roundScaled (num den : Nat) (shift : Int) : Nat :=
  if shift ≥ 0 then roundDiv (num <<< shift.toNat) den
  else roundDiv num (den <<< (-shift).toNat)

/-- The double nearest to `num / den`, or nothing when that is beyond the largest one. -/
def ofRatio (negative : Bool) (num den : Nat) : Option Binary64 :=
  if num = 0 then some (zero negative)
  else
    -- Scaled by the guess the quotient lies between 2^51 and 2^53.
    let guess : Int := (num.log2 : Int) - den.log2 - 52
    let exponent := if roundScaled num den (-guess) < leastFull then guess - 1 else guess
    -- Below the least exponent doubles lose precision instead.
    let exponent := max exponent (-1074)
    let mantissa := roundScaled num den (-exponent)
    -- Rounding up may have reached the next power of two.
    let (mantissa, exponent) :=
      if mantissa = 2 * leastFull then (leastFull, exponent + 1) else (mantissa, exponent)
    if exponent > 971 then none else some ⟨negative, mantissa, exponent⟩

/-- The numerator of the magnitude as a fraction. -/
def numerator (x : Binary64) : Nat :=
  x.mantissa <<< x.exponent.toNat

/-- The denominator of the magnitude as a fraction. -/
def denominator (x : Binary64) : Nat :=
  1 <<< (-x.exponent).toNat

/-! ## Arithmetic -/

/-- The product, with the sign of the first factor. -/
def mul (x y : Binary64) : Option Binary64 :=
  ofRatio x.negative (x.numerator * y.numerator) (x.denominator * y.denominator)

/-- The quotient, with the sign of the dividend. -/
def div (x y : Binary64) : Option Binary64 :=
  ofRatio x.negative (x.numerator * y.denominator) (x.denominator * y.numerator)

/-- The double nearest to `10^n`. -/
def powerOfTen (n : Nat) : Option Binary64 :=
  ofRatio false (Nat.pow 10 n) 1

/-! ## Reading -/

/-- The greatest exponent of ten that one scaling step may take. -/
def scaleLimit : Nat := 308

/-- Divide by `10^n`, in steps of at most `scaleLimit` decimal places, each step rounded; `steps`
    bounds their number. -/
def divByPower (x : Binary64) (n : Nat) : Nat → Option Binary64
  | 0 => some x
  | steps + 1 =>
    if n ≤ scaleLimit then (powerOfTen n).bind x.div
    else if x.mantissa = 0 then some x
    else do
      let ten ← powerOfTen scaleLimit
      let y ← x.div ten
      divByPower y (n - scaleLimit) steps

/-- The double read from `significand · 10^exponent`: the significand is rounded first, and the
    result of each scaling after it. Beyond the largest double there is no value. -/
def ofDecimal (negative : Bool) (significand : Nat) (exponent : Int) : Option Binary64 := do
  let x ← ofRatio negative significand 1
  if exponent ≥ 0 then
    if exponent.toNat ≤ scaleLimit then (← powerOfTen exponent.toNat) |> x.mul
    else if x.mantissa = 0 then some x
    else none
  else
    divByPower x (-exponent).toNat ((-exponent).toNat / scaleLimit + 1)

example : ofRatio false 1 10 = some ⟨false, 7205759403792794, -56⟩ := by decide
example : ofDecimal false 5 (-324) = some ⟨false, 1, -1074⟩ := by decide +kernel

end Binary64

end Playbook.Decimal
