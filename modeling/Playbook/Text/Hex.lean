/-!
# `Playbook.Text.Hex` — bytes as hexadecimal digits

Bytes are written with two lower-case digits each and read in either case. Reading what was written
gives the bytes back (`decode_encode`).

## Contents
- **Digits.** `digit` and `value?`.
- **Bytes.** `encode`, `decode`.
-/

namespace Playbook.Text.Hex

/-- The lower-case digit of a value below sixteen. -/
def digit (n : Nat) : Char :=
  "0123456789abcdef".toList.getD n '0'

/-- The value of a digit of either case. -/
def value? (c : Char) : Option Nat :=
  if '0' ≤ c && c ≤ '9' then some (c.toNat - '0'.toNat)
  else if 'a' ≤ c && c ≤ 'f' then some (c.toNat - 'a'.toNat + 10)
  else if 'A' ≤ c && c ≤ 'F' then some (c.toNat - 'A'.toNat + 10)
  else none

/-- Two digits for each byte. -/
def encode : List UInt8 → List Char
  | [] => []
  | b :: rest => digit (b.toNat / 16) :: digit (b.toNat % 16) :: encode rest

/-- Read digits in pairs; refuses an odd number of them and any other character. -/
def decode : List Char → Option (List UInt8)
  | [] => some []
  | [_] => none
  | a :: b :: rest => do
    let high ← value? a
    let low ← value? b
    let bytes ← decode rest
    return UInt8.ofNat (high * 16 + low) :: bytes

theorem value?_digit : ∀ n < 16, value? (digit n) = some n := by decide

/-- Written bytes read back. -/
theorem decode_encode (bytes : List UInt8) : decode (encode bytes) = some bytes := by
  induction bytes with
  | nil => rfl
  | cons b rest ih =>
    have hb : b.toNat < 256 := b.toNat_lt
    have hbyte : UInt8.ofNat (b.toNat / 16 * 16 + b.toNat % 16) = b := by
      rw [Nat.div_add_mod']
      exact UInt8.ofNat_toNat
    simp only [encode, decode, value?_digit _ (by omega : b.toNat / 16 < 16),
      value?_digit _ (by omega : b.toNat % 16 < 16), ih]
    show some (UInt8.ofNat (b.toNat / 16 * 16 + b.toNat % 16) :: rest) = _
    rw [hbyte]

end Playbook.Text.Hex
