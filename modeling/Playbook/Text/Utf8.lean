/-!
# `Playbook.Text.Utf8` — reading bytes as text

Bytes that arrive from a network or a file need not be well-formed UTF-8. `decode` reads well-formed
bytes only; `decodeLossy` reads any bytes and writes U+FFFD for each ill-formed part, a part being a
longest start of a character's bytes that cannot be completed.

## Contents
- **One character.** `Lead` says what a first byte promises; `lead?` is the table of well-formed
  sequences.
- **Whole texts.** `decodeLossy` and `decode`.
-/

namespace Playbook.Text.Utf8

/-- What the first byte of a longer character says: how many bytes follow, the range of the byte
    after it, and the high bits that it gives. -/
structure Lead where
  /-- Bytes still to come. -/
  more : Nat
  /-- The least value of the next byte. -/
  least : UInt8
  /-- The greatest value of the next byte. -/
  greatest : UInt8
  /-- The bits that the first byte contributes. -/
  bits : Nat

/-- What a byte promises as the first of a character of two to four bytes. The narrower ranges keep
    out overlong forms, surrogates and values beyond the last code point. -/
def lead? (b : UInt8) : Option Lead :=
  if 0xC2 ≤ b && b ≤ 0xDF then some ⟨1, 0x80, 0xBF, b.toNat - 0xC0⟩
  else if b = 0xE0 then some ⟨2, 0xA0, 0xBF, 0⟩
  else if b = 0xED then some ⟨2, 0x80, 0x9F, 0xD⟩
  else if 0xE1 ≤ b && b ≤ 0xEF then some ⟨2, 0x80, 0xBF, b.toNat - 0xE0⟩
  else if b = 0xF0 then some ⟨3, 0x90, 0xBF, 0⟩
  else if 0xF1 ≤ b && b ≤ 0xF3 then some ⟨3, 0x80, 0xBF, b.toNat - 0xF0⟩
  else if b = 0xF4 then some ⟨3, 0x80, 0x8F, 4⟩
  else none

/-- One item of decoded text: a character, or an ill-formed part. -/
inductive Item where
  | char (c : Char)
  | bad

/-- Where the decoder stands: between characters, or inside one. -/
inductive State where
  | start
  | inside (lead : Lead)

/-- Read bytes from a state, one item for each character and each ill-formed part. -/
def items : State → List UInt8 → List Item
  | .start, [] => []
  | .inside _, [] => [.bad]
  | .start, b :: rest =>
    if b < 0x80 then .char (Char.ofNat b.toNat) :: items .start rest
    else
      match lead? b with
      | some lead => items (.inside lead) rest
      | none => .bad :: items .start rest
  | .inside lead, b :: rest =>
    if lead.least ≤ b && b ≤ lead.greatest then
      let bits := lead.bits * 64 + (b.toNat - 0x80)
      if lead.more = 1 then .char (Char.ofNat bits) :: items .start rest
      else items (.inside ⟨lead.more - 1, 0x80, 0xBF, bits⟩) rest
    -- The byte does not go on with the character: that one is ill-formed, and the byte starts anew.
    else if b < 0x80 then .bad :: .char (Char.ofNat b.toNat) :: items .start rest
    else
      match lead? b with
      | some lead => .bad :: items (.inside lead) rest
      | none => .bad :: .bad :: items .start rest

/-- The text of any bytes, with U+FFFD for each ill-formed part. -/
def decodeLossy (bytes : List UInt8) : List Char :=
  (items .start bytes).map fun
    | .char c => c
    | .bad => Char.ofNat 0xFFFD

/-- The text of well-formed bytes. -/
def decode (bytes : List UInt8) : Option (List Char) :=
  (items .start bytes).mapM fun
    | .char c => some c
    | .bad => none

/-- The bytes of a text. -/
def encode (s : List Char) : List UInt8 :=
  (String.ofList s).toUTF8.toList

example : decodeLossy [0x61, 0xE2, 0x82, 0xAC, 0xE2, 0x82, 0x62, 0xFF, 0xC3]
    = ['a', '€', Char.ofNat 0xFFFD, 'b', Char.ofNat 0xFFFD, Char.ofNat 0xFFFD] := by decide

end Playbook.Text.Utf8
