import Playbook.Proofs.Text.Utf8

/-!
# `Proofs.Text.ByteOrder` — texts compare as their bytes do

Of two characters, the lesser has the lesser bytes: fewer of them, with a lesser first one, or as many, and then the bytes are the
digits of the two code points, most significant first. So texts compare by code point as their UTF-8 bytes compare.

## Contents
- **Bytes.** `Departs`: two lists of bytes agree up to a byte that is less in the first.
- **Characters.** `departs_utf8EncodeChar`.
- **Texts.** `encode_lt`.
-/

namespace Playbook.Text.Utf8

/-! ## Bytes -/

/-- Two lists agree up to a byte that is less in the first. -/
inductive Departs : List UInt8 → List UInt8 → Prop where
  | here {a b : UInt8} {as bs : List UInt8} (h : a < b) : Departs (a :: as) (b :: bs)
  | later {a : UInt8} {as bs : List UInt8} (h : Departs as bs) : Departs (a :: as) (a :: bs)

/-- What stands behind such lists makes no difference. -/
theorem Departs.append_lt {as bs : List UInt8} (h : Departs as bs) (more more' : List UInt8) :
    as ++ more < bs ++ more' := by
  induction h with
  | here h => exact List.Lex.rel h
  | later _ ih => exact List.Lex.cons ih

theorem departs_here {m n : Nat} {as bs : List UInt8} (h : m < n) (hn : n < 256) :
    Departs (UInt8.ofNat m :: as) (UInt8.ofNat n :: bs) := by
  refine .here ?_
  rw [UInt8.lt_iff_toNat_lt, UInt8.toNat_ofNat', UInt8.toNat_ofNat']
  omega

/-- A first byte decides, or the bytes behind it do. -/
theorem departs_cons {m n : Nat} {as bs : List UInt8} (hle : m ≤ n) (hn : n < 256)
    (h : m = n → Departs as bs) : Departs (UInt8.ofNat m :: as) (UInt8.ofNat n :: bs) := by
  rcases Nat.lt_or_eq_of_le hle with hlt | rfl
  · exact departs_here hlt hn
  · exact .later (h rfl)

/-! ## Characters -/

/-- The lesser of two characters has the lesser bytes. -/
theorem departs_utf8EncodeChar {c d : Char} (h : c < d) :
    Departs (String.utf8EncodeChar c) (String.utf8EncodeChar d) := by
  have hlt : c.val.toNat < d.val.toNat := h
  have hd : d.val.toNat < 0xD800 ∨ 0xDFFF < d.val.toNat ∧ d.val.toNat < 0x110000 := d.valid
  generalize hv : c.val.toNat = v at *
  generalize hw : d.val.toNat = w at *
  simp only [String.utf8EncodeChar, hv, hw]
  -- By the number of bytes of the lesser one, and then of the other, which has no fewer. If it has more, its first byte is greater;
  -- if it has as many, the bytes are digits of the code points behind the same marks.
  split
  · split
    · exact departs_here hlt (by omega)
    · split
      · exact departs_here (by omega) (by omega)
      · split <;> exact departs_here (by omega) (by omega)
  · split
    · rw [if_neg (by omega)]
      split
      · exact departs_cons (by omega) (by omega) fun _ => departs_here (by omega) (by omega)
      · split <;> exact departs_here (by omega) (by omega)
    · split
      · rw [if_neg (by omega), if_neg (by omega)]
        split
        · exact departs_cons (by omega) (by omega) fun _ =>
            departs_cons (by omega) (by omega) fun _ => departs_here (by omega) (by omega)
        · exact departs_here (by omega) (by omega)
      · rw [if_neg (by omega), if_neg (by omega), if_neg (by omega)]
        exact departs_cons (by omega) (by omega) fun _ =>
          departs_cons (by omega) (by omega) fun _ =>
            departs_cons (by omega) (by omega) fun _ => departs_here (by omega) (by omega)

/-! ## Texts -/

/-- The lesser of two texts has the lesser bytes. -/
theorem encode_lt {s t : List Char} (h : s < t) : encode s < encode t := by
  rw [encode_eq, encode_eq]
  induction h with
  | nil =>
    rename_i c t
    rw [List.flatMap_nil, List.flatMap_cons]
    obtain ⟨b, bs, hbytes⟩ := List.exists_cons_of_ne_nil (String.utf8EncodeChar_ne_nil (c := c))
    rw [hbytes]
    exact List.Lex.nil
  | rel h => exact (departs_utf8EncodeChar h).append_lt _ _
  | cons _ ih => exact List.append_left_lt ih

end Playbook.Text.Utf8
