import Playbook.Text.Utf8

/-!
# `Proofs.Text.Utf8` — a text is read back from its bytes

A decoder that meets the bytes of a character makes that character of them, whatever it is: its first byte says how many follow, and
each of these lies in the range that the one before it leaves open.

## Contents
- **Bytes.** `encode_eq`: the bytes of a text are those of its characters; `toNat_of_mem_utf8EncodeChar`.
- **First bytes and others.** `lead?_two`, `lead?_three`, `lead?_four`, `items_inside`.
- **Characters.** `items_one` to `items_four`, by their number of bytes; `items_char`.
- **Texts.** `decodeLossy_encode`, `decode_encode`.
-/

namespace Playbook.Text.Utf8

/-! ## Bytes -/

theorem toList_loop (bytes : ByteArray) (i : Nat) (passed : List UInt8) :
    ByteArray.toList.loop bytes i passed = passed.reverse ++ bytes.data.toList.drop i := by
  fun_induction ByteArray.toList.loop bytes i passed with
  | case1 i passed h ih =>
    have hi : i < bytes.data.toList.length := by simpa only [Array.length_toList, ByteArray.size_data] using h
    have hget : bytes.get! i = bytes.data.toList[i] := by
      simp only [ByteArray.get!, Array.getElem_toList]
      exact getElem!_pos bytes.data i h
    rw [ih, List.drop_eq_getElem_cons hi, hget, List.reverse_cons, List.append_assoc,
      List.singleton_append]
  | case2 i passed h =>
    have hi : bytes.data.toList.length ≤ i := by
      simpa only [Array.length_toList, ByteArray.size_data, Nat.not_lt] using h
    rw [List.drop_of_length_le hi, List.append_nil]

/-- The bytes of a text are those of its characters, one after another. -/
theorem encode_eq (s : List Char) : encode s = s.flatMap String.utf8EncodeChar := by
  rw [encode, String.toUTF8, String.toByteArray_ofList, List.utf8Encode, ByteArray.toList, toList_loop,
    List.data_toByteArray]
  rfl

/-- An ASCII byte stands for itself and is no part of any other character. -/
theorem toNat_of_mem_utf8EncodeChar {c : Char} {b : UInt8} (h : b ∈ String.utf8EncodeChar c) (hascii : b.toNat < 128) :
    c.toNat = b.toNat := by
  have hsmall : ∀ n < 256, (UInt8.ofNat n).toNat = n := by
    intro n hn
    rw [UInt8.toNat_ofNat']
    exact Nat.mod_eq_of_lt hn
  have hlarge : ∀ n < 256, 128 ≤ n → b ≠ UInt8.ofNat n := by
    rintro n hn hle rfl
    rw [hsmall n hn] at hascii
    omega
  show c.val.toNat = b.toNat
  simp only [String.utf8EncodeChar] at h
  -- All bytes of a longer character have their highest bit set.
  split at h
  · rw [List.mem_singleton.1 h, hsmall _ (by omega)]
  · split at h
    · simp only [List.mem_cons, List.not_mem_nil, or_false] at h
      rcases h with h | h <;> exact absurd h (hlarge _ (by omega) (by omega))
    · split at h
      · simp only [List.mem_cons, List.not_mem_nil, or_false] at h
        rcases h with h | h | h <;> exact absurd h (hlarge _ (by omega) (by omega))
      · simp only [List.mem_cons, List.not_mem_nil, or_false] at h
        rcases h with h | h | h | h <;> exact absurd h (hlarge _ (by omega) (by omega))

/-! ## First bytes and others -/

deriving instance DecidableEq for Lead

theorem lead?_two : ∀ k < 32, 2 ≤ k → lead? (UInt8.ofNat (k + 192)) = some ⟨1, 0x80, 0xBF, k⟩ := by
  decide

/-- The narrower ranges are those of the first and the fourteenth of these bytes. -/
theorem lead?_three : ∀ k < 16, lead? (UInt8.ofNat (k + 224)) =
    some ⟨2, if k = 0 then 0xA0 else 0x80, if k = 13 then 0x9F else 0xBF, k⟩ := by
  decide

theorem lead?_four : ∀ k < 5, lead? (UInt8.ofNat (k + 240)) =
    some ⟨3, if k = 0 then 0x90 else 0x80, if k = 4 then 0x8F else 0xBF, k⟩ := by
  decide

/-- A byte that promises more is no character. -/
theorem not_ascii_of_lead {b : UInt8} {lead : Lead} (h : lead? b = some lead) : ¬b < 0x80 := by
  have hascii : ∀ k < 128, lead? (UInt8.ofNat k) = none := by decide
  intro hlt
  have hnone := hascii b.toNat hlt
  rw [UInt8.ofNat_toNat, h] at hnone
  cases hnone

/-- A longer character begins. -/
theorem items_lead {b : UInt8} {lead : Lead} (h : lead? b = some lead) (rest : List UInt8) :
    items .start (b :: rest) = items (.inside lead) rest := by
  rw [items, if_neg (not_ascii_of_lead h), h]

/-- A byte in the range that is left open belongs to the character. -/
theorem items_inside {lead : Lead} {j : Nat} (hj : j < 64) (hleast : lead.least.toNat ≤ j + 128)
    (hgreatest : j + 128 ≤ lead.greatest.toNat) (rest : List UInt8) :
    items (.inside lead) (UInt8.ofNat (j + 128) :: rest) =
      if lead.more = 1 then .char (Char.ofNat (lead.bits * 64 + j)) :: items .start rest
      else items (.inside ⟨lead.more - 1, 0x80, 0xBF, lead.bits * 64 + j⟩) rest := by
  have hbyte : (UInt8.ofNat (j + 128)).toNat = j + 128 := by
    rw [UInt8.toNat_ofNat']
    omega
  have hrange : (lead.least ≤ UInt8.ofNat (j + 128) && UInt8.ofNat (j + 128) ≤ lead.greatest) = true := by
    simp only [UInt8.le_iff_toNat_le, hbyte, Bool.and_eq_true, decide_eq_true_eq]
    exact ⟨hleast, hgreatest⟩
  rw [items, if_pos hrange, hbyte, Nat.add_sub_cancel]

/-- A character of which more is to come goes on. -/
theorem items_more {m j bits : Nat} {least greatest : UInt8} (hj : j < 64)
    (hleast : least.toNat ≤ j + 128) (hgreatest : j + 128 ≤ greatest.toNat) (rest : List UInt8) :
    items (.inside ⟨m + 2, least, greatest, bits⟩) (UInt8.ofNat (j + 128) :: rest) =
      items (.inside ⟨m + 1, 0x80, 0xBF, bits * 64 + j⟩) rest := by
  rw [items_inside hj hleast hgreatest, if_neg (by simp)]
  rfl

theorem items_next {m j bits : Nat} (hj : j < 64) (rest : List UInt8) :
    items (.inside ⟨m + 2, 0x80, 0xBF, bits⟩) (UInt8.ofNat (j + 128) :: rest) =
      items (.inside ⟨m + 1, 0x80, 0xBF, bits * 64 + j⟩) rest :=
  items_more hj (Nat.le_add_left _ _) (show _ ≤ 191 by omega) rest

/-- The last byte completes a character. -/
theorem items_last {j bits : Nat} (hj : j < 64) (rest : List UInt8) :
    items (.inside ⟨1, 0x80, 0xBF, bits⟩) (UInt8.ofNat (j + 128) :: rest) =
      .char (Char.ofNat (bits * 64 + j)) :: items .start rest := by
  rw [items_inside hj (Nat.le_add_left _ _) (show _ ≤ 191 by omega), if_pos rfl]

/-! ## Characters -/

section

variable {v : Nat} (rest : List UInt8)

theorem items_one (h : v ≤ 127) :
    items .start (UInt8.ofNat v :: rest) = .char (Char.ofNat v) :: items .start rest := by
  have hbyte : (UInt8.ofNat v).toNat = v := by
    rw [UInt8.toNat_ofNat']
    omega
  have hascii : UInt8.ofNat v < 0x80 := by
    rw [UInt8.lt_iff_toNat_lt, hbyte]
    exact Nat.lt_succ_of_le h
  rw [items, if_pos hascii, hbyte]

theorem items_two (hleast : 127 < v) (hgreatest : v ≤ 2047) :
    items .start (UInt8.ofNat (v / 64 % 32 + 192) :: UInt8.ofNat (v % 64 + 128) :: rest) =
      .char (Char.ofNat v) :: items .start rest := by
  rw [items_lead (lead?_two _ (Nat.mod_lt _ (by decide)) (by omega)),
    items_last (Nat.mod_lt _ (by decide)), show v / 64 % 32 * 64 + v % 64 = v by omega]

theorem items_three (hleast : 2047 < v) (hgreatest : v ≤ 65535) (hvalid : v < 0xD800 ∨ 0xDFFF < v) :
    items .start (UInt8.ofNat (v / 4096 % 16 + 224) :: UInt8.ofNat (v / 64 % 64 + 128) ::
        UInt8.ofNat (v % 64 + 128) :: rest) =
      .char (Char.ofNat v) :: items .start rest := by
  have hfrom : (if v / 4096 % 16 = 0 then 0xA0 else 0x80 : UInt8).toNat ≤ v / 64 % 64 + 128 := by
    split
    · show 160 ≤ _
      omega
    · exact Nat.le_add_left _ _
  have hto : v / 64 % 64 + 128 ≤ (if v / 4096 % 16 = 13 then 0x9F else 0xBF : UInt8).toNat := by
    split
    · show _ ≤ 159
      omega
    · show _ ≤ 191
      omega
  rw [items_lead (lead?_three _ (Nat.mod_lt _ (by decide))),
    items_more (Nat.mod_lt _ (by decide)) hfrom hto, items_last (Nat.mod_lt _ (by decide)),
    show (v / 4096 % 16 * 64 + v / 64 % 64) * 64 + v % 64 = v by omega]

theorem items_four (hleast : 65535 < v) (hgreatest : v < 0x110000) :
    items .start (UInt8.ofNat (v / 262144 % 8 + 240) :: UInt8.ofNat (v / 4096 % 64 + 128) ::
        UInt8.ofNat (v / 64 % 64 + 128) :: UInt8.ofNat (v % 64 + 128) :: rest) =
      .char (Char.ofNat v) :: items .start rest := by
  have hfrom : (if v / 262144 % 8 = 0 then 0x90 else 0x80 : UInt8).toNat ≤ v / 4096 % 64 + 128 := by
    split
    · show 144 ≤ _
      omega
    · exact Nat.le_add_left _ _
  have hto : v / 4096 % 64 + 128 ≤ (if v / 262144 % 8 = 4 then 0x8F else 0xBF : UInt8).toNat := by
    split
    · show _ ≤ 143
      omega
    · show _ ≤ 191
      omega
  rw [items_lead (lead?_four _ (by omega)), items_more (Nat.mod_lt _ (by decide)) hfrom hto,
    items_next (Nat.mod_lt _ (by decide)), items_last (Nat.mod_lt _ (by decide)),
    show ((v / 262144 % 8 * 64 + v / 4096 % 64) * 64 + v / 64 % 64) * 64 + v % 64 = v by omega]

end

/-- The bytes of a character are read as that character. -/
theorem items_char (c : Char) (rest : List UInt8) :
    items .start (String.utf8EncodeChar c ++ rest) = .char c :: items .start rest := by
  have hchar : Char.ofNat c.val.toNat = c := Char.ofNat_toNat c
  have hvalid : c.val.toNat < 0xD800 ∨ 0xDFFF < c.val.toNat ∧ c.val.toNat < 0x110000 := c.valid
  simp only [String.utf8EncodeChar]
  split
  · rename_i hone
    rw [List.singleton_append, items_one rest hone, hchar]
  · split
    · simp only [List.cons_append, List.nil_append]
      rw [items_two rest (by omega) (by assumption), hchar]
    · split
      · simp only [List.cons_append, List.nil_append]
        rw [items_three rest (by omega) (by assumption) (by omega), hchar]
      · simp only [List.cons_append, List.nil_append]
        rw [items_four rest (by omega) (by omega), hchar]

/-! ## Texts -/

/-- A text is read back from its bytes. -/
theorem decodeLossy_encode (s : List Char) : decodeLossy (encode s) = s := by
  rw [decodeLossy, encode_eq]
  induction s with
  | nil => rfl
  | cons c s ih => rw [List.flatMap_cons, items_char, List.map_cons, ih]

/-- The bytes of a text are well formed. -/
theorem decode_encode (s : List Char) : decode (encode s) = some s := by
  rw [decode, encode_eq]
  induction s with
  | nil => rfl
  | cons c s ih =>
    rw [List.flatMap_cons, items_char, List.mapM_cons, ih]
    rfl

end Playbook.Text.Utf8
