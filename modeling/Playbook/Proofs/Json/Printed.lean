import Playbook.Proofs.Json.Compact
import Playbook.Proofs.Json.Grammar
import Playbook.Proofs.Json.Normal

/-!
# `Proofs.Json.Printed` — the compact text of a value denotes it

Compact text is one of the ways to write the tokens of a value: without white space, each character of a string for itself if it
may stand for itself, and each integer in its decimal digits. So it is read as the value that it was printed from.

## Contents
- **Integers.** `fits`: all integers have 64 bits, signed or unsigned; `ofChars?_intText`.
- **Strings.** `spelled_escape`.
- **Values.** `spells_compactChars` with its companions for items and members; `denotes_compact`.
- **Normal forms.** `fits_normalize`, `depth_normalize_le`.
-/

namespace Playbook.Json

/-! ## Integers -/

mutual

/-- Whether every integer in a value is one of 64 bits, signed or unsigned. -/
def fits : Json → Bool
  | .int n => decide (Int64.minValue.toInt ≤ n) && decide (n < UInt64.size)
  | .arr items => fitsAll items
  | .obj members => fitsMembers members
  | _ => true

/-- Whether every item fits. -/
def fitsAll : List Json → Bool
  | [] => true
  | v :: rest => fits v && fitsAll rest

/-- Whether the value of every member fits. -/
def fitsMembers : List (String × Json) → Bool
  | [] => true
  | (_, v) :: rest => fits v && fitsMembers rest

end

theorem fitsAll_iff {items : List Json} : fitsAll items = true ↔ ∀ v ∈ items, v.fits = true := by
  induction items with
  | nil => simp [fitsAll]
  | cons v rest ih => simp [fitsAll, ih]

theorem fitsMembers_iff {members : List (String × Json)} :
    fitsMembers members = true ↔ ∀ m ∈ members, m.2.fits = true := by
  induction members with
  | nil => simp [fitsMembers]
  | cons m rest ih => simp [fitsMembers, ih]

theorem fitsAll_cons {v : Json} {rest : List Json} :
    fitsAll (v :: rest) = true ↔ v.fits = true ∧ fitsAll rest = true := by
  rw [fitsAll, Bool.and_eq_true]

theorem fitsMembers_cons {k : String} {v : Json} {rest : List (String × Json)} :
    fitsMembers ((k, v) :: rest) = true ↔ v.fits = true ∧ fitsMembers rest = true := by
  rw [fitsMembers, Bool.and_eq_true]

theorem exponentValue_digitsOf (n : Nat) : Number.exponentValue (digitsOf n) = n := by
  have hvalue : Number.exponentValue (digitsOf n) = Nat.ofDigitChars 10 (digitsOf n) 0 := by
    simp only [Number.exponentValue, Nat.ofDigitChars, Number.digitValue, Nat.mul_comm]
  rw [hvalue]
  exact Nat.ofDigitChars_ten_toDigits

/-- No number but zero begins with the digit zero. -/
theorem head?_digitsOf_ne_zero {n : Nat} (h : 0 < n) : (digitsOf n).head? ≠ some '0' := by
  induction n using Nat.strongRecOn with
  | ind n ih =>
    by_cases hn : n < 10
    · have hdigit : ∀ d < 10, 0 < d → Nat.digitChar d ≠ '0' := by decide
      rw [digitsOf, Nat.toDigits_of_lt_base hn]
      intro heq
      exact hdigit n hn h (Option.some.inj heq)
    · have hbefore := ih (n / 10) (by omega) (by omega)
      obtain ⟨c, rest, htext, -⟩ := digitsOf_eq_cons (n / 10)
      rw [htext] at hbefore
      rw [digitsOf, Nat.toDigits_of_base_le (by decide) (Nat.not_lt.1 hn), ← digitsOf, htext]
      exact hbefore

/-- All of a number's text is digits. -/
theorem takeWhile_digitsOf_self (n : Nat) : (digitsOf n).takeWhile (·.isDigit) = digitsOf n := by
  have hends : Ends [] := fun _ hc => nomatch hc
  have hall := takeWhile_digitsOf (n := n) hends
  rwa [List.append_nil] at hall

theorem dropWhile_digitsOf (n : Nat) : (digitsOf n).dropWhile (·.isDigit) = [] := by
  have hsplit := List.takeWhile_append_dropWhile (p := (·.isDigit)) (l := digitsOf n)
  rw [takeWhile_digitsOf_self] at hsplit
  exact List.self_eq_append_right.1 hsplit.symm

/-- Only zero is written with a first digit zero, and then it is the only digit. -/
theorem wellFormed_digitsOf (n : Nat) :
    ¬(digitsOf n = [] || ((digitsOf n).length > 1 && (digitsOf n).head? == some '0')) = true := by
  intro h
  rw [Bool.or_eq_true, decide_eq_true_eq, Bool.and_eq_true, decide_eq_true_eq, beq_iff_eq] at h
  rcases h with h | ⟨hlength, hhead⟩
  · exact Nat.toDigits_ne_nil h
  · rcases Nat.eq_zero_or_pos n with rfl | hn
    · exact absurd hlength (by decide)
    · exact head?_digitsOf_ne_zero hn hhead

/-- The decimal text of an integer has a sign and whole digits only. -/
theorem parts?_intText (n : Int) :
    Number.parts? (intText n) = some ⟨decide (n < 0), digitsOf n.natAbs, none, none⟩ := by
  unfold Number.parts?
  split
  rename_i negative body hsign
  have hparts : negative = decide (n < 0) ∧ body = digitsOf n.natAbs := by
    cases n with
    | ofNat n =>
      obtain ⟨c, rest, htext, hc⟩ := digitsOf_eq_cons n
      rw [show intText (.ofNat n) = digitsOf n from rfl, htext] at hsign
      split at hsign
      · rename_i heq
        cases heq
        cases hc
      · cases hsign
        exact ⟨rfl, htext.symm⟩
    | negSucc n =>
      cases hsign
      exact ⟨(decide_eq_true (Int.negSucc_lt_zero n)).symm, rfl⟩
  obtain ⟨rfl, rfl⟩ := hparts
  dsimp only
  rw [takeWhile_digitsOf_self, dropWhile_digitsOf, if_neg (wellFormed_digitsOf _)]
  rfl

/-- The decimal text of an integer of 64 bits is read as that integer. -/
theorem ofChars?_intText {n : Int} (hleast : Int64.minValue.toInt ≤ n) (hgreatest : n < UInt64.size) :
    Number.ofChars? (intText n) = some (.int n) := by
  rw [Number.ofChars?, parts?_intText, Option.map_some]
  simp only [exponentValue_digitsOf, Option.isNone_none, Bool.true_and]
  -- With a minus sign the range is that of signed integers, without it that of unsigned ones.
  by_cases hn : n < 0
  · have hvalue : -(n.natAbs : Int) = n := by omega
    have hrange : (0 < n.natAbs && Int64.minValue.toInt ≤ n) = true := by
      rw [Bool.and_eq_true, decide_eq_true_eq, decide_eq_true_eq]
      omega
    simp only [hn, decide_true, if_true, hvalue, hrange]
  · have hvalue : (n.natAbs : Int) = n := by omega
    have hrange : n.natAbs < UInt64.size := by omega
    simp only [hn, decide_false, Bool.false_eq_true, if_false, hrange, decide_true, if_true, hvalue]

/-! ## Strings -/

theorem hexUnit_control {n : Nat} (h : n < 0x20) :
    HexUnit ['0', '0', Text.Hex.digit (n / 16), Text.Hex.digit (n % 16)] n := by
  have hvalue : ((0 * 16 + 0) * 16 + n / 16) * 16 + n % 16 = n := by omega
  have hunit := HexUnit.mk (a := '0') (b := '0') (i := 0) (j := 0) rfl rfl
    (Text.Hex.value?_digit (n / 16) (by omega)) (Text.Hex.value?_digit (n % 16) (by omega))
  rwa [hvalue] at hunit

/-- The escaped text of a character is one of its spellings. -/
theorem spelledChar_escape (c : Char) : SpelledChar c (escape c) := by
  have hof : ∀ {n : Nat}, c.toNat = n → c = Char.ofNat n := by
    rintro n rfl
    exact (Char.ofNat_toNat c).symm
  unfold escape
  split
  · rename_i hquote
    subst hquote
    exact .short (by decide)
  split
  · rename_i hbackslash
    subst hbackslash
    exact .short (by decide)
  rename_i hquote hbackslash
  split
  · -- Of the control characters five have a letter, and the others are written as code units.
    rename_i hcontrol
    split
    · rename_i h
      rw [hof h]
      exact .short (by decide)
    split
    · rename_i h
      rw [hof h]
      exact .short (by decide)
    split
    · rename_i h
      rw [hof h]
      exact .short (by decide)
    split
    · rename_i h
      rw [hof h]
      exact .short (by decide)
    split
    · rename_i h
      rw [hof h]
      exact .short (by decide)
    · exact .unit (hexUnit_control hcontrol)
  · rename_i hcontrol
    exact .plain hquote hbackslash (Nat.not_lt.1 hcontrol)

theorem spelled_escape (chars : List Char) : Spelled chars (chars.flatMap escape) := by
  induction chars with
  | nil => exact .nil
  | cons c chars ih =>
    rw [List.flatMap_cons]
    exact .cons (spelledChar_escape c) ih

theorem lexeme_quoted (s : String) : Lexeme (.str (some s)) (quoted s) := by
  have hlexeme := Lexeme.str (spelled_escape s.toList)
  rwa [String.ofList_toList] at hlexeme

/-! ## Values -/

/-- A token may be written without white space before it. -/
theorem Spells.cons_lexeme {token : Token} {tokens : List Token} {text rest : List Char}
    (h : Lexeme token text) (hrest : Spells tokens rest) : Spells (token :: tokens) (text ++ rest) :=
  .cons blank_nil h hrest

theorem Spells.cons_char {token : Token} {tokens : List Token} {c : Char} {rest : List Char}
    (h : Lexeme token [c]) (hrest : Spells tokens rest) : Spells (token :: tokens) (c :: rest) :=
  .cons_lexeme h hrest

mutual

/-- The compact text of a value writes its tokens. -/
theorem spells_compactChars {v : Json} (hv : v.isIntegral = true) (hfits : v.fits = true)
    {tokens : List Token} {rest : List Char} (h : Spells tokens rest) :
    Spells (tokensOf v ++ tokens) (compactChars v ++ rest) := by
  cases v with
  | null => exact .cons_lexeme .null h
  | bool b =>
    cases b with
    | true => exact .cons_lexeme .yes h
    | false => exact .cons_lexeme .no h
  | int n =>
    rw [fits, Bool.and_eq_true, decide_eq_true_eq, decide_eq_true_eq] at hfits
    exact .cons_lexeme (.number (ofChars?_intText hfits.1 hfits.2) (by simp)) h
  | float x => cases hv
  | str s => exact .cons_lexeme (lexeme_quoted s) h
  | arr items =>
    simp only [tokensOf, compactChars, List.cons_append, List.append_assoc]
    exact .cons_char .openArr (spells_compactItems hv hfits (.cons_char .closeArr h))
  | obj members =>
    simp only [tokensOf, compactChars, List.cons_append, List.append_assoc]
    exact .cons_char .openObj (spells_compactMembers hv hfits (.cons_char .closeObj h))
  | void => cases hv

theorem spells_compactItems {items : List Json} (hv : isIntegralAll items = true)
    (hfits : fitsAll items = true) {tokens : List Token} {rest : List Char} (h : Spells tokens rest) :
    Spells (itemTokens items ++ tokens) (compactItems items ++ rest) := by
  match items with
  | [] => exact h
  | [v] => exact spells_compactChars (isIntegralAll_cons.1 hv).1 (fitsAll_cons.1 hfits).1 h
  | v :: w :: more =>
    obtain ⟨hv, hmore⟩ := isIntegralAll_cons.1 hv
    obtain ⟨hfits, hfits'⟩ := fitsAll_cons.1 hfits
    rw [itemTokens, compactItems, List.append_assoc, List.append_assoc]
    exact spells_compactChars hv hfits (.cons_char .comma (spells_compactItems hmore hfits' h))

theorem spells_compactMembers {members : List (String × Json)}
    (hv : isIntegralMembers members = true) (hfits : fitsMembers members = true)
    {tokens : List Token} {rest : List Char} (h : Spells tokens rest) :
    Spells (memberTokens members ++ tokens) (compactMembers members ++ rest) := by
  match members with
  | [] => exact h
  | [(k, v)] =>
    rw [memberTokens, compactMembers, List.append_assoc]
    exact .cons_lexeme (lexeme_quoted k) (.cons_char .colon
      (spells_compactChars (isIntegralMembers_cons.1 hv).1 (fitsMembers_cons.1 hfits).1 h))
  | (k, v) :: m :: more =>
    obtain ⟨hv, hmore⟩ := isIntegralMembers_cons.1 hv
    obtain ⟨hfits, hfits'⟩ := fitsMembers_cons.1 hfits
    simp only [memberTokens, compactMembers, List.cons_append, List.append_assoc]
    exact .cons_lexeme (lexeme_quoted k) (.cons_char .colon
      (spells_compactChars hv hfits (.cons_char .comma (spells_compactMembers hmore hfits' h))))

end

/-- The compact text of a value denotes it. -/
theorem denotes_compact {v : Json} (hv : v.isIntegral = true) (hfits : v.fits = true) :
    Denotes v v.compact := by
  have hspells := spells_compactChars hv hfits (.nil blank_nil)
  rw [List.append_nil, List.append_nil] at hspells
  rwa [Denotes, compact, String.toList_ofList]

/-! ## Normal forms -/

mutual

theorem fits_normalize {v : Json} (h : v.fits = true) : v.normalize.fits = true := by
  cases v with
  | arr items => exact fitsAll_normalizeAll h
  | obj members =>
    refine fitsMembers_iff.2 fun m hm => ?_
    exact fitsMembers_iff.1 (fitsMembers_normalizeMembers h) m (KeyMap.mem_ofList hm)
  | _ => exact h

theorem fitsAll_normalizeAll {items : List Json} (h : fitsAll items = true) :
    fitsAll (normalizeAll items) = true := by
  cases items with
  | nil => rfl
  | cons v rest =>
    obtain ⟨hv, hrest⟩ := fitsAll_cons.1 h
    exact fitsAll_cons.2 ⟨fits_normalize hv, fitsAll_normalizeAll hrest⟩

theorem fitsMembers_normalizeMembers {members : List (String × Json)}
    (h : fitsMembers members = true) : fitsMembers (normalizeMembers members) = true := by
  cases members with
  | nil => rfl
  | cons m rest =>
    obtain ⟨k, v⟩ := m
    obtain ⟨hv, hrest⟩ := fitsMembers_cons.1 h
    exact fitsMembers_cons.2 ⟨fits_normalize hv, fitsMembers_normalizeMembers hrest⟩

end

mutual

/-- A normal form is no deeper: of equal keys one is left. -/
theorem depth_normalize_le (v : Json) : v.normalize.depth ≤ v.depth := by
  cases v with
  | arr items => exact Nat.succ_le_succ (depthAll_normalizeAll_le items)
  | obj members =>
    refine Nat.succ_le_succ (depthMembers_le_iff.2 fun m hm => ?_)
    exact depthMembers_le_iff.1 (depthMembers_normalizeMembers_le members) m (KeyMap.mem_ofList hm)
  | _ => exact Nat.le_refl _

theorem depthAll_normalizeAll_le (items : List Json) : depthAll (normalizeAll items) ≤ depthAll items := by
  cases items with
  | nil => exact Nat.le_refl _
  | cons v rest =>
    have hv := depth_normalize_le v
    have hrest := depthAll_normalizeAll_le rest
    rw [normalizeAll, depthAll, depthAll]
    omega

theorem depthMembers_normalizeMembers_le (members : List (String × Json)) :
    depthMembers (normalizeMembers members) ≤ depthMembers members := by
  cases members with
  | nil => exact Nat.le_refl _
  | cons m rest =>
    obtain ⟨k, v⟩ := m
    have hv := depth_normalize_le v
    have hrest := depthMembers_normalizeMembers_le rest
    rw [normalizeMembers, depthMembers, depthMembers]
    omega

end

/-- The canonical text of a value is read as its normal form. -/
theorem parse_canonical {v : Json} (hv : v.isIntegral = true) (hfits : v.fits = true)
    (hdepth : v.depth ≤ depthLimit) : parse v.canonical = some v.normalize := by
  have hdenotes := denotes_compact (isIntegral_normalize hv) (fits_normalize hfits)
  rw [canonical, parse_of_denotes hdenotes (Nat.le_trans (depth_normalize_le v) hdepth),
    normalize_of_isOrdered (isOrdered_normalize v)]

end Playbook.Json
