import Playbook.Json.Token

/-!
# `Proofs.Json.Spelling` — the ways to write tokens, and how they are read

A token can be written in more than one way: a character of a string may stand for itself or be escaped, and a number may have many
literals. Between tokens there may be any white space. Whatever was chosen, the scanner finds the tokens that were written, provided
that no two scalars stand side by side: those are the only tokens whose end is not their own.

## Contents
- **Strings.** `Spelled` gives the ways to write characters between quotes; `scan_spelled`, `joinUnitsFrom_unitsOf`.
- **Tokens.** `Lexeme` gives the ways to write one token, `Spells` those to write a list; `Apart` lists.
- **Scanning.** `scan_lexeme`, and `tokens_of_spells`: the tokens written are the tokens read.
-/

namespace Playbook.Json

/-! ## Strings -/

/-- The letters that stand for a character after a backslash. -/
def shortForms : List (Char × Char) :=
  [('"', '"'), ('\\', '\\'), ('/', '/'), ('b', '\x08'), ('f', '\x0c'), ('n', '\n'), ('r', '\r'),
   ('t', '\t')]

/-- Four hexadecimal digits, in either case, and their value. -/
inductive HexUnit : List Char → Nat → Prop where
  | mk {a b c d : Char} {i j k l : Nat} (ha : Text.Hex.value? a = some i)
      (hb : Text.Hex.value? b = some j) (hc : Text.Hex.value? c = some k)
      (hd : Text.Hex.value? d = some l) : HexUnit [a, b, c, d] (((i * 16 + j) * 16 + k) * 16 + l)

/-- The ways to write one character between quotes. -/
inductive SpelledChar : Char → List Char → Prop where
  /-- For itself, unless it is a quote, a backslash or a control character. -/
  | plain {c : Char} (hquote : c ≠ '"') (hbackslash : c ≠ '\\') (hcontrol : 0x20 ≤ c.toNat) :
      SpelledChar c [c]
  | short {letter c : Char} (h : (letter, c) ∈ shortForms) : SpelledChar c ['\\', letter]
  | unit {c : Char} {digits : List Char} (h : HexUnit digits c.toNat) :
      SpelledChar c ('\\' :: 'u' :: digits)
  /-- By its two surrogates. -/
  | pair {c : Char} {digits digits' : List Char} {high low : Nat} (hhigh : high < 0x400)
      (hlow : low < 0x400) (hc : c.toNat = 0x10000 + high * 0x400 + low)
      (h : HexUnit digits (0xD800 + high)) (h' : HexUnit digits' (0xDC00 + low)) :
      SpelledChar c ('\\' :: 'u' :: digits ++ '\\' :: 'u' :: digits')

/-- The ways to write characters between quotes. -/
inductive Spelled : List Char → List Char → Prop where
  | nil : Spelled [] []
  | cons {c : Char} {chars text rest : List Char} (h : SpelledChar c text)
      (hrest : Spelled chars rest) : Spelled (c :: chars) (text ++ rest)

/-- A list of code units makes certain characters, wherever it stands. -/
def Joins (units : List Nat) (chars : List Char) : Prop :=
  ∀ before more, joinUnitsFrom before (units ++ more) = joinUnitsFrom (chars.reverse ++ before) more

theorem Joins.append {units more : List Nat} {chars chars' : List Char} (h : Joins units chars)
    (h' : Joins more chars') : Joins (units ++ more) (chars ++ chars') := by
  intro before rest
  rw [List.append_assoc, h, h', List.reverse_append, List.append_assoc]

theorem joins_toNat (c : Char) : Joins [c.toNat] [c] := by
  intro before more
  -- No character is a surrogate, so its unit is neither the first nor the second of a pair.
  have hvalid : c.toNat < 0xD800 ∨ 0xDFFF < c.toNat ∧ c.toNat < 0x110000 := c.valid
  have hhigh : ¬(0xD800 ≤ c.toNat && c.toNat < 0xDC00) = true := by
    simp only [Bool.and_eq_true, decide_eq_true_eq]
    omega
  have hlow : ¬(0xDC00 ≤ c.toNat && c.toNat < 0xE000) = true := by
    simp only [Bool.and_eq_true, decide_eq_true_eq]
    omega
  rw [List.singleton_append, joinUnitsFrom.eq_def]
  simp only [if_neg hhigh, if_neg hlow, Char.ofNat_toNat]
  rfl

theorem joins_pair {c : Char} {high low : Nat} (hhigh : high < 0x400) (hlow : low < 0x400)
    (hc : c.toNat = 0x10000 + high * 0x400 + low) : Joins [0xD800 + high, 0xDC00 + low] [c] := by
  intro before more
  have hfirst : (0xD800 ≤ 0xD800 + high && 0xD800 + high < 0xDC00) = true := by
    simp only [Bool.and_eq_true, decide_eq_true_eq]
    omega
  have hsecond : (0xDC00 ≤ 0xDC00 + low && 0xDC00 + low < 0xE000) = true := by
    simp only [Bool.and_eq_true, decide_eq_true_eq]
    omega
  simp only [List.cons_append, List.nil_append, joinUnitsFrom, if_pos hfirst, if_pos hsecond,
    Nat.add_sub_cancel_left]
  rw [← hc, Char.ofNat_toNat]
  rfl

section

variable (done : List Token) (units : List Nat) (rest : List Char)

theorem scan_hexUnit {digits : List Char} {n : Nat} (h : HexUnit digits n) :
    scan done (.inString units) ('\\' :: 'u' :: digits ++ rest) =
      scan done (.inString (n :: units)) rest := by
  obtain ⟨ha, hb, hc, hd⟩ := h
  simp [scan, read, ha, hb, hc, hd]

theorem scan_short {letter c : Char} (h : (letter, c) ∈ shortForms) :
    scan done (.inString units) ('\\' :: letter :: rest) =
      scan done (.inString (c.toNat :: units)) rest := by
  have hforms : ∀ form ∈ shortForms, form.1 ≠ 'u' ∧ shortEscape? form.1 = some form.2 := by decide
  obtain ⟨hu, hshort⟩ := hforms (letter, c) h
  simp [scan, read, hu, hshort]

/-- Reading the text of a character leaves code units that make it. -/
theorem scan_spelledChar {c : Char} {text : List Char} (h : SpelledChar c text) :
    ∃ us, Joins us [c] ∧
      scan done (.inString units) (text ++ rest) =
        scan done (.inString (us.reverse ++ units)) rest := by
  cases h with
  | plain hquote hbackslash hcontrol =>
    refine ⟨[c.toNat], joins_toNat c, ?_⟩
    simp [scan, read, hquote, hbackslash, Nat.not_lt.2 hcontrol]
  | short h => exact ⟨[c.toNat], joins_toNat c, scan_short done units rest h⟩
  | unit h => exact ⟨[c.toNat], joins_toNat c, scan_hexUnit done units rest h⟩
  | @pair _ digits digits' high low hhigh hlow hc h h' =>
    refine ⟨_, joins_pair hhigh hlow hc, ?_⟩
    rw [List.append_assoc, scan_hexUnit done units _ h, scan_hexUnit done _ rest h']
    rfl

theorem scan_spelled {chars text : List Char} (h : Spelled chars text) :
    ∃ us, Joins us chars ∧
      scan done (.inString units) (text ++ rest) =
        scan done (.inString (us.reverse ++ units)) rest := by
  -- The units that were read before lie in reverse, whatever they are.
  induction h generalizing units with
  | nil => exact ⟨[], fun _ _ => rfl, rfl⟩
  | cons hchar _ ih =>
    obtain ⟨us, hus, hscan⟩ := scan_spelledChar done units _ hchar
    obtain ⟨us', hus', hscan'⟩ := ih (us.reverse ++ units)
    refine ⟨us ++ us', hus.append hus', ?_⟩
    rw [List.append_assoc, hscan, hscan', List.reverse_append, List.append_assoc]

/-- A string between quotes is read as the string. -/
theorem scan_quoted {chars text : List Char} (h : Spelled chars text) :
    scan done .between ('"' :: (text ++ '"' :: rest)) =
      scan (.str (some (String.ofList chars)) :: done) .between rest := by
  obtain ⟨us, hus, hscan⟩ := scan_spelled done [] ('"' :: rest) h
  have hjoin : joinUnits us = some (String.ofList chars) := by
    have hchars := hus [] []
    rw [List.append_nil, List.append_nil] at hchars
    rw [joinUnits, hchars, joinUnitsFrom, List.reverse_reverse]
    rfl
  have hopen : scan done .between ('"' :: (text ++ '"' :: rest)) =
      scan done (.inString []) (text ++ '"' :: rest) := rfl
  rw [hopen, hscan, scan, List.append_nil, read, if_pos rfl, List.reverse_reverse, hjoin]

end

/-! ## Tokens -/

/-- Whether a text is white space that may stand between tokens. -/
def Blank (text : List Char) : Prop :=
  ∀ c ∈ text, isSpace c = true

theorem blank_nil : Blank [] :=
  fun _ hc => nomatch hc

/-- The ways to write one token. -/
inductive Lexeme : Token → List Char → Prop where
  | openArr : Lexeme .openArr ['[']
  | closeArr : Lexeme .closeArr [']']
  | openObj : Lexeme .openObj ['\x7b']
  | closeObj : Lexeme .closeObj ['\x7d']
  | comma : Lexeme .comma [',']
  | colon : Lexeme .colon [':']
  | str {chars text : List Char} (h : Spelled chars text) :
      Lexeme (.str (some (String.ofList chars))) ('"' :: (text ++ ['"']))
  | null : Lexeme (.scalar .null) "null".toList
  | yes : Lexeme (.scalar (.bool true)) "true".toList
  | no : Lexeme (.scalar (.bool false)) "false".toList
  /-- A number, by any literal for it. -/
  | number {v : Json} {literal : List Char} (h : Number.ofChars? literal = some v)
      (hv : v ≠ .void) : Lexeme (.scalar v) literal

/-- The ways to write tokens one after another, with white space anywhere between them. -/
inductive Spells : List Token → List Char → Prop where
  | nil {blank : List Char} (h : Blank blank) : Spells [] blank
  | cons {token : Token} {tokens : List Token} {blank text rest : List Char} (hblank : Blank blank)
      (h : Lexeme token text) (hrest : Spells tokens rest) :
      Spells (token :: tokens) (blank ++ (text ++ rest))

/-- Whether a token is a number or a word: its text does not show where it ends. -/
def Token.isScalar : Token → Bool
  | .scalar _ => true
  | _ => false

/-- No two scalars stand side by side. -/
def Apart : List Token → Prop
  | token :: next :: rest => (token.isScalar && next.isScalar) = false ∧ Apart (next :: rest)
  | _ => True

/-- Whether a text goes on with no character of a number or a word. -/
def Halts (text : List Char) : Prop :=
  ∀ c ∈ text.head?, isWordChar c = false ∧ isNumberChar c = false

/-! ## Scanning -/

theorem halts_cons {c : Char} {rest : List Char} (hword : isWordChar c = false)
    (hnumber : isNumberChar c = false) : Halts (c :: rest) := by
  intro d hd
  cases hd
  exact ⟨hword, hnumber⟩

theorem halts_of_isSpace {c : Char} {rest : List Char} (h : isSpace c = true) : Halts (c :: rest) := by
  simp only [isSpace, Bool.or_eq_true, beq_iff_eq] at h
  rcases h with ((rfl | rfl) | rfl) | rfl <;> exact halts_cons (by decide) (by decide)

theorem Lexeme.halts {token : Token} {text : List Char} (h : Lexeme token text)
    (hscalar : token.isScalar = false) (rest : List Char) : Halts (text ++ rest) := by
  cases h with
  | null | yes | no | number => cases hscalar
  | _ => exact halts_cons (by decide) (by decide)

/-- After a scalar the text halts. -/
theorem Spells.halts {token : Token} {tokens : List Token} {text : List Char}
    (h : Spells tokens text) (hapart : Apart (token :: tokens)) (hscalar : token.isScalar = true) :
    Halts text := by
  cases h with
  | nil hblank =>
    cases text with
    | nil => exact fun c hc => nomatch hc
    | cons c rest => exact halts_of_isSpace (hblank c List.mem_cons_self)
  | @cons next _ blank _ _ hblank hlexeme _ =>
    cases blank with
    | nil =>
      have hnext := hapart.1
      rw [hscalar, Bool.true_and] at hnext
      exact hlexeme.halts hnext _
    | cons c blank => exact halts_of_isSpace (hblank c List.mem_cons_self)

theorem scan_blank {blank : List Char} (h : Blank blank) (done : List Token) (rest : List Char) :
    scan done .between (blank ++ rest) = scan done .between rest := by
  induction blank with
  | nil => rfl
  | cons c blank ih =>
    obtain ⟨hc, hblank⟩ := List.forall_mem_cons.1 h
    have hread : read done c .between = some (done, .between) := by
      show begin done c = _
      unfold begin
      exact if_pos hc
    rw [List.cons_append, scan, hread]
    exact ih hblank

/-- A number ends where the text halts. -/
theorem scan_number (chars : List Char) {literal rest : List Char} {v : Json} (hall : ∀ c ∈ literal, isNumberChar c = true)
    (h : Number.ofChars? (chars.reverse ++ literal) = some v) (hrest : Halts rest) (done : List Token) :
    scan done (.number chars) (literal ++ rest) = scan (.scalar v :: done) .between rest := by
  -- What has been read of the literal is in `chars`, in reverse; whether it is a number is asked at its end.
  induction literal generalizing chars with
  | nil =>
    rw [List.append_nil] at h
    cases rest with
    | nil => simp [scan, finish, h]
    | cons c rest => simp [scan, read, (hrest c rfl).2, h]
  | cons c literal ih =>
    obtain ⟨hc, hall⟩ := List.forall_mem_cons.1 hall
    rw [List.cons_append, scan, read, if_pos hc]
    exact ih (c :: chars) hall (by rwa [List.reverse_cons, List.append_assoc])

/-- A word ends where the text halts. -/
theorem scan_word (chars letters : List Char) {rest : List Char} {token : Token}
    (hall : ∀ c ∈ letters, isWordChar c = true) (h : word? (chars.reverse ++ letters) = some token)
    (hrest : Halts rest) (done : List Token) :
    scan done (.word chars) (letters ++ rest) = scan (token :: done) .between rest := by
  induction letters generalizing chars with
  | nil =>
    rw [List.append_nil] at h
    cases rest with
    | nil => simp [scan, finish, h]
    | cons c rest => simp [scan, read, (hrest c rfl).1, h]
  | cons c letters ih =>
    obtain ⟨hc, hall⟩ := List.forall_mem_cons.1 hall
    rw [List.cons_append, scan, read, if_pos hc]
    exact ih (c :: chars) hall (by rwa [List.reverse_cons, List.append_assoc])

theorem isNumberChar_of_isDigit {c : Char} (h : c.isDigit = true) : isNumberChar c = true := by
  simp [isNumberChar, h]

theorem isNumberChar_of_digits {digits : List Char} (h : digits.all (·.isDigit) = true) :
    ∀ c ∈ digits, isNumberChar c = true :=
  fun c hc => isNumberChar_of_isDigit (List.all_eq_true.1 h c hc)

/-- An exponent holds no character but those of numbers. -/
theorem Number.isNumberChar_of_exponentPart? {text : List Char} {exponent : Option (Bool × List Char)}
    (h : exponentPart? text = some exponent) : ∀ c ∈ text, isNumberChar c = true := by
  unfold exponentPart? at h
  split at h
  · exact fun c hc => nomatch hc
  · rename_i e rest
    split at h
    · rename_i he
      have hfirst : isNumberChar e = true := by
        rw [Bool.or_eq_true, decide_eq_true_eq, decide_eq_true_eq] at he
        rcases he with rfl | rfl <;> decide
      refine List.forall_mem_cons.2 ⟨hfirst, ?_⟩
      split at h
      rename_i negative digits hsign
      split at h
      · rename_i hdigits
        rw [Bool.and_eq_true] at hdigits
        have hall := isNumberChar_of_digits hdigits.2
        -- A plus sign, a minus sign, or none.
        split at hsign
        · cases hsign
          exact List.forall_mem_cons.2 ⟨by decide, hall⟩
        · cases hsign
          exact List.forall_mem_cons.2 ⟨by decide, hall⟩
        · cases hsign
          exact hall
      · cases h
    · cases h

/-- A text is the digits that it begins with and what follows them. -/
theorem isNumberChar_of_dropWhile {text : List Char}
    (h : ∀ c ∈ text.dropWhile (·.isDigit), isNumberChar c = true) :
    ∀ c ∈ text, isNumberChar c = true := by
  intro c hc
  rw [← List.takeWhile_append_dropWhile (p := (·.isDigit)) (l := text), List.mem_append] at hc
  rcases hc with hc | hc
  · exact isNumberChar_of_digits List.all_takeWhile c hc
  · exact h c hc

/-- What follows the sign of a literal opens with a digit. -/
theorem isDigit_of_takeWhile_ne_nil {text : List Char} (h : text.takeWhile (·.isDigit) ≠ []) :
    ∃ c rest, text = c :: rest ∧ c.isDigit = true := by
  cases text with
  | nil => exact absurd rfl h
  | cons c rest =>
    refine ⟨c, rest, rfl, ?_⟩
    rw [← Bool.not_eq_false]
    intro hc
    exact h (List.takeWhile_cons_of_neg (by simp [hc]))

/-- A literal opens with a digit or a minus sign, and holds no character but those of numbers. -/
theorem Number.chars_of_parts? {literal : List Char} {parts : Parts} (h : parts? literal = some parts) :
    ∃ c rest, literal = c :: rest ∧ (c.isDigit = true ∨ c = '-') ∧
      ∀ d ∈ rest, isNumberChar d = true := by
  unfold parts? at h
  split at h
  rename_i negative body hsign
  dsimp only at h
  split at h
  · cases h
  · rename_i hwhole
    have hdigit : body.takeWhile (·.isDigit) ≠ [] := by
      intro hnil
      rw [hnil] at hwhole
      exact hwhole rfl
    have hrest : ∀ c ∈ body.dropWhile (·.isDigit), isNumberChar c = true := by
      -- Behind the whole digits there is a fraction, or an exponent at most.
      split at h
      · rename_i fraction hpoint
        split at h
        · cases h
        · obtain ⟨exponent, hexponent, -⟩ := Option.map_eq_some_iff.1 h
          rw [hpoint]
          exact List.forall_mem_cons.2 ⟨by decide,
            isNumberChar_of_dropWhile (isNumberChar_of_exponentPart? hexponent)⟩
      · obtain ⟨exponent, hexponent, -⟩ := Option.map_eq_some_iff.1 h
        exact isNumberChar_of_exponentPart? hexponent
    have hbody := isNumberChar_of_dropWhile hrest
    split at hsign
    · cases hsign
      exact ⟨_, _, rfl, .inr rfl, hbody⟩
    · cases hsign
      obtain ⟨c, rest, rfl, hc⟩ := isDigit_of_takeWhile_ne_nil hdigit
      exact ⟨c, rest, rfl, .inl hc, (List.forall_mem_cons.1 hbody).2⟩

theorem isWordChar_of_isDigit {c : Char} (h : c.isDigit = true) : isWordChar c = false := by
  simp only [Char.isDigit, Bool.and_eq_true, decide_eq_true_eq] at h
  simp only [isWordChar, Bool.and_eq_false_iff, decide_eq_false_iff_not, Char.not_le]
  exact .inl (Nat.lt_of_le_of_lt (UInt32.le_iff_toNat_le.1 h.2) (by decide))

/-- A digit begins a number. -/
theorem begin_digit {c : Char} (h : c.isDigit = true) (done : List Token) :
    begin done c = some (done, .number [c]) := by
  have hspace : ¬isSpace c = true := by
    simp only [isSpace, Bool.or_eq_true, beq_iff_eq]
    rintro (((rfl | rfl) | rfl) | rfl) <;> cases h
  unfold begin
  rw [if_neg hspace]
  split
  case h_8 => rw [if_neg (by simp [isWordChar_of_isDigit h]), if_pos (isNumberChar_of_isDigit h)]
  all_goals cases h

/-- A token is read from any of its texts. -/
theorem scan_lexeme {token : Token} {text rest : List Char} (h : Lexeme token text)
    (hrest : token.isScalar = true → Halts rest) (done : List Token) :
    scan done .between (text ++ rest) = scan (token :: done) .between rest := by
  cases h with
  | str h =>
    rw [List.cons_append, List.append_assoc]
    exact scan_quoted done rest h
  | null => exact scan_word ['n'] "ull".toList (List.all_eq_true.1 rfl) rfl (hrest rfl) done
  | yes => exact scan_word ['t'] "rue".toList (List.all_eq_true.1 rfl) rfl (hrest rfl) done
  | no => exact scan_word ['f'] "alse".toList (List.all_eq_true.1 rfl) rfl (hrest rfl) done
  | number h =>
    obtain ⟨parts, hparts, -⟩ := Option.map_eq_some_iff.1 h
    obtain ⟨c, literal, rfl, hc, hall⟩ := Number.chars_of_parts? hparts
    have hread : read done c .between = some (done, .number [c]) := by
      rcases hc with hc | rfl
      · exact begin_digit hc done
      · rfl
    rw [List.cons_append, scan, hread]
    exact scan_number [c] hall h (hrest rfl) done
  | _ => rfl

theorem scan_spells {tokens : List Token} {text : List Char} (h : Spells tokens text)
    (hapart : Apart tokens) (done : List Token) :
    scan done .between text = some (done.reverse ++ tokens) := by
  induction h generalizing done with
  | nil hblank =>
    have hscan := scan_blank hblank done []
    rw [List.append_nil] at hscan
    rw [hscan, List.append_nil]
    rfl
  | @cons token tokens blank text rest hblank hlexeme hrest ih =>
    -- If this token is a scalar the next one is not, or white space comes first: its text halts.
    have happart' : Apart tokens := by
      cases tokens with
      | nil => trivial
      | cons next tokens => exact hapart.2
    rw [scan_blank hblank, scan_lexeme hlexeme (fun hscalar => hrest.halts hapart hscalar),
      ih happart', List.reverse_cons, List.append_assoc]
    rfl

/-- The tokens that were written are the tokens that are read. -/
theorem tokens_of_spells {written : List Token} {text : List Char} (h : Spells written text)
    (hapart : Apart written) : tokens text = some written :=
  scan_spells h hapart []

end Playbook.Json
