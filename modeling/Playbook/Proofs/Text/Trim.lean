import Playbook.Text.Blank
import Playbook.Text.Hex

/-!
# `Proofs.Text.Trim` — texts that trimming leaves as they are

## Contents
- **Ends.** `trimStart_of_head`, `trimEnd_of_getLast`, `trim_of_ends`.
- **No blanks.** `trim_of_not_blank`, `trim_blanks`; hexadecimal digits are no blanks (`trim_encode`).
- **Blanks behind a text.** `exists_blanks`; `trimEnd_append_blanks`, `trim_append_blanks` and `trimEnd_append_cons`.
- **Solid texts.** `Solid` texts neither begin nor end with a blank, and are what is left if blanks are put around them.
-/

namespace Playbook.Text

variable {s : List Char}

/-! ## Ends -/

/-- A text that does not begin with a blank is left as it is at its beginning. -/
theorem trimStart_of_head (h : ∀ c ∈ s.head?, isBlank c = false) : trimStart s = s := by
  cases s with
  | nil => rfl
  | cons c rest =>
    rw [trimStart, List.dropWhile_cons_of_neg]
    rw [h c rfl]
    exact Bool.false_ne_true

theorem dropEndWhile_of_getLast {p : Char → Bool} (h : ∀ c ∈ s.getLast?, p c = false) :
    dropEndWhile p s = s := by
  rw [dropEndWhile]
  cases hreverse : s.reverse with
  | nil => rw [List.reverse_eq_nil_iff.1 hreverse]; rfl
  | cons c rest =>
    have hlast : s.getLast? = some c := by
      rw [List.getLast?_eq_head?_reverse, hreverse]
      rfl
    rw [List.dropWhile_cons_of_neg, ← hreverse, List.reverse_reverse]
    rw [h c hlast]
    exact Bool.false_ne_true

/-- A text that does not end in a blank is left as it is at its end. -/
theorem trimEnd_of_getLast (h : ∀ c ∈ s.getLast?, isBlank c = false) : trimEnd s = s :=
  dropEndWhile_of_getLast h

theorem trim_of_ends (hstart : ∀ c ∈ s.head?, isBlank c = false)
    (hend : ∀ c ∈ s.getLast?, isBlank c = false) : trim s = s := by
  rw [trim, trimStart_of_head hstart, trimEnd_of_getLast hend]

/-! ## No blanks -/

/-- A text without blanks is left as it is. -/
theorem trim_of_not_blank (h : ∀ c ∈ s, isBlank c = false) : trim s = s :=
  trim_of_ends (fun c hc => h c (List.mem_of_mem_head? hc))
    (fun c hc => h c (List.mem_of_getLast? hc))

theorem isBlank_digit (n : Nat) : isBlank (Hex.digit n) = false := by
  have hsmall : ∀ k < 16, isBlank (Hex.digit k) = false := by decide
  by_cases hn : n < 16
  · exact hsmall n hn
  · have hzero : Hex.digit n = '0' := by
      rw [Hex.digit, List.getD_eq_getElem?_getD, List.getElem?_eq_none]
      · rfl
      · exact Nat.not_lt.1 hn
    rw [hzero]
    decide

theorem isBlank_of_mem_encode {bytes : List UInt8} {c : Char} (hc : c ∈ Hex.encode bytes) :
    isBlank c = false := by
  induction bytes with
  | nil => cases hc
  | cons b rest ih =>
    rw [Hex.encode, List.mem_cons, List.mem_cons] at hc
    rcases hc with rfl | rfl | hc
    · exact isBlank_digit _
    · exact isBlank_digit _
    · exact ih hc

/-- Hexadecimal digits are left as they are. -/
theorem trim_encode (bytes : List UInt8) : trim (Hex.encode bytes) = Hex.encode bytes :=
  trim_of_not_blank fun _ hc => isBlank_of_mem_encode hc

/-- Blanks around a text without blanks are trimmed. -/
theorem trim_blanks {before after : List Char} (hbefore : ∀ c ∈ before, isBlank c = true)
    (hafter : ∀ c ∈ after, isBlank c = true) (h : ∀ c ∈ s, isBlank c = false) :
    trim (before ++ s ++ after) = s := by
  have hstart : trimStart (before ++ s ++ after) = trimStart (s ++ after) := by
    rw [trimStart, List.append_assoc, List.dropWhile_append_of_pos hbefore]
    rfl
  have hend : ∀ t : List Char, trimEnd (t ++ after) = trimEnd t := by
    intro t
    rw [trimEnd, dropEndWhile, List.reverse_append,
      List.dropWhile_append_of_pos fun c hc => hafter c (List.mem_reverse.1 hc)]
    rfl
  rw [trim, hstart]
  cases s with
  | nil =>
    have hnone : trimStart after = [] := by
      have hdrop : (after ++ []).dropWhile isBlank = [] := List.dropWhile_append_of_pos hafter
      rwa [List.append_nil] at hdrop
    rw [List.nil_append, hnone]
    rfl
  | cons c rest =>
    have hhead : trimStart (c :: rest ++ after) = c :: rest ++ after := by
      refine trimStart_of_head fun d hd => ?_
      cases hd
      exact h c List.mem_cons_self
    rw [hhead, hend]
    exact trimEnd_of_getLast fun d hd => h d (List.mem_of_getLast? hd)

/-! ## Blanks behind a text -/

theorem getLast?_trimEnd : ∀ c ∈ (trimEnd s).getLast?, isBlank c = false := by
  intro c hc
  rw [trimEnd, dropEndWhile, List.getLast?_reverse] at hc
  have hkept := List.head?_dropWhile_not isBlank s.reverse
  rw [Option.mem_def.1 hc] at hkept
  simpa using hkept

/-- What is trimmed at the end of a text is blanks. -/
theorem exists_blanks (s : List Char) : ∃ blanks, s = trimEnd s ++ blanks ∧ ∀ c ∈ blanks, isBlank c = true := by
  refine ⟨(s.reverse.takeWhile isBlank).reverse, ?_, fun c hc => ?_⟩
  · rw [trimEnd, dropEndWhile, ← List.reverse_append, List.takeWhile_append_dropWhile, List.reverse_reverse]
  · have hall := List.all_takeWhile (p := isBlank) (l := s.reverse)
    exact List.all_eq_true.1 hall c (List.mem_reverse.1 hc)

/-- All blanks behind a text are trimmed. -/
theorem trimEnd_append_blanks {blanks : List Char} (h : ∀ c ∈ blanks, isBlank c = true) :
    trimEnd (s ++ blanks) = trimEnd s := by
  rw [trimEnd, dropEndWhile, List.reverse_append,
    List.dropWhile_append_of_pos fun c hc => h c (List.mem_reverse.1 hc)]
  rfl

/-- Nothing is trimmed before a character that is no blank. -/
theorem trimEnd_append_cons {c : Char} (hc : isBlank c = false) (t : List Char) :
    trimEnd (s ++ c :: t) = s ++ c :: trimEnd t := by
  obtain ⟨blanks, ht, hblanks⟩ := exists_blanks t
  have hsplit : s ++ c :: t = (s ++ c :: trimEnd t) ++ blanks := by
    rw [List.append_assoc, List.cons_append, ← ht]
  rw [hsplit, trimEnd_append_blanks hblanks]
  refine trimEnd_of_getLast fun d hd => ?_
  rw [List.getLast?_append, List.getLast?_cons] at hd
  cases hlast : (trimEnd t).getLast? with
  | none =>
    rw [hlast] at hd
    cases hd
    exact hc
  | some e =>
    rw [hlast] at hd
    cases hd
    exact getLast?_trimEnd _ hlast

theorem trimEnd_of_blanks (h : ∀ c ∈ s, isBlank c = true) : trimEnd s = [] := by
  have hnone := trimEnd_append_blanks (s := []) h
  rwa [List.nil_append] at hnone

theorem trimEnd_trimEnd (s : List Char) : trimEnd (trimEnd s) = trimEnd s :=
  trimEnd_of_getLast getLast?_trimEnd

/-- A text is blanks only, or has a first character that is no blank. -/
theorem blanks_or_cons (s : List Char) :
    (∀ c ∈ s, isBlank c = true) ∨
      ∃ blanks c rest, s = blanks ++ c :: rest ∧ (∀ d ∈ blanks, isBlank d = true) ∧ isBlank c = false := by
  induction s with
  | nil => exact .inl nofun
  | cons d s ih =>
    cases hd : isBlank d with
    | false => exact .inr ⟨[], d, s, rfl, nofun, hd⟩
    | true =>
      rcases ih with hall | ⟨blanks, c, rest, rfl, hblanks, hc⟩
      · exact .inl (List.forall_mem_cons.2 ⟨hd, hall⟩)
      · exact .inr ⟨d :: blanks, c, rest, rfl, List.forall_mem_cons.2 ⟨hd, hblanks⟩, hc⟩

theorem trimStart_append_cons {blanks : List Char} (h : ∀ d ∈ blanks, isBlank d = true) {c : Char} (hc : isBlank c = false)
    (rest : List Char) : trimStart (blanks ++ c :: rest) = c :: rest := by
  rw [trimStart, List.dropWhile_append_of_pos h, List.dropWhile_cons_of_neg]
  rw [hc]
  exact Bool.false_ne_true

theorem trim_eq_nil_iff : trim s = [] ↔ ∀ c ∈ s, isBlank c = true := by
  rcases blanks_or_cons s with hall | ⟨blanks, c, rest, rfl, hblanks, hc⟩
  · refine ⟨fun _ => hall, fun _ => ?_⟩
    have hstart : trimStart s = [] := by
      rw [← List.append_nil s, trimStart, List.dropWhile_append_of_pos hall]
      rfl
    rw [trim, hstart]
    rfl
  · rw [trim, trimStart_append_cons hblanks hc, ← List.nil_append (c :: rest), trimEnd_append_cons hc]
    refine ⟨nofun, fun h => ?_⟩
    rw [h c (List.mem_append_right _ List.mem_cons_self)] at hc
    cases hc

/-- A text is trimmed to the same if the blanks at its end are trimmed before. -/
theorem trim_trimEnd (s : List Char) : trim (trimEnd s) = trim s := by
  rcases blanks_or_cons s with hall | ⟨blanks, c, rest, rfl, hblanks, hc⟩
  · rw [trimEnd_of_blanks hall, trim_eq_nil_iff.2 hall]
    rfl
  · rw [trimEnd_append_cons hc, trim, trim, trimStart_append_cons hblanks hc, trimStart_append_cons hblanks hc,
      ← List.nil_append (c :: trimEnd rest), ← List.nil_append (c :: rest), trimEnd_append_cons hc,
      trimEnd_append_cons hc, trimEnd_trimEnd]

/-- A text is trimmed to the same with blanks behind it. -/
theorem trim_append_blanks {blanks : List Char} (h : ∀ c ∈ blanks, isBlank c = true) : trim (s ++ blanks) = trim s := by
  rw [← trim_trimEnd, trimEnd_append_blanks h, trim_trimEnd]

/-! ## Solid texts -/

/-- A text that neither begins nor ends with a blank, and is not empty. -/
structure Solid (s : List Char) : Prop where
  head : ∃ c rest, s = c :: rest ∧ isBlank c = false
  last : ∃ rest c, s = rest ++ [c] ∧ isBlank c = false

theorem trimStart_cons_blank {c : Char} (h : isBlank c = true) : trimStart (c :: s) = trimStart s := by
  rw [trimStart, List.dropWhile_cons_of_pos h]
  rfl

theorem trimEnd_concat_blank {c : Char} (h : isBlank c = true) : trimEnd (s ++ [c]) = trimEnd s := by
  rw [trimEnd, dropEndWhile, List.reverse_append, List.reverse_singleton, List.singleton_append,
    List.dropWhile_cons_of_pos h]
  rfl

namespace Solid

theorem trimStart_append (h : Solid s) (more : List Char) : trimStart (s ++ more) = s ++ more := by
  obtain ⟨c, rest, rfl, hc⟩ := h.head
  refine trimStart_of_head fun d hd => ?_
  rw [List.cons_append, List.head?_cons] at hd
  cases hd
  exact hc

theorem trimStart (h : Solid s) : trimStart s = s := by
  have happend := h.trimStart_append []
  rwa [List.append_nil] at happend

theorem trimEnd_append (h : Solid s) (before : List Char) : trimEnd (before ++ s) = before ++ s := by
  obtain ⟨rest, c, rfl, hc⟩ := h.last
  refine trimEnd_of_getLast fun d hd => ?_
  rw [← List.append_assoc, List.getLast?_concat] at hd
  cases hd
  exact hc

theorem trimEnd (h : Solid s) : trimEnd s = s := h.trimEnd_append []

theorem trim (h : Solid s) : trim s = s := by
  rw [Text.trim, h.trimStart, h.trimEnd]

/-- A blank before a solid text is trimmed. -/
theorem trim_cons {c : Char} (h : Solid s) (hc : isBlank c = true) : Text.trim (c :: s) = s := by
  rw [Text.trim, trimStart_cons_blank hc, h.trimStart, h.trimEnd]

/-- A blank behind a solid text is trimmed. -/
theorem trim_concat {c : Char} (h : Solid s) (hc : isBlank c = true) :
    Text.trim (s ++ [c]) = s := by
  rw [Text.trim, h.trimStart_append, trimEnd_concat_blank hc, h.trimEnd]

/-- A text that begins like one solid text and ends like another is solid. -/
theorem append {t : List Char} (hs : Solid s) (ht : Solid t) (middle : List Char) :
    Solid (s ++ (middle ++ t)) := by
  obtain ⟨c, rest, rfl, hc⟩ := hs.head
  obtain ⟨rest', d, rfl, hd⟩ := ht.last
  refine ⟨⟨c, _, List.cons_append, hc⟩, ⟨c :: rest ++ (middle ++ rest'), d, ?_, hd⟩⟩
  rw [List.append_assoc, List.append_assoc]

theorem length_trimStart_le (s : List Char) : (Text.trimStart s).length ≤ s.length :=
  (List.dropWhile_sublist isBlank).length_le

theorem length_trimEnd_le (s : List Char) : (Text.trimEnd s).length ≤ s.length := by
  have hless := (List.dropWhile_sublist (l := s.reverse) isBlank).length_le
  rw [List.length_reverse] at hless
  rw [Text.trimEnd, dropEndWhile, List.length_reverse]
  exact hless

/-- A text that does not begin with a blank is solid if nothing is trimmed at its end. -/
theorem of_trimEnd {c : Char} {rest : List Char} (hs : s = c :: rest) (hc : isBlank c = false)
    (h : Text.trimEnd s = s) : Solid s := by
  have hne : s ≠ [] := by
    rw [hs]
    exact List.cons_ne_nil _ _
  refine ⟨⟨c, rest, hs, hc⟩, s.dropLast, s.getLast hne, (List.dropLast_concat_getLast hne).symm, ?_⟩
  rw [← Bool.not_eq_true]
  -- With a blank at its end it would become shorter.
  intro hblank
  have hshort := length_trimEnd_le s.dropLast
  rw [← trimEnd_concat_blank hblank, List.dropLast_concat_getLast hne, h, List.length_dropLast]
    at hshort
  have hpos := List.length_pos_iff.2 hne
  omega

/-- A text of which nothing is trimmed is solid, unless it is empty. -/
theorem of_trim (hne : s ≠ []) (h : Text.trim s = s) : Solid s := by
  obtain ⟨c, rest, rfl⟩ := List.exists_cons_of_ne_nil hne
  have hc : isBlank c = false := by
    rw [← Bool.not_eq_true]
    intro hblank
    have hshort := Nat.le_trans (length_trimEnd_le (Text.trimStart rest)) (length_trimStart_le rest)
    rw [← trimStart_cons_blank hblank, ← Text.trim, h, List.length_cons] at hshort
    omega
  refine of_trimEnd rfl hc ?_
  rwa [Text.trim, trimStart_of_head] at h
  intro d hd
  cases hd
  exact hc

end Solid

theorem trimStart_subset (s : List Char) : trimStart s ⊆ s :=
  (List.dropWhile_sublist _).subset

theorem trim_subset (s : List Char) : trim s ⊆ s := by
  intro c hc
  rw [trim, trimEnd, dropEndWhile, List.mem_reverse] at hc
  exact trimStart_subset s (List.mem_reverse.1 ((List.dropWhile_sublist _).subset hc))

/-- What is no blank is not trimmed. -/
theorem mem_trim {c : Char} (h : c ∈ s) (hc : isBlank c = false) : c ∈ trim s := by
  have hkept : ∀ t : List Char, c ∈ t → c ∈ t.dropWhile isBlank := by
    intro t ht
    induction t with
    | nil => cases ht
    | cons d rest ih =>
      by_cases hd : isBlank d = true
      · rw [List.dropWhile_cons_of_pos hd]
        rcases List.mem_cons.1 ht with rfl | ht
        · rw [hc] at hd
          cases hd
        · exact ih ht
      · rw [List.dropWhile_cons_of_neg hd]
        exact ht
  rw [trim, trimEnd, dropEndWhile, List.mem_reverse]
  refine hkept _ (List.mem_reverse.2 ?_)
  exact hkept _ h

end Playbook.Text
