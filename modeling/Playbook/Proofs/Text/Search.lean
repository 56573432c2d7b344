import Mathlib.Data.List.Infix
import Playbook.Text.Search

/-!
# `Proofs.Text.Search` — what is found in a text that was put together

## Contents
- **Affixes.** `stripPrefix_append`, `stripSuffix_append`, `endsWith_concat`.
- **First occurrence.** `FirstAt` says where a needle stands first; a text is cut there (`splitFirst_eq_some_iff`), or not at all
  (`splitFirst_eq_none_iff`). `splitFirst_needle` for a needle whose first character is its own; `splitFirst_append`,
  `splitFirst_of_not_mem` and `splitFirst_eq_some` for single characters; `occurrences_append` for a text behind one in which the needle
  cannot begin.
- **Pieces.** `splitOn_append`, `splitOn_of_not_mem`; `joinWith_splitOn` and `splitOn_joinWith`: cutting a text and putting its pieces
  together undo each other.
- **Lines.** `lines_append_feed` and `lines_flatMap`: lines that are written one after another are read back.
-/

namespace Playbook.Text

variable {s before after : List Char} {c d : Char}

/-! ## Affixes -/

theorem stripPrefix_append (pre s : List Char) : stripPrefix pre (pre ++ s) = some s :=
  stripPrefix_eq_some_iff.2 rfl

theorem stripSuffix_append (s suf : List Char) : stripSuffix suf (s ++ suf) = some s := by
  rw [stripSuffix, List.reverse_append, stripPrefix_append, Option.map_some, List.reverse_reverse]

theorem startsWith_append (pre s : List Char) : startsWith (pre ++ s) pre = true := by
  rw [startsWith, stripPrefix_append]
  rfl

theorem endsWith_append_self (s suf : List Char) : endsWith (s ++ suf) suf = true := by
  rw [endsWith, stripSuffix_append]
  rfl

/-- What precedes the end of a text. -/
theorem eq_append_of_endsWith {suf : List Char} (h : endsWith s suf = true) :
    ∃ front, s = front ++ suf := by
  obtain ⟨front, hfront⟩ := Option.isSome_iff_exists.1 h
  obtain ⟨rest, hrest, rfl⟩ := Option.map_eq_some_iff.1 hfront
  rw [stripPrefix_eq_some_iff] at hrest
  refine ⟨rest.reverse, ?_⟩
  rw [← List.reverse_reverse s, hrest, List.reverse_append, List.reverse_reverse]

/-- A text does not end in any character but its last one. -/
theorem endsWith_concat (h : c ≠ d) : endsWith (s ++ [c]) [d] = false := by
  rw [endsWith, stripSuffix, List.reverse_append, List.reverse_singleton, List.reverse_singleton,
    List.singleton_append, stripPrefix, if_neg (Ne.symm h)]
  rfl

/-! ## First occurrence -/

theorem stripPrefix_singleton (s : List Char) : stripPrefix [c] (c :: s) = some s := by
  rw [stripPrefix, if_pos rfl, stripPrefix]

theorem stripPrefix_singleton_ne (h : c ≠ d) (s : List Char) : stripPrefix [c] (d :: s) = none := by
  rw [stripPrefix, if_neg h]

variable {needle : List Char}

/-- What is found of a text stands in it where it was found. -/
theorem eq_append_of_splitFirstFrom {passed : List Char} (h : splitFirstFrom needle passed s = some (before, after)) :
    passed.reverse ++ s = before ++ needle ++ after := by
  induction s generalizing passed with
  | nil =>
    rw [splitFirstFrom] at h
    split at h
    · rename_i hempty
      cases h
      rw [List.isEmpty_iff.1 hempty, List.append_nil, List.append_nil]
    · cases h
  | cons d rest ih =>
    rw [splitFirstFrom] at h
    split at h
    · rename_i found hfound
      cases h
      rw [stripPrefix_eq_some_iff.1 hfound, List.append_assoc]
    · rw [← ih h, List.reverse_cons, List.append_assoc, List.singleton_append]

/-- A text is not cut at what does not stand in it. -/
theorem splitFirst_eq_none (h : ¬needle <:+: s) : splitFirst needle s = none := by
  cases hsplit : splitFirst needle s with
  | none => rfl
  | some found => exact absurd ⟨found.1, found.2, (eq_append_of_splitFirstFrom hsplit).symm⟩ h

/-- What was passed only stands before what is found. -/
theorem splitFirstFrom_eq_map (needle passed s : List Char) :
    splitFirstFrom needle passed s = (splitFirst needle s).map fun found => (passed.reverse ++ found.1, found.2) := by
  induction s generalizing passed with
  | nil =>
    rw [splitFirst, splitFirstFrom, splitFirstFrom]
    split
    · rw [Option.map_some, List.reverse_nil, List.append_nil]
    · rfl
  | cons c rest ih =>
    rw [splitFirst, splitFirstFrom, splitFirstFrom]
    split
    · rw [Option.map_some, List.reverse_nil, List.append_nil]
    · rw [ih, ih [c], Option.map_map]
      congr 1
      funext found
      simp

theorem splitFirst_cons (needle : List Char) (c : Char) (s : List Char) :
    splitFirst needle (c :: s) =
      match stripPrefix needle (c :: s) with
      | some after => some ([], after)
      | none => (splitFirst needle s).map fun found => (c :: found.1, found.2) := by
  rw [splitFirst, splitFirstFrom]
  cases stripPrefix needle (c :: s) with
  | some after => rfl
  | none => exact splitFirstFrom_eq_map needle [c] s

/-- A text that is put together around a needle is cut somewhere. -/
theorem splitFirst_isSome (needle before after : List Char) : (splitFirst needle (before ++ (needle ++ after))).isSome := by
  induction before with
  | nil =>
    cases hs : needle ++ after with
    | nil =>
      rw [(List.append_eq_nil_iff.1 hs).1]
      rfl
    | cons c rest =>
      rw [List.nil_append, splitFirst_cons, ← hs, stripPrefix_append]
      rfl
  | cons c before ih =>
    rw [List.cons_append, splitFirst_cons]
    split
    · rfl
    · rwa [Option.isSome_map]

/-- A text is not cut if and only if the needle does not stand in it. -/
theorem splitFirst_eq_none_iff : splitFirst needle s = none ↔ ¬needle <:+: s := by
  refine ⟨?_, splitFirst_eq_none⟩
  rintro hnone ⟨before, after, rfl⟩
  have hsome := splitFirst_isSome needle before after
  rw [← List.append_assoc, hnone] at hsome
  cases hsome

/-- The first place in a text where a needle stands, by what stands before and behind it. -/
structure FirstAt (needle s before after : List Char) : Prop where
  /-- The needle stands at the place. -/
  cut : s = before ++ needle ++ after
  /-- The needle stands nowhere before the place. -/
  first : ∀ before' after', s = before' ++ needle ++ after' → before.length ≤ before'.length

theorem firstAt_of_splitFirst (h : splitFirst needle s = some (before, after)) : FirstAt needle s before after := by
  refine ⟨eq_append_of_splitFirstFrom h, fun before' after' hs => ?_⟩
  induction s generalizing before before' with
  | nil =>
    have hnil := eq_append_of_splitFirstFrom h
    rw [List.reverse_nil, List.nil_append, eq_comm, List.append_assoc, List.append_eq_nil_iff] at hnil
    rw [hnil.1]
    exact Nat.zero_le _
  | cons c rest ih =>
    rw [splitFirst_cons] at h
    split at h
    · cases h
      exact Nat.zero_le _
    · rename_i hstrip
      obtain ⟨⟨front, back⟩, hfound, heq⟩ := Option.map_eq_some_iff.1 h
      cases heq
      cases before' with
      | nil =>
        rw [List.nil_append] at hs
        rw [hs, stripPrefix_append] at hstrip
        cases hstrip
      | cons d before' => exact Nat.succ_le_succ (ih hfound before' (List.cons.inj hs).2)

theorem FirstAt.isInfix (h : FirstAt needle s before after) : needle <:+: s :=
  ⟨before, after, h.cut.symm⟩

/-- What stands before the first needle does not hold it. -/
theorem FirstAt.not_infix_before (h : FirstAt needle s before after) (hne : needle ≠ []) : ¬needle <:+: before := by
  rintro ⟨front, back, rfl⟩
  have hless := h.first front (back ++ needle ++ after) (by rw [h.cut]; simp only [List.append_assoc])
  simp only [List.length_append] at hless
  have hlength := List.length_pos_iff.2 hne
  omega

theorem FirstAt.unique {before' after' : List Char} (h : FirstAt needle s before after) (h' : FirstAt needle s before' after') :
    before = before' ∧ after = after' := by
  have hlength := Nat.le_antisymm (h.first _ _ h'.cut) (h'.first _ _ h.cut)
  have hsame := h.cut.symm.trans h'.cut
  rw [List.append_assoc, List.append_assoc] at hsame
  obtain ⟨hbefore, hrest⟩ := List.append_inj hsame hlength
  exact ⟨hbefore, List.append_cancel_left hrest⟩

/-- A text is cut at the first place where the needle stands. -/
theorem splitFirst_eq_some_iff : splitFirst needle s = some (before, after) ↔ FirstAt needle s before after := by
  refine ⟨firstAt_of_splitFirst, fun h => ?_⟩
  have hsome := splitFirst_isSome needle before after
  rw [← List.append_assoc, ← h.cut] at hsome
  obtain ⟨⟨front, back⟩, hfound⟩ := Option.isSome_iff_exists.1 hsome
  obtain ⟨rfl, rfl⟩ := (firstAt_of_splitFirst hfound).unique h
  exact hfound

/-- A needle that begins with a character of its own does not begin in one text and end in another needle behind it. -/
theorem stripPrefix_needle (hc : c ∉ needle) (hbefore : ¬(c :: needle) <:+: before) (hne : before ≠ []) (after : List Char) :
    stripPrefix (c :: needle) (before ++ (c :: needle) ++ after) = none := by
  cases hstrip : stripPrefix (c :: needle) (before ++ (c :: needle) ++ after) with
  | none => rfl
  | some found =>
    exfalso
    have hfound := stripPrefix_eq_some_iff.1 hstrip
    rw [List.append_assoc] at hfound
    rcases List.append_eq_append_iff.1 hfound with ⟨more, hneedle, hrest⟩ | ⟨more, htext, _⟩
    · -- The second needle would begin inside the first.
      cases more with
      | nil =>
        rw [List.append_nil] at hneedle
        exact hbefore (hneedle ▸ List.infix_rfl)
      | cons d more =>
        have hd : d = c := (List.cons.inj hrest).1.symm
        obtain ⟨first, front, rfl⟩ := List.exists_cons_of_ne_nil hne
        have htail : needle = front ++ d :: more := (List.cons.inj hneedle).2
        rw [htail, hd] at hc
        exact hc (List.mem_append_right front List.mem_cons_self)
    · exact hbefore ⟨[], more, htext.symm⟩

theorem splitFirstFrom_needle {passed : List Char} (hc : c ∉ needle) (hbefore : ¬(c :: needle) <:+: before)
    (after : List Char) :
    splitFirstFrom (c :: needle) passed (before ++ (c :: needle) ++ after) = some (passed.reverse ++ before, after) := by
  induction before generalizing passed with
  | nil =>
    show splitFirstFrom (c :: needle) passed (c :: (needle ++ after)) = _
    have hstrip : stripPrefix (c :: needle) (c :: (needle ++ after)) = some after := stripPrefix_append (c :: needle) after
    rw [splitFirstFrom, hstrip, List.append_nil]
  | cons d rest ih =>
    have hstrip := stripPrefix_needle hc hbefore (List.cons_ne_nil d rest) after
    have hrest : ¬(c :: needle) <:+: rest := fun hinside => hbefore (hinside.trans (List.suffix_cons d rest).isInfix)
    rw [List.cons_append, List.cons_append] at hstrip ⊢
    rw [splitFirstFrom, hstrip]
    simp only
    rw [ih hrest, List.reverse_cons, List.append_assoc, List.singleton_append]

/-- A text is cut at the first needle in it, wherever the needle might begin before, if the needle's first character is its own. -/
theorem splitFirst_needle (hc : c ∉ needle) (hbefore : ¬(c :: needle) <:+: before) (after : List Char) :
    splitFirst (c :: needle) (before ++ (c :: needle) ++ after) = some (before, after) :=
  splitFirstFrom_needle hc hbefore after

theorem splitFirstFrom_append {passed : List Char} (h : c ∉ before) :
    splitFirstFrom [c] passed (before ++ c :: after) = some (passed.reverse ++ before, after) := by
  have hbefore : ¬[c] <:+: before := by rwa [List.singleton_infix_iff]
  have hfound : splitFirstFrom [c] passed (before ++ [c] ++ after) = _ := splitFirstFrom_needle List.not_mem_nil hbefore after
  rwa [List.append_assoc, List.singleton_append] at hfound

/-- A text is split at the first copy of a character. -/
theorem splitFirst_append (h : c ∉ before) (after : List Char) :
    splitFirst [c] (before ++ c :: after) = some (before, after) :=
  splitFirstFrom_append h

/-- A text without a character is not split at it. -/
theorem splitFirst_of_not_mem (h : c ∉ s) : splitFirst [c] s = none := by
  refine splitFirst_eq_none ?_
  rwa [List.singleton_infix_iff]

/-- What stands before the first copy of a character does not hold it. -/
theorem splitFirst_eq_some (h : splitFirst [c] s = some (before, after)) :
    s = before ++ c :: after ∧ c ∉ before := by
  by_cases hc : c ∈ s
  · obtain ⟨front, back, rfl, hfront⟩ := List.eq_append_cons_of_mem hc
    rw [splitFirst_append hfront back] at h
    cases h
    exact ⟨rfl, hfront⟩
  · rw [splitFirst_of_not_mem hc] at h
    cases h

theorem occurrences_cons (h : c ≠ d) (s : List Char) :
    occurrences (d :: needle) (c :: s) = occurrences (d :: needle) s := by
  have hsplit : splitFirst (d :: needle) (c :: s) =
      (splitFirst (d :: needle) s).map fun found => (c :: found.1, found.2) := by
    rw [splitFirst_cons, stripPrefix, if_neg h.symm]
  rw [occurrences, occurrences]
  simp only [reduceCtorEq, dite_false]
  split
  · rename_i hnone
    rw [hsplit, Option.map_eq_none_iff] at hnone
    split
    · rfl
    · rename_i hsome
      rw [hnone] at hsome
      cases hsome
  · rename_i before after hsome
    rw [hsplit, Option.map_eq_some_iff] at hsome
    obtain ⟨found, hfound, heq⟩ := hsome
    cases heq
    split
    · rename_i hnone
      rw [hnone] at hfound
      cases hfound
    · rename_i hsome
      rw [hsome] at hfound
      cases hfound
      rfl

/-- A needle is not found where it cannot begin. -/
theorem occurrences_append (h : d ∉ before) (s : List Char) :
    occurrences (d :: needle) (before ++ s) = occurrences (d :: needle) s := by
  induction before with
  | nil => rfl
  | cons c rest ih =>
    rw [List.mem_cons, not_or] at h
    rw [List.cons_append, occurrences_cons (Ne.symm h.1), ih h.2]

/-- Whether a text ends with a needle does not depend on what stands before in which the needle cannot begin. -/
theorem endsWith_append (h : d ∉ before) (s : List Char) :
    endsWith (before ++ s) (d :: needle) = endsWith s (d :: needle) := by
  rw [Bool.eq_iff_iff]
  constructor
  · intro hends
    obtain ⟨front, hfront⟩ := eq_append_of_endsWith hends
    rcases List.append_eq_append_iff.1 hfront with ⟨more, rfl, hs⟩ | ⟨more, rfl, hneedle⟩
    · rw [hs]
      exact endsWith_append_self more _
    · cases more with
      | nil =>
        exact hneedle ▸ endsWith_append_self [] _
      | cons e more =>
        cases hneedle
        exact absurd (List.mem_append_right _ List.mem_cons_self) h
  · intro hends
    obtain ⟨front, rfl⟩ := eq_append_of_endsWith hends
    rw [← List.append_assoc]
    exact endsWith_append_self _ _

/-! ## Pieces -/

theorem splitOnFrom_append (piece before after : List Char) :
    splitOnFrom c piece (before ++ c :: after) = splitOnFrom c piece before ++ splitOn c after := by
  induction before generalizing piece with
  | nil => rw [List.nil_append, splitOnFrom, splitOnFrom, if_pos rfl, List.singleton_append, splitOn]
  | cons d rest ih =>
    rw [List.cons_append, splitOnFrom, splitOnFrom]
    split
    · rw [ih, List.cons_append]
    · exact ih _

/-- The pieces of a text are those on either side of a cut. -/
theorem splitOn_append (c : Char) (before after : List Char) :
    splitOn c (before ++ c :: after) = splitOn c before ++ splitOn c after :=
  splitOnFrom_append [] before after

/-- A text without a character is not cut at it. -/
theorem splitOn_of_not_mem (h : c ∉ s) : splitOn c s = [s] := by
  have hfrom : ∀ piece, splitOnFrom c piece s = [piece.reverse ++ s] := by
    intro piece
    induction s generalizing piece with
    | nil => rw [splitOnFrom, List.append_nil]
    | cons d rest ih =>
      rw [List.mem_cons, not_or] at h
      rw [splitOnFrom, if_neg (Ne.symm h.1), ih h.2, List.reverse_cons, List.append_assoc,
        List.singleton_append]
  exact hfrom []

theorem not_mem_of_mem_splitOnFrom {passed piece : List Char} (hpassed : c ∉ passed) (h : piece ∈ splitOnFrom c passed s) :
    c ∉ piece := by
  induction s generalizing passed with
  | nil =>
    rw [splitOnFrom, List.mem_singleton] at h
    rw [h, List.mem_reverse]
    exact hpassed
  | cons d rest ih =>
    rw [splitOnFrom] at h
    split at h
    · rcases List.mem_cons.1 h with rfl | h
      · rw [List.mem_reverse]
        exact hpassed
      · exact ih List.not_mem_nil h
    · rename_i hd
      exact ih (List.not_mem_cons_of_ne_of_not_mem (Ne.symm hd) hpassed) h

/-- No piece of a text has a character at which the text is cut. -/
theorem not_mem_of_mem_splitOn {piece : List Char} (h : piece ∈ splitOn c s) : c ∉ piece :=
  not_mem_of_mem_splitOnFrom List.not_mem_nil h

theorem mem_of_mem_splitOnFrom {passed piece : List Char} (h : piece ∈ splitOnFrom c passed s) (hd : d ∈ piece) :
    d ∈ passed ∨ d ∈ s := by
  induction s generalizing passed with
  | nil =>
    rw [splitOnFrom, List.mem_singleton] at h
    rw [h, List.mem_reverse] at hd
    exact .inl hd
  | cons next rest ih =>
    rw [splitOnFrom] at h
    split at h
    · rcases List.mem_cons.1 h with rfl | h
      · exact .inl (List.mem_reverse.1 hd)
      · exact .inr (List.mem_cons_of_mem _ ((ih h).resolve_left List.not_mem_nil))
    · rcases ih h with h | h
      · rcases List.mem_cons.1 h with rfl | h
        · exact .inr List.mem_cons_self
        · exact .inl h
      · exact .inr (List.mem_cons_of_mem _ h)

/-- The characters of a piece are the text's. -/
theorem mem_of_mem_splitOn {piece : List Char} (h : piece ∈ splitOn c s) (hd : d ∈ piece) : d ∈ s :=
  (mem_of_mem_splitOnFrom h hd).resolve_left List.not_mem_nil

theorem splitOnFrom_ne_nil (c : Char) (passed s : List Char) : splitOnFrom c passed s ≠ [] := by
  induction s generalizing passed with
  | nil => exact List.cons_ne_nil _ _
  | cons d rest ih =>
    rw [splitOnFrom]
    split
    · exact List.cons_ne_nil _ _
    · exact ih _

theorem joinWith_cons (sep piece : List Char) {pieces : List (List Char)} (h : pieces ≠ []) :
    joinWith sep (piece :: pieces) = piece ++ sep ++ joinWith sep pieces := by
  cases pieces with
  | nil => exact absurd rfl h
  | cons next rest => rfl

/-- The pieces of a text, put together where it was cut, are the text. -/
theorem joinWith_splitOn (c : Char) (s : List Char) : joinWith [c] (splitOn c s) = s := by
  have hfrom : ∀ passed, joinWith [c] (splitOnFrom c passed s) = passed.reverse ++ s := by
    induction s with
    | nil =>
      intro passed
      rw [splitOnFrom, joinWith, List.append_nil]
    | cons d rest ih =>
      intro passed
      rw [splitOnFrom]
      split
      · rename_i hd
        rw [joinWith_cons _ _ (splitOnFrom_ne_nil c [] rest), ih, hd, List.reverse_nil, List.nil_append, List.append_assoc,
          List.singleton_append]
      · rw [ih, List.reverse_cons, List.append_assoc, List.singleton_append]
  exact hfrom []

/-- Pieces that are put together are those that the text is cut into. -/
theorem splitOn_joinWith {pieces : List (List Char)} (hne : pieces ≠ []) (h : ∀ piece ∈ pieces, c ∉ piece) :
    splitOn c (joinWith [c] pieces) = pieces := by
  induction pieces with
  | nil => exact absurd rfl hne
  | cons piece rest ih =>
    rw [List.forall_mem_cons] at h
    cases rest with
    | nil => exact splitOn_of_not_mem h.1
    | cons next rest =>
      rw [joinWith_cons _ _ (List.cons_ne_nil next rest), List.append_assoc, List.singleton_append, splitOn_append,
        splitOn_of_not_mem h.1, ih (List.cons_ne_nil next rest) h.2, List.singleton_append]

/-! ## Lines -/

/-- A line that can be written: it holds no line feed, and ends in no carriage return. -/
structure Writable (line : List Char) : Prop where
  feed : '\n' ∉ line
  carriage : line.getLast? ≠ some '\r'

theorem linesFrom_cons {passed rest : List Char} (h : c ≠ '\n') :
    linesFrom passed (c :: rest) = linesFrom (c :: passed) rest := by
  cases passed with
  | nil =>
    rw [linesFrom, if_neg h]
    nofun
  | cons d passed =>
    by_cases hd : d = '\r'
    · rw [hd, linesFrom, if_neg h]
    · rw [linesFrom, if_neg h]
      intro front hfront
      cases hfront
      exact hd rfl

theorem linesFrom_append {line passed rest : List Char} (h : '\n' ∉ line) :
    linesFrom passed (line ++ rest) = linesFrom (line.reverse ++ passed) rest := by
  induction line generalizing passed with
  | nil => rfl
  | cons c line ih =>
    rw [List.mem_cons, not_or] at h
    rw [List.cons_append, linesFrom_cons (Ne.symm h.1), ih h.2, List.reverse_cons,
      List.append_assoc, List.singleton_append]

theorem linesFrom_feed {passed rest : List Char} (h : passed.head? ≠ some '\r') :
    linesFrom passed ('\n' :: rest) = passed.reverse :: linesFrom [] rest := by
  rw [linesFrom]
  · rw [if_pos rfl]
  · rintro front rfl
    exact h rfl

/-- A line that is written before others is read first, without a carriage return at its end. -/
theorem lines_append_feed {line : List Char} (h : '\n' ∉ line) (rest : List Char) :
    ∃ shown, (line = shown ∨ line = shown ++ ['\r']) ∧ lines (line ++ '\n' :: rest) = shown :: lines rest := by
  have hline : lines (line ++ '\n' :: rest) = linesFrom line.reverse ('\n' :: rest) := by
    rw [lines, linesFrom_append h, List.append_nil]
  by_cases hlast : line.getLast? = some '\r'
  · obtain ⟨shown, rfl⟩ := List.getLast?_eq_some_iff.1 hlast
    refine ⟨shown, .inr rfl, ?_⟩
    rw [hline, List.reverse_append, List.reverse_singleton, List.singleton_append, linesFrom, if_pos rfl, List.reverse_reverse, lines]
  · refine ⟨line, .inl rfl, ?_⟩
    rw [hline, linesFrom_feed (by rwa [List.head?_reverse]), List.reverse_reverse, lines]

/-- Lines that are written one after another are read back. -/
theorem lines_flatMap {written : List (List Char)} (h : ∀ line ∈ written, Writable line) :
    lines (written.flatMap fun line => line ++ ['\n']) = written := by
  rw [lines]
  induction written with
  | nil => rfl
  | cons line rest ih =>
    rw [List.forall_mem_cons] at h
    have hlast : line.reverse.head? ≠ some '\r' := by
      rw [List.head?_reverse]
      exact h.1.carriage
    rw [List.flatMap_cons, List.append_assoc, linesFrom_append h.1.feed, List.append_nil,
      List.singleton_append, linesFrom_feed hlast, List.reverse_reverse, ih h.2]

end Playbook.Text
