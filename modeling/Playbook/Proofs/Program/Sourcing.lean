import Playbook.Proofs.Program.Reading
import Playbook.Proofs.Program.Stripping
import Playbook.Proofs.Text.Search

/-!
# `Proofs.Program.Sourcing` — where the lines that are read stand in their source

A line that is read is one raw line of the source and has the number of that line, and its block is what stands between it and the
first raw line of three quotes behind it. Where a source has no lines to be read, one of its raw lines is to blame.

Raw lines are read one by one, so that the reader has to remember in which block it is. `Reads` says the same block by block.

## Contents
- **Raw lines.** `ofRaw_eq` for a raw line between blocks, `ofRaw_block` and `ofRaw_unclosed` for those behind one that opens a block.
- **Block by block.** `Reads`, and `reads`.
- **Raw lines in a row.** `Reads.append`.
- **Origins.** `Sourced` says where a line comes from, `Faulty` what is wrong with raw lines; `Reads.traced`.
- **Line ends.** `ofRaw_lines`: blanks at the end of a line do not matter, nor how the last line ends.
-/

namespace Playbook.Program

open Text

namespace Line

variable {number : Nat} {raw raw' closing : List Char} {raws rest rest' inner : List (List Char)} {read : List Line}
  {opened : Option (Line × List (List Char))} {line : Line} {block : List (List Char)}

/-! ## Raw lines -/

theorem return_cons (line : Line) (x : Except Error (List Line)) : (do return line :: (← x)) = x.map (line :: ·) := by
  cases x <;> rfl

/-- What a raw line between blocks is says how the lines behind it are read. -/
theorem ofRaw_eq :
    ofRaw none number (raw :: rest) =
      match shape raw with
      | .blank => ofRaw none (number + 1) rest
      | .tab => .error ⟨number, .tabIndent⟩
      | .comment indent text => (ofRaw none (number + 1) rest).map (⟨number, indent, text, true, none⟩ :: ·)
      | .code indent text =>
        if opensBlock text then ofRaw (some (⟨number, indent, text, false, none⟩, [])) (number + 1) rest
        else (ofRaw none (number + 1) rest).map (⟨number, indent, text, false, none⟩ :: ·) := by
  rw [ofRaw]
  cases shape raw with
  | code indent text =>
    simp only
    split
    · rfl
    · exact return_cons _ _
  | comment indent text => exact return_cons _ _
  | _ => rfl

theorem ofRaw_opened :
    ofRaw (some (line, block)) number (raw :: rest) =
      if trim raw = tripleQuote then (ofRaw none (number + 1) rest).map ({ line with block := some block.reverse } :: ·)
      else ofRaw (some (line, trimEnd raw :: block)) (number + 1) rest := by
  rw [ofRaw]
  split
  · exact return_cons _ _
  · rfl

/-- A block ends at the first raw line of three quotes. -/
theorem ofRaw_block (hinner : ∀ raw ∈ inner, trim raw ≠ tripleQuote) (hclosing : trim closing = tripleQuote) :
    ofRaw (some (line, block)) number (inner ++ closing :: rest) =
      (ofRaw none (number + inner.length + 1) rest).map
        ({ line with block := some (block.reverse ++ inner.map trimEnd) } :: ·) := by
  induction inner generalizing number block with
  | nil => rw [List.nil_append, ofRaw_opened, if_pos hclosing, List.map_nil, List.append_nil, List.length_nil, Nat.add_zero]
  | cons raw inner ih =>
    rw [List.forall_mem_cons] at hinner
    rw [List.cons_append, ofRaw_opened, if_neg hinner.1, ih hinner.2, List.reverse_cons, List.append_assoc,
      List.singleton_append, List.map_cons, List.length_cons, Nat.add_right_comm number 1, Nat.add_assoc number]

/-- Without such a line the block is left open. -/
theorem ofRaw_unclosed (h : ∀ raw ∈ rest, trim raw ≠ tripleQuote) :
    ofRaw (some (line, block)) number rest = .error ⟨line.number, .openBlock⟩ := by
  induction rest generalizing number block with
  | nil => rfl
  | cons raw rest ih =>
    rw [List.forall_mem_cons] at h
    rw [ofRaw_opened, if_neg h.1, ih h.2]

theorem unclosed_or_block (raws : List (List Char)) :
    (∀ raw ∈ raws, trim raw ≠ tripleQuote) ∨ ∃ inner closing rest, raws = inner ++ closing :: rest ∧
      (∀ raw ∈ inner, trim raw ≠ tripleQuote) ∧ trim closing = tripleQuote := by
  induction raws with
  | nil => exact .inl nofun
  | cons raw raws ih =>
    by_cases hraw : trim raw = tripleQuote
    · exact .inr ⟨[], raw, raws, rfl, nofun, hraw⟩
    · rcases ih with hall | ⟨inner, closing, rest, rfl, hinner, hclosing⟩
      · exact .inl (List.forall_mem_cons.2 ⟨hraw, hall⟩)
      · exact .inr ⟨raw :: inner, closing, rest, rfl, List.forall_mem_cons.2 ⟨hraw, hinner⟩, hclosing⟩

/-! ## Block by block -/

/-- What is read of raw lines, the first of which has the given number. -/
inductive Reads : Nat → List (List Char) → Except Error (List Line) → Prop where
  | nil {number : Nat} : Reads number [] (.ok [])
  | blank {number : Nat} {raw : List Char} {rest : List (List Char)} {x : Except Error (List Line)}
      (shaped : shape raw = .blank) (tail : Reads (number + 1) rest x) : Reads number (raw :: rest) x
  | tab {number : Nat} {raw : List Char} {rest : List (List Char)} (shaped : shape raw = .tab) :
      Reads number (raw :: rest) (.error ⟨number, .tabIndent⟩)
  | comment {number indent : Nat} {raw text : List Char} {rest : List (List Char)} {x : Except Error (List Line)}
      (shaped : shape raw = .comment indent text) (tail : Reads (number + 1) rest x) :
      Reads number (raw :: rest) (x.map (⟨number, indent, text, true, none⟩ :: ·))
  | code {number indent : Nat} {raw text : List Char} {rest : List (List Char)} {x : Except Error (List Line)}
      (shaped : shape raw = .code indent text) (single : opensBlock text = false) (tail : Reads (number + 1) rest x) :
      Reads number (raw :: rest) (x.map (⟨number, indent, text, false, none⟩ :: ·))
  | block {number indent : Nat} {raw text closing : List Char} {inner rest : List (List Char)}
      {x : Except Error (List Line)} (shaped : shape raw = .code indent text) (opens : opensBlock text = true)
      (holds : ∀ raw ∈ inner, trim raw ≠ tripleQuote) (closes : trim closing = tripleQuote)
      (tail : Reads (number + 1 + inner.length + 1) rest x) :
      Reads number (raw :: (inner ++ closing :: rest))
        (x.map (⟨number, indent, text, false, some (inner.map trimEnd)⟩ :: ·))
  | unclosed {number indent : Nat} {raw text : List Char} {rest : List (List Char)}
      (shaped : shape raw = .code indent text) (opens : opensBlock text = true)
      (holds : ∀ raw ∈ rest, trim raw ≠ tripleQuote) : Reads number (raw :: rest) (.error ⟨number, .openBlock⟩)

/-- Raw lines are read block by block. -/
theorem reads (number : Nat) (raws : List (List Char)) : Reads number raws (ofRaw none number raws) := by
  -- The raw lines of a block are read at once, so that the induction is on how many raw lines are left.
  induction hlength : raws.length using Nat.strong_induction_on generalizing number raws with
  | _ length ih =>
    subst hlength
    cases raws with
    | nil => exact .nil
    | cons raw rest =>
      have hrest := ih rest.length (Nat.lt_succ_self _) (number + 1) rest rfl
      rw [ofRaw_eq]
      cases hshape : shape raw with
      | blank => exact .blank hshape hrest
      | tab => exact .tab hshape
      | comment indent text => exact .comment hshape hrest
      | code indent text =>
        cases hopens : opensBlock text with
        | false =>
          simp only [hopens, if_neg Bool.false_ne_true]
          exact .code hshape hopens hrest
        | true =>
          simp only [hopens, if_true]
          rcases unclosed_or_block rest with hall | ⟨inner, closing, after, rfl, hinner, hclosing⟩
          · rw [ofRaw_unclosed hall]
            exact .unclosed hshape hopens hall
          · rw [ofRaw_block hinner hclosing, List.reverse_nil, List.nil_append]
            refine .block hshape hopens hinner hclosing (ih after.length ?_ _ after rfl)
            rw [List.length_cons, List.length_append, List.length_cons]
            omega

/-! ## Raw lines in a row -/

section

variable {x : Except Error (List Line)} {f : List Line → List Line}

/-- Raw lines that end in no open block. -/
def Ended (x : Except Error (List Line)) : Prop :=
  ∀ number, x ≠ .error ⟨number, .openBlock⟩

theorem Ended.of_map (h : Ended (x.map f)) : Ended x := by
  rintro number rfl
  exact h number rfl

/-- Behind raw lines that end in no open block the reader goes on as if they were not there, but for the numbers. -/
theorem Reads.append (h : Reads number raws x) (hended : Ended x) (more : List (List Char)) :
    ofRaw none number (raws ++ more) = x.bind fun read => (ofRaw none (number + raws.length) more).map (read ++ ·) := by
  have hcons (line : Line) (x y : Except Error (List Line)) :
      (x.bind fun read => y.map (read ++ ·)).map (line :: ·) = (x.map (line :: ·)).bind fun read => y.map (read ++ ·) := by
    cases x <;> cases y <;> rfl
  induction h with
  | @nil number =>
    show ofRaw none number more = (ofRaw none number more).map ([] ++ ·)
    cases ofRaw none number more <;> rfl
  | blank shaped _ ih =>
    simp only [List.cons_append, ofRaw_eq, shaped]
    rw [ih hended, List.length_cons, Nat.add_assoc, Nat.add_comm 1]
  | tab shaped =>
    simp only [List.cons_append, ofRaw_eq, shaped]
    rfl
  | comment shaped _ ih =>
    simp only [List.cons_append, ofRaw_eq, shaped]
    rw [ih hended.of_map, hcons, List.length_cons, Nat.add_assoc, Nat.add_comm 1]
  | code shaped single _ ih =>
    simp only [List.cons_append, ofRaw_eq, shaped, single, if_neg Bool.false_ne_true]
    rw [ih hended.of_map, hcons, List.length_cons, Nat.add_assoc, Nat.add_comm 1]
  | @block number indent raw text closing inner rest x shaped opens holds closes _ ih =>
    have hlength : number + 1 + inner.length + 1 + rest.length = number + (raw :: (inner ++ closing :: rest)).length := by
      rw [List.length_cons, List.length_append, List.length_cons]
      omega
    simp only [List.cons_append, List.append_assoc, ofRaw_eq, shaped, opens, if_true, ofRaw_block holds closes]
    rw [ih hended.of_map, hcons, hlength, List.reverse_nil, List.nil_append]
  | unclosed shaped opens holds => exact absurd rfl (hended _)

end

/-! ## Origins -/

/-- Where a line comes from: it is one of the raw lines, and its block the raw lines behind that up to one of three quotes. -/
inductive Sourced (first : Nat) (raws : List (List Char)) : Line → Prop where
  | comment {indent : Nat} {raw text : List Char} (front : List (List Char)) {rest : List (List Char)}
      (split : raws = front ++ raw :: rest) (shaped : shape raw = .comment indent text) :
      Sourced first raws ⟨first + front.length, indent, text, true, none⟩
  | code {indent : Nat} {raw text : List Char} (front : List (List Char)) {rest : List (List Char)}
      (split : raws = front ++ raw :: rest) (shaped : shape raw = .code indent text) (single : opensBlock text = false) :
      Sourced first raws ⟨first + front.length, indent, text, false, none⟩
  | block {indent : Nat} {raw text closing : List Char} (front : List (List Char)) {inner rest : List (List Char)}
      (split : raws = front ++ raw :: (inner ++ closing :: rest)) (shaped : shape raw = .code indent text)
      (opens : opensBlock text = true) (holds : ∀ raw ∈ inner, trim raw ≠ tripleQuote)
      (closes : trim closing = tripleQuote) :
      Sourced first raws ⟨first + front.length, indent, text, false, some (inner.map trimEnd)⟩

/-- What is wrong with raw lines that cannot be read, and which of them is to blame. -/
inductive Faulty (first : Nat) (raws : List (List Char)) : Error → Prop where
  | tab {raw : List Char} (front : List (List Char)) {rest : List (List Char)} (split : raws = front ++ raw :: rest)
      (shaped : shape raw = .tab) : Faulty first raws ⟨first + front.length, .tabIndent⟩
  | unclosed {indent : Nat} {raw text : List Char} (front : List (List Char)) {rest : List (List Char)}
      (split : raws = front ++ raw :: rest) (shaped : shape raw = .code indent text) (opens : opensBlock text = true)
      (holds : ∀ raw ∈ rest, trim raw ≠ tripleQuote) : Faulty first raws ⟨first + front.length, .openBlock⟩

theorem add_length (first : Nat) (passed front : List (List Char)) :
    first + passed.length + front.length = first + (passed ++ front).length := by
  rw [List.length_append, Nat.add_assoc]

theorem Sourced.behind {passed : List (List Char)} (h : Sourced (number + passed.length) rest line) :
    Sourced number (passed ++ rest) line := by
  cases h with
  | comment front split shaped =>
    rw [add_length]
    exact .comment (passed ++ front) (by rw [split, List.append_assoc]) shaped
  | code front split shaped single =>
    rw [add_length]
    exact .code (passed ++ front) (by rw [split, List.append_assoc]) shaped single
  | block front split shaped opens holds closes =>
    rw [add_length]
    exact .block (passed ++ front) (by rw [split, List.append_assoc]) shaped opens holds closes

theorem Faulty.behind {e : Error} {passed : List (List Char)} (h : Faulty (number + passed.length) rest e) :
    Faulty number (passed ++ rest) e := by
  cases h with
  | tab front split shaped =>
    rw [add_length]
    exact .tab (passed ++ front) (by rw [split, List.append_assoc]) shaped
  | unclosed front split shaped opens holds =>
    rw [add_length]
    exact .unclosed (passed ++ front) (by rw [split, List.append_assoc]) shaped opens holds

theorem Sourced.number_lt (h : Sourced number raws line) : line.number < number + raws.length := by
  obtain ⟨front, raw, rest, split, hnumber⟩ : ∃ front raw rest, raws = front ++ raw :: rest ∧
      line.number = number + front.length := by
    cases h with
    | comment front split => exact ⟨front, _, _, split, rfl⟩
    | code front split => exact ⟨front, _, _, split, rfl⟩
    | block front split => exact ⟨front, _, _, split, rfl⟩
  rw [hnumber, split, List.length_append, List.length_cons]
  omega

/-- Where lines that are read come from, or what is wrong with the raw lines. -/
inductive Traced (first : Nat) (raws : List (List Char)) : Except Error (List Line) → Prop where
  | read {read : List Line} (sourced : ∀ line ∈ read, Sourced first raws line) : Traced first raws (.ok read)
  | failed {e : Error} (faulty : Faulty first raws e) : Traced first raws (.error e)

namespace Traced

variable {x : Except Error (List Line)}

theorem behind (passed : List (List Char)) (h : Traced (number + passed.length) rest x) : Traced number (passed ++ rest) x := by
  cases h with
  | read sourced => exact .read fun line hline => (sourced line hline).behind
  | failed faulty => exact .failed faulty.behind

theorem cons (hline : Sourced number raws line) (h : Traced number raws x) : Traced number raws (x.map (line :: ·)) := by
  cases h with
  | read sourced => exact .read (List.forall_mem_cons.2 ⟨hline, sourced⟩)
  | failed faulty => exact .failed faulty

end Traced

theorem Reads.traced {x : Except Error (List Line)} (h : Reads number raws x) : Traced number raws x := by
  induction h with
  | nil => exact .read nofun
  | @blank number raw rest x shaped _ ih => exact .behind [raw] ih
  | tab shaped => exact .failed (.tab [] rfl shaped)
  | @comment number indent raw text rest x shaped _ ih =>
    exact .cons (.comment [] rfl shaped) (.behind [raw] ih)
  | @code number indent raw text rest x shaped single _ ih =>
    exact .cons (.code [] rfl shaped single) (.behind [raw] ih)
  | @block number indent raw text closing inner rest x shaped opens holds closes _ ih =>
    refine .cons (.block [] rfl shaped opens holds closes) ?_
    have hpassed : raw :: (inner ++ closing :: rest) = (raw :: inner ++ [closing]) ++ rest := by
      rw [List.append_assoc, List.singleton_append, List.cons_append]
    have hlength : number + 1 + inner.length + 1 = number + (raw :: inner ++ [closing]).length := by
      rw [List.length_append, List.length_cons, List.length_singleton]
      omega
    rw [hlength] at ih
    rw [hpassed]
    exact .behind _ ih
  | unclosed shaped opens holds => exact .failed (.unclosed [] rfl shaped opens holds)

/-! ## Line ends -/

/-- Blanks at the end of a raw line do not matter. -/
theorem shape_congr (h : trimEnd raw = trimEnd raw') : shape raw = shape raw' := by
  rw [shape, shape, h]

theorem ofRaw_congr (hraw : trimEnd raw = trimEnd raw')
    (hrest : ∀ opened number, ofRaw opened number rest = ofRaw opened number rest') :
    ofRaw opened number (raw :: rest) = ofRaw opened number (raw' :: rest') := by
  cases opened with
  | none => simp only [ofRaw_eq, shape_congr hraw, hrest]
  | some found =>
    have htrim : trim raw = trim raw' := by rw [← trim_trimEnd raw, hraw, trim_trimEnd]
    rw [ofRaw_opened, ofRaw_opened, htrim, hraw, hrest, hrest]

/-- A line that is empty at the end of a source does not matter. -/
theorem ofRaw_empty : ofRaw opened number [[]] = ofRaw opened number [] := by
  cases opened <;> rfl

/-- A line ends before a line feed, or before the carriage return before that. -/
theorem exists_line (passed s : List Char) :
    ∃ line, linesFrom passed ('\n' :: s) = line :: linesFrom [] s ∧ trimEnd line = trimEnd passed.reverse := by
  by_cases hpassed : passed.head? = some '\r'
  · obtain ⟨line, rfl⟩ := List.head?_eq_some_iff.1 hpassed
    refine ⟨line.reverse, by rw [linesFrom, if_pos rfl], ?_⟩
    rw [List.reverse_cons, trimEnd_concat_blank rfl]
  · exact ⟨passed.reverse, linesFrom_feed hpassed, rfl⟩

/-- `ofRaw` reads the same if carriage returns before line feeds are taken for ends of lines. -/
theorem ofRaw_lines (opened : Option (Line × List (List Char))) (number : Nat) (s : List Char) :
    ofRaw opened number (lines s) = ofRaw opened number (splitOn '\n' s) := by
  have hfrom : ∀ passed opened number,
      ofRaw opened number (linesFrom passed s) = ofRaw opened number (splitOnFrom '\n' passed s) := by
    induction s with
    | nil =>
      intro passed opened number
      cases passed with
      | nil => exact ofRaw_empty.symm
      | cons c passed => rfl
    | cons c rest ih =>
      intro passed opened number
      rw [splitOnFrom]
      split
      · rename_i hc
        obtain ⟨line, hline, htrim⟩ := exists_line passed rest
        rw [hc, hline]
        exact ofRaw_congr htrim fun opened number => ih [] opened number
      · rename_i hc
        rw [linesFrom_cons hc]
        exact ih _ _ _
  exact hfrom [] opened number

end Line

end Playbook.Program
