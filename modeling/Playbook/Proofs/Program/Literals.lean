import Playbook.Proofs.Program.Stripping
import Playbook.Proofs.Program.Wording

/-!
# `Proofs.Program.Literals` — where a literal ends

Two scanners go over the quotes of a line. The comment stripper goes character by character and remembers a backslash; the reader of
literals takes a backslash together with what follows it. Both are compared with one grammar of what can stand between two quotes:
either of them passes over such a text, so both find the same quote to close the literal, or none.

## Contents
- **What is quoted.** `Quoted` texts, and the `Ending` that follows them; `exists_quoted`: every text splits so.
- **Quotes at the end.** `Quoted.getLast?_eq_backslash`, `Quoted.endsWith_literal`.
- **The stripper.** `Quoted.after_inside`, `Quoted.after_literal`.
- **The reader.** `literalFrom_pair`, `Quoted.literalFrom_append`.
- **Statement.** `stripComment_stringLiteral`.
-/

namespace Playbook.Program

open Text

/-! ## What is quoted -/

/-- What can stand between the quotes of a literal: characters other than quotes and backslashes, and pairs of a backslash and any
    character. -/
inductive Quoted : List Char → Prop where
  | nil : Quoted []
  | plain {c : Char} {inner : List Char} (quote : c ≠ '"') (backslash : c ≠ '\\') (rest : Quoted inner) : Quoted (c :: inner)
  | pair (c : Char) {inner : List Char} (rest : Quoted inner) : Quoted ('\\' :: c :: inner)

/-- How a text goes on behind what is quoted: with the quote that closes the literal, or not at all, or with a backslash that has
    nothing behind it. -/
inductive Ending : List Char → Prop where
  | closed (rest : List Char) : Ending ('"' :: rest)
  | missing : Ending []
  | dangling : Ending ['\\']

/-- Every text behind an opening quote goes on in one of these ways. -/
theorem exists_quoted (text : List Char) : ∃ inner ending, text = inner ++ ending ∧ Quoted inner ∧ Ending ending := by
  match text with
  | [] => exact ⟨[], [], rfl, .nil, .missing⟩
  | c :: rest =>
    by_cases hquote : c = '"'
    · subst hquote
      exact ⟨[], '"' :: rest, rfl, .nil, .closed rest⟩
    by_cases hbackslash : c = '\\'
    · subst hbackslash
      match rest with
      | [] => exact ⟨[], ['\\'], rfl, .nil, .dangling⟩
      | d :: rest =>
        -- A backslash takes the next character with it, be it a quote or another backslash.
        obtain ⟨inner, ending, rfl, hinner, hending⟩ := exists_quoted rest
        exact ⟨'\\' :: d :: inner, ending, rfl, .pair d hinner, hending⟩
    · obtain ⟨inner, ending, rfl, hinner, hending⟩ := exists_quoted rest
      exact ⟨c :: inner, ending, rfl, .plain hquote hbackslash hinner, hending⟩

variable {inner : List Char}

/-! ## Quotes at the end -/

/-- A quote at the end of what is quoted stands behind a backslash. -/
theorem Quoted.getLast?_eq_backslash {s : List Char} (h : Quoted (s ++ ['"'])) : s.getLast? = some '\\' := by
  generalize hread : s ++ ['"'] = read at h
  induction h generalizing s with
  | nil => exact absurd hread (List.concat_ne_nil _ _)
  | plain quote _ _ ih =>
    cases s with
    | nil =>
      cases hread
      exact absurd rfl quote
    | cons d s =>
      cases hread
      rw [List.getLast?_cons, ih rfl]
      rfl
  | pair c _ ih =>
    match s, hread with
    | [], hread => cases hread
    | [_], hread =>
      cases hread
      rfl
    | _ :: _ :: s, hread =>
      cases hread
      rw [List.getLast?_cons, List.getLast?_cons, ih rfl]
      rfl

/-- A literal never ends in three quotes. -/
theorem Quoted.endsWith_literal (h : Quoted inner) : endsWith ('"' :: (inner ++ ['"'])) tripleQuote = false := by
  rw [← Bool.not_eq_true]
  intro hends
  obtain ⟨front, hfront⟩ := eq_append_of_endsWith hends
  have hthree : '"' :: inner ++ ['"'] = front ++ ['"'] ++ ['"'] ++ ['"'] := by
    rw [List.append_assoc, List.append_assoc]
    exact hfront
  have htwo : '"' :: inner = front ++ ['"'] ++ ['"'] := List.append_cancel_right hthree
  cases front with
  | nil =>
    cases htwo
    have hlast : ([] : List Char).getLast? = some '\\' := h.getLast?_eq_backslash
    cases hlast
  | cons c front =>
    obtain ⟨-, rfl⟩ := List.cons.inj htwo
    have hlast : (front ++ ['"']).getLast? = some '\\' := h.getLast?_eq_backslash
    rw [List.getLast?_concat] at hlast
    cases hlast

/-! ## The stripper -/

/-- What is quoted leaves the stripper in the literal. -/
theorem Quoted.after_inside (h : Quoted inner) : Quoting.inside.after inner = some .inside := by
  induction h with
  | nil => rfl
  | plain quote backslash _ ih => rw [Quoting.after, Quoting.step, if_neg backslash, if_neg quote, Option.bind_some, ih]
  | pair c _ ih => exact ih

theorem Quoted.after_opening (h : Quoted inner) : Quoting.outside.after ('"' :: inner) = some .inside :=
  h.after_inside

/-- Behind the quote that closes a literal, the stripper is outside again. -/
theorem Quoted.after_literal (h : Quoted inner) : Quoting.outside.after ('"' :: (inner ++ ['"'])) = some .outside := by
  rw [← List.cons_append, Quoting.after_append, h.after_opening]
  rfl

/-! ## The reader -/

/-- A backslash and what follows it are read together, whatever that is. -/
theorem literalFrom_pair (c : Char) (value : List Char) :
    ∃ found, ∀ rest, Phrase.literalFrom value ('\\' :: c :: rest) = Phrase.literalFrom found rest := by
  by_cases hmarked : ∃ d, (d, c) ∈ Printer.escapes
  · obtain ⟨d, hd⟩ := hmarked
    exact ⟨d :: value, fun _ => Printer.literalFrom_marked hd⟩
  · have hother (d : Char) : (d, c) ∉ Printer.escapes := fun hd => hmarked ⟨d, hd⟩
    refine ⟨c :: '\\' :: value, fun rest => ?_⟩
    rw [Phrase.literalFrom]
    · rintro rfl
      exact hother '\n' (by decide)
    · rintro rfl
      exact hother '\t' (by decide)
    · rintro rfl
      exact hother '"' (by decide)
    · rintro rfl
      exact hother '\\' (by decide)

/-- The reader passes over what is quoted. -/
theorem Quoted.literalFrom_append (h : Quoted inner) (value : List Char) :
    ∃ found, ∀ ending, Phrase.literalFrom value (inner ++ ending) = Phrase.literalFrom found ending := by
  induction h generalizing value with
  | nil => exact ⟨value, fun _ => rfl⟩
  | @plain c _ quote backslash _ ih =>
    obtain ⟨found, hfound⟩ := ih (c :: value)
    refine ⟨found, fun ending => ?_⟩
    rw [List.cons_append, Printer.literalFrom_itself quote backslash, hfound]
  | pair c _ ih =>
    obtain ⟨next, hnext⟩ := literalFrom_pair c value
    obtain ⟨found, hfound⟩ := ih next
    exact ⟨found, fun ending => (hnext _).trans (hfound ending)⟩

/-! ## Statement -/

/-- **Both scanners find the same end of a literal.** If a literal can be read from a text, then nothing in it is taken for a comment,
    what follows it is stripped as if it stood alone, and any mark right behind it begins a comment. If none can be read, it is because
    it is not closed, and then nothing is stripped. -/
theorem stripComment_stringLiteral {text : List Char} (hquote : text.head? = some '"') :
    (∀ value rest, Phrase.stringLiteral text = .ok (value, rest) →
      ∃ literal, text = literal ++ rest ∧ stripComment text = literal ++ stripComment rest ∧
        ∀ comment, stripComment (literal ++ '#' :: comment) = literal) ∧
    ∀ fault, Phrase.stringLiteral text = .error fault → fault = .openString ∧ stripComment text = text := by
  obtain ⟨behind, rfl⟩ := List.head?_eq_some_iff.1 hquote
  obtain ⟨inner, ending, rfl, hinner, hending⟩ := exists_quoted behind
  obtain ⟨found, hfound⟩ := hinner.literalFrom_append []
  have hread : Phrase.stringLiteral ('"' :: (inner ++ ending)) = Phrase.literalFrom found ending := hfound ending
  have hstrip : stripComment ('"' :: inner ++ ending) = '"' :: inner ++ stripFrom .inside ending :=
    stripFrom_append hinner.after_opening ending
  rw [hread]
  cases hending with
  | closed rest =>
    refine ⟨fun value rest' h => ?_, nofun⟩
    cases h
    have hclosed (t : List Char) : stripComment ('"' :: (inner ++ ['"']) ++ t) = '"' :: (inner ++ ['"']) ++ stripComment t :=
      stripFrom_append hinner.after_literal t
    have hsplit : '"' :: (inner ++ '"' :: rest) = '"' :: (inner ++ ['"']) ++ rest := by
      rw [List.cons_append, List.append_assoc, List.singleton_append]
    refine ⟨'"' :: (inner ++ ['"']), hsplit, ?_, fun comment => ?_⟩
    · rw [hsplit, hclosed]
    · rw [hclosed]
      exact List.append_nil _
  | missing | dangling =>
    refine ⟨nofun, fun fault h => ?_⟩
    cases h
    exact ⟨rfl, hstrip⟩

/-- A literal with escaped quotes, marks and pairs of no meaning, and a comment right behind it. -/
def tangled : List Char :=
  "\"\\\\\\\"#\\q日\\#\\\\\"# é \"".toList

/-- A text in which each quote but the first stands behind a backslash. -/
def unclosed : List Char :=
  "\"\\\\\\\" # \\q日\\".toList

theorem stripComment_stringLiteral_tangled :
    (tangled.head? = some '"' ∧ Phrase.stringLiteral tangled = .ok ("\\\"#\\q日\\#\\", "# é \"".toList) ∧
      stripComment tangled = "\"\\\\\\\"#\\q日\\#\\\\\"".toList) ∧
    unclosed.head? = some '"' ∧ Phrase.stringLiteral unclosed = .error .openString ∧ stripComment unclosed = unclosed := by
  have hread : Phrase.stringLiteral tangled = .ok ("\\\"#\\q日\\#\\", "# é \"".toList) := by decide +kernel
  have hopen : Phrase.stringLiteral unclosed = .error .openString := by decide +kernel
  have hquote : tangled.head? = some '"' := rfl
  obtain ⟨literal, hsplit, hstrip, -⟩ := (stripComment_stringLiteral hquote).1 _ _ hread
  have hliteral : literal = "\"\\\\\\\"#\\q日\\#\\\\\"".toList :=
    List.append_cancel_right (hsplit.symm.trans (by decide))
  refine ⟨⟨hquote, hread, ?_⟩, rfl, hopen, ((stripComment_stringLiteral rfl).2 _ hopen).2⟩
  rw [hstrip, hliteral]
  rfl

end Playbook.Program
