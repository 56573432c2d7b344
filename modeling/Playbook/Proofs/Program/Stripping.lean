import Playbook.Program.Line
import Playbook.Proofs.Text.Trim

/-!
# `Proofs.Program.Stripping` — what a raw line is, by its parts

The comment stripper reads a line from left to right, so what it makes of an end of the line depends on where it stands behind
the beginning. Blanks at the end of a line never matter.

## Contents
- **The stripper.** `Quoting.step` and `Quoting.after` say where it stands; `stripFrom_append`, `stripFrom_append_of_comment`.
- **Blanks at the end.** `trimEnd_stripComment`; `trimEnd_stripComment_append`.
- **Shapes.** `Line.shape_eq` for lines that are not blank; `Line.shape_indented`, `Line.shape_append_comment`.
-/

namespace Playbook.Program

open Text

/-! ## The stripper -/

namespace Quoting

/-- Where the stripper stands behind a character, unless a comment begins with it. -/
def step : Quoting → Char → Option Quoting
  | .outside, c => if c = '#' then none else if c = '"' then some .inside else some .outside
  | .inside, c => if c = '\\' then some .escaped else if c = '"' then some .outside else some .inside
  | .escaped, _ => some .inside

/-- Where it stands behind a text, unless a comment begins in it. -/
def after : Quoting → List Char → Option Quoting
  | place, [] => some place
  | place, c :: rest => (place.step c).bind fun next => next.after rest

theorem after_append (place : Quoting) (s t : List Char) :
    place.after (s ++ t) = (place.after s).bind fun next => next.after t := by
  induction s generalizing place with
  | nil => rfl
  | cons c rest ih =>
    rw [List.cons_append, after, after]
    cases place.step c with
    | none => rfl
    | some next => exact ih next

/-- Only a mark outside of literals begins a comment. -/
theorem step_eq_none_iff {place : Quoting} {c : Char} : place.step c = none ↔ place = .outside ∧ c = '#' := by
  cases place <;> simp only [step] <;> grind

end Quoting

section

variable {place next : Quoting} {s t : List Char}

theorem stripFrom_cons (place : Quoting) (c : Char) (rest : List Char) :
    stripFrom place (c :: rest) =
      match place.step c with
      | none => []
      | some next => c :: stripFrom next rest := by
  cases place with
  | escaped => rfl
  | _ =>
    simp only [stripFrom, Quoting.step]
    split
    · rfl
    · split <;> rfl

/-- A text in which no comment begins is kept, and the stripper goes on behind it. -/
theorem stripFrom_append (h : place.after s = some next) (t : List Char) :
    stripFrom place (s ++ t) = s ++ stripFrom next t := by
  induction s generalizing place with
  | nil =>
    cases h
    rfl
  | cons c rest ih =>
    obtain ⟨here, hstep, hrest⟩ := Option.bind_eq_some_iff.1 h
    rw [List.cons_append, stripFrom_cons, hstep, List.cons_append, ← ih hrest]

/-- Nothing is kept behind a text in which a comment begins. -/
theorem stripFrom_append_of_comment (h : place.after s = none) (t : List Char) :
    stripFrom place (s ++ t) = stripFrom place s := by
  induction s generalizing place with
  | nil => cases h
  | cons c rest ih =>
    rw [Quoting.after] at h
    rw [List.cons_append, stripFrom_cons, stripFrom_cons]
    cases hstep : place.step c with
    | none => rfl
    | some here =>
      rw [hstep] at h
      simp only
      rw [ih h]

theorem stripFrom_nil (place : Quoting) : stripFrom place [] = [] := by
  cases place <;> rfl

theorem stripFrom_of_after (h : place.after s = some next) : stripFrom place s = s := by
  have happend := stripFrom_append h []
  rwa [List.append_nil, stripFrom_nil, List.append_nil] at happend

/-! ## Blanks at the end -/

/-- No comment begins in blanks. -/
theorem after_blanks (place : Quoting) (h : ∀ c ∈ s, isBlank c = true) : ∃ next, place.after s = some next := by
  induction s generalizing place with
  | nil => exact ⟨place, rfl⟩
  | cons c rest ih =>
    rw [List.forall_mem_cons] at h
    cases hstep : place.step c with
    | none =>
      obtain ⟨-, rfl⟩ := Quoting.step_eq_none_iff.1 hstep
      cases h.1
    | some here =>
      obtain ⟨next, hnext⟩ := ih here h.2
      exact ⟨next, by rw [Quoting.after, hstep, Option.bind_some, hnext]⟩

theorem trimEnd_stripFrom_blanks (h : ∀ c ∈ t, isBlank c = true) :
    trimEnd (stripFrom place (s ++ t)) = trimEnd (stripFrom place s) := by
  cases hafter : place.after s with
  | none => rw [stripFrom_append_of_comment hafter]
  | some here =>
    obtain ⟨next, hnext⟩ := after_blanks here h
    rw [stripFrom_append hafter, stripFrom_of_after hafter, stripFrom_of_after hnext, trimEnd_append_blanks h]

/-- `stripComment` leaves the same of a line if the blanks at its end are trimmed before. -/
theorem trimEnd_stripComment (s : List Char) : trimEnd (stripComment (trimEnd s)) = trimEnd (stripComment s) := by
  obtain ⟨blanks, hs, hblanks⟩ := exists_blanks s
  have hstrip : trimEnd (stripComment (trimEnd s ++ blanks)) = trimEnd (stripComment (trimEnd s)) :=
    trimEnd_stripFrom_blanks hblanks
  rw [← hs] at hstrip
  exact hstrip.symm

/-- A comment is cut off with the space before it, unless it stands in a literal. -/
theorem trimEnd_stripComment_append {comment : List Char}
    (h : Quoting.outside.after s ≠ some .inside ∧ Quoting.outside.after s ≠ some .escaped) :
    trimEnd (stripComment (s ++ ' ' :: '#' :: comment)) = trimEnd (stripComment s) := by
  cases hafter : Quoting.outside.after s with
  | none => rw [stripComment, stripFrom_append_of_comment hafter, stripComment]
  | some place =>
    cases place with
    | outside =>
      have hcut : stripFrom .outside (' ' :: '#' :: comment) = [' '] := rfl
      rw [stripComment, stripFrom_append hafter, hcut, trimEnd_append_blanks (List.forall_mem_singleton.2 rfl), stripComment,
        stripFrom_of_after hafter]
    | inside => exact absurd hafter h.1
    | escaped => exact absurd hafter h.2

/-! ## Shapes -/

/-- Spaces are counted up to the first other character. -/
theorem leadingSpaces_append_cons {c : Char} (hc : c ≠ ' ') (s t : List Char) :
    leadingSpaces (s ++ c :: t) = leadingSpaces s := by
  induction s with
  | nil =>
    rw [List.nil_append, leadingSpaces, List.takeWhile_cons_of_neg]
    · rfl
    · simpa using hc
  | cons d s ih =>
    rw [leadingSpaces, leadingSpaces] at ih ⊢
    by_cases hd : d = ' '
    · simp only [List.cons_append, List.takeWhile_cons, hd, beq_self_eq_true, if_true, List.length_cons, ih]
    · simp [hd]

theorem leadingSpaces_le_length (s : List Char) : leadingSpaces s ≤ s.length :=
  (List.takeWhile_sublist _).length_le

theorem drop_leadingSpaces_append (s t : List Char) : (s ++ t).drop (leadingSpaces s) = s.drop (leadingSpaces s) ++ t :=
  List.drop_append_of_le_length (leadingSpaces_le_length s)

theorem ne_space_of_not_blank {c : Char} (hc : isBlank c = false) : c ≠ ' ' := by
  rintro rfl
  cases hc

namespace Line

/-- A line that is not blank is known by the first character behind its spaces. -/
theorem shape_eq {raw : List Char} (hsome : trim raw ≠ []) :
    shape raw =
      let indent := leadingSpaces raw
      let body := raw.drop indent
      if body.head? = some '\t' then .tab
      else if body.head? = some '#' then .comment indent (trimEnd body)
      else .code indent (trimEnd (stripComment body)) := by
  rcases blanks_or_cons raw with hall | ⟨blanks, c, rest, rfl, hblanks, hc⟩
  · exact absurd (trim_eq_nil_iff.2 hall) hsome
  -- What is trimmed at the end stands behind the first character that is no blank.
  have hspace := ne_space_of_not_blank hc
  have hhead (t : List Char) : (blanks.drop (leadingSpaces blanks) ++ c :: t).head? =
      (blanks.drop (leadingSpaces blanks) ++ [c]).head? := by
    cases blanks.drop (leadingSpaces blanks) <;> rfl
  have hbody : blanks.drop (leadingSpaces blanks) ++ c :: trimEnd rest =
      trimEnd (blanks.drop (leadingSpaces blanks) ++ c :: rest) := (trimEnd_append_cons hc rest).symm
  rw [shape]
  simp only [trimEnd_append_cons hc, leadingSpaces_append_cons hspace, drop_leadingSpaces_append]
  rw [if_neg (by rw [← trimEnd_append_cons hc, trim_trimEnd]; exact hsome)]
  rw [hhead rest, ← hhead (trimEnd rest), ← trimEnd_stripComment (_ ++ c :: rest), ← hbody]
  split
  · rename_i htab
    rw [htab]
    rfl
  · rename_i hmark
    rw [hmark]
    rfl
  · rename_i htab hmark
    rw [if_neg, if_neg]
    · rintro h
      obtain ⟨rest', h⟩ := List.head?_eq_some_iff.1 h
      exact hmark rest' h
    · rintro h
      obtain ⟨rest', h⟩ := List.head?_eq_some_iff.1 h
      exact htab rest' h

theorem leadingSpaces_replicate (indent : Nat) : leadingSpaces (List.replicate indent ' ') = indent := by
  rw [leadingSpaces, List.takeWhile_replicate_eq_filter, List.filter_replicate_of_pos rfl, List.length_replicate]

/-- A line is known by the first character behind its spaces, if that is no blank. -/
theorem shape_indented {c : Char} (hc : isBlank c = false) (indent : Nat) (rest : List Char) :
    shape (List.replicate indent ' ' ++ c :: rest) =
      if c = '#' then .comment indent (trimEnd (c :: rest))
      else .code indent (trimEnd (stripComment (c :: rest))) := by
  have hsome : trim (List.replicate indent ' ' ++ c :: rest) ≠ [] :=
    List.ne_nil_of_mem (mem_trim (List.mem_append_right _ List.mem_cons_self) hc)
  have htab : c ≠ '\t' := by
    rintro rfl
    cases hc
  have hdrop : (List.replicate indent ' ' ++ c :: rest).drop indent = c :: rest :=
    List.drop_left' List.length_replicate
  rw [shape_eq hsome, leadingSpaces_append_cons (ne_space_of_not_blank hc), leadingSpaces_replicate]
  simp only [hdrop, List.head?_cons, Option.some.injEq, if_neg htab]

/-- Leading spaces leave the stripper where it was. -/
theorem after_drop_leadingSpaces (s : List Char) :
    Quoting.outside.after (s.drop (leadingSpaces s)) = Quoting.outside.after s := by
  induction s with
  | nil => rfl
  | cons c rest ih =>
    by_cases hc : c = ' '
    · subst hc
      exact ih
    · have hnone : leadingSpaces (c :: rest) = 0 := by
        rw [leadingSpaces, List.takeWhile_cons_of_neg (by simpa using hc)]
        rfl
      rw [hnone]
      rfl

/-- A comment behind a line of code is cut off, unless the line ends in a literal. -/
theorem shape_append_comment {raw comment text : List Char} {indent : Nat} (hcode : shape raw = .code indent text)
    (hclosed : Quoting.outside.after raw ≠ some .inside ∧ Quoting.outside.after raw ≠ some .escaped) :
    shape (raw ++ ' ' :: '#' :: comment) = shape raw := by
  rcases blanks_or_cons raw with hall | ⟨blanks, c, rest, rfl, -, hc⟩
  · rw [shape] at hcode
    simp only at hcode
    rw [trim_trimEnd, if_pos (trim_eq_nil_iff.2 hall)] at hcode
    cases hcode
  have hspace := ne_space_of_not_blank hc
  have hsome (t : List Char) : trim (blanks ++ c :: t) ≠ [] :=
    List.ne_nil_of_mem (mem_trim (List.mem_append_right _ List.mem_cons_self) hc)
  rw [← after_drop_leadingSpaces, leadingSpaces_append_cons hspace, drop_leadingSpaces_append] at hclosed
  rw [shape_eq (hsome rest)] at hcode
  rw [List.append_assoc, List.cons_append, shape_eq (hsome _), shape_eq (hsome _)]
  simp only [leadingSpaces_append_cons hspace, drop_leadingSpaces_append] at hcode ⊢
  rw [← List.cons_append, ← List.append_assoc, trimEnd_stripComment_append hclosed]
  -- The first character behind the spaces is the same, and no mark.
  have hhead : (blanks.drop (leadingSpaces blanks) ++ c :: rest ++ ' ' :: '#' :: comment).head? =
      (blanks.drop (leadingSpaces blanks) ++ c :: rest).head? := by
    cases blanks.drop (leadingSpaces blanks) <;> rfl
  rw [hhead]
  split
  · rfl
  · split
    · rename_i htab hmark
      rw [if_neg htab, if_pos hmark] at hcode
      cases hcode
    · rfl

end Line

end

end Playbook.Program
