import Playbook.Proofs.Program.Accepting
import Playbook.Proofs.Program.Stripping
import Playbook.Proofs.Program.Writing

/-!
# `Proofs.Program.Branches` — branches that bind a name, and the statements that do

A branch `n = e` and a statement `let n = e` say the same, but `e` is read by two readers. The one for branches takes whatever
begins with the word `session` for a call. The one for statements wants a space or a colon behind that word, and else takes the text
for a name, if it is one. So the two agree on all texts but those in which neither follows the word, and those they never both accept.

## Contents
- **Values.** `Branch.binding`, the branch that binds a name to a value; `Phrase.glued?`.
- **Expressions.** `namedBranch_of_not_glued`; `expr_of_glued`, `namedBranch_of_glued` and `not_isName_of_glued`.
- **Lines.** `assignmentText`, what is left of a line; `branch_line` and `statement_let`.
- **Raw lines.** `shape_branch`, `shape_let`; `branch_reads_let`.
-/

namespace Playbook

/-! ## Values -/

/-- The branch that binds a name to a value: a call binds its own result. -/
def Branch.binding (name : String) : Expr → Branch
  | .session call => .mk (some name) (.session call)
  | .resume call => .mk (some name) (.resume call)
  | value => .mk none (.assign name value)

namespace Program

open Text Printer

namespace Phrase

/-- What follows the word `session` at the beginning of a text, if that is no space and no colon. -/
def glued? (text : List Char) : Option (List Char) :=
  (stripPrefix sessionWord text).filter fun rest => rest.head? ≠ some ' ' && rest.head? ≠ some ':'

/-! ## Expressions -/

variable {name : String} {text rest : List Char}

theorem simple_session (rest : List Char) : simple (sessionWord ++ rest) = (sessionCall rest).map .session := by
  have hlet : stripPrefix "let ".toList (sessionWord ++ rest) = none := rfl
  have houtput : stripPrefix "output ".toList (sessionWord ++ rest) = none := rfl
  rw [simple, hlet, houtput, stripPrefix_append]

theorem simple_resume (rest : List Char) : simple (resumeWord ++ rest) = (resumeCall rest).map .resume := by
  have hlet : stripPrefix "let ".toList (resumeWord ++ rest) = none := rfl
  have houtput : stripPrefix "output ".toList (resumeWord ++ rest) = none := rfl
  have hsession : stripPrefix sessionWord (resumeWord ++ rest) = none := rfl
  rw [simple, hlet, houtput, hsession, stripPrefix_append]

theorem startsWith_eq_false_iff {s pre : List Char} : startsWith s pre = false ↔ stripPrefix pre s = none := by
  rw [startsWith, Option.isSome_eq_false_iff, Option.isNone_iff_eq_none]

theorem expr_session {mark : Char} (hmark : mark = ' ' ∨ mark = ':') (rest : List Char) :
    expr (sessionWord ++ mark :: rest) = (sessionCall (mark :: rest)).map .session := by
  have hquote : startsWith (sessionWord ++ mark :: rest) ['"'] = false := rfl
  have hsession : (startsWith (sessionWord ++ mark :: rest) (sessionWord ++ [' ']) ||
      startsWith (sessionWord ++ mark :: rest) (sessionWord ++ [':'])) = true := by
    rcases hmark with rfl | rfl <;> rfl
  rw [expr, hquote, if_neg Bool.false_ne_true, if_pos hsession, List.drop_left]

theorem expr_resume (rest : List Char) :
    expr (resumeWord ++ ':' :: rest) = (resumeCall (':' :: rest)).map .resume := by
  have hquote : startsWith (resumeWord ++ ':' :: rest) ['"'] = false := rfl
  have hsession : (startsWith (resumeWord ++ ':' :: rest) (sessionWord ++ [' ']) ||
      startsWith (resumeWord ++ ':' :: rest) (sessionWord ++ [':'])) = false := rfl
  have hresume : startsWith (resumeWord ++ ':' :: rest) (resumeWord ++ [':']) = true := rfl
  rw [expr, hquote, if_neg Bool.false_ne_true, hsession, if_neg Bool.false_ne_true, if_pos hresume, List.drop_left]

theorem startsWith_append_eq_false {s pre : List Char} (h : startsWith s pre = false) (more : List Char) :
    startsWith s (pre ++ more) = false := by
  rw [← Bool.not_eq_true] at h ⊢
  intro hstarts
  obtain ⟨rest, hrest⟩ := Option.isSome_iff_exists.1 hstarts
  rw [stripPrefix_eq_some_iff, List.append_assoc] at hrest
  exact h (hrest ▸ startsWith_append pre _)

/-- An expression that begins with neither word is no call. -/
theorem binding_of_other (hsession : startsWith text sessionWord = false)
    (hresume : startsWith text (resumeWord ++ [':']) = false) {value : Expr} (h : expr text = .ok value) :
    Branch.binding name value = .mk none (.assign name value) := by
  unfold expr at h
  rw [startsWith_append_eq_false hsession, startsWith_append_eq_false hsession, Bool.or_false,
    if_neg Bool.false_ne_true, hresume, if_neg Bool.false_ne_true] at h
  split at h
  · obtain ⟨text, -, rfl⟩ := map_eq_ok.1 h
    rfl
  · split at h <;> cases h
    rfl

/-- Unless the word `session` is glued to something, a branch reads what an assignment reads. -/
theorem namedBranch_of_not_glued (h : glued? text = none) :
    namedBranch name text = (expr text).map (Branch.binding name) := by
  unfold namedBranch
  cases hsession : stripPrefix sessionWord text with
  | some rest =>
    obtain rfl := stripPrefix_eq_some_iff.1 hsession
    have hmark : ∃ mark more, rest = mark :: more ∧ (mark = ' ' ∨ mark = ':') := by
      rw [glued?, hsession] at h
      cases rest with
      | nil => cases h
      | cons mark more =>
        refine ⟨mark, more, rfl, ?_⟩
        by_cases hspace : mark = ' '
        · exact .inl hspace
        · by_cases hcolon : mark = ':'
          · exact .inr hcolon
          · simp [Option.filter, hspace, hcolon] at h
    obtain ⟨mark, more, rfl, hmark⟩ := hmark
    rw [if_pos (by rw [startsWith_append]; rfl), simple_session, expr_session hmark]
    cases sessionCall (mark :: more) <;> rfl
  | none =>
    have hsession := startsWith_eq_false_iff.2 hsession
    rw [hsession, Bool.false_or]
    split
    · rename_i hresume
      obtain ⟨rest, hrest⟩ := Option.isSome_iff_exists.1 hresume
      obtain rfl := stripPrefix_eq_some_iff.1 hrest
      rw [List.append_assoc, List.singleton_append, simple_resume, expr_resume]
      cases resumeCall (':' :: rest) <;> rfl
    · rename_i hresume
      cases hexpr : expr text with
      | error fault => rfl
      | ok value =>
        exact congrArg Except.ok (binding_of_other hsession (Bool.eq_false_iff.2 hresume) hexpr).symm

theorem eq_append_of_glued (h : glued? text = some rest) :
    text = sessionWord ++ rest ∧ rest.head? ≠ some ' ' ∧ rest.head? ≠ some ':' := by
  obtain ⟨hstrip, hhead⟩ := Option.filter_eq_some_iff.1 h
  rw [Bool.and_eq_true, decide_eq_true_eq, decide_eq_true_eq] at hhead
  exact ⟨stripPrefix_eq_some_iff.1 hstrip, hhead⟩

/-- If it is glued to something, an assignment takes the text for a name. -/
theorem expr_of_glued (h : glued? text = some rest) :
    expr text = if isName text then .ok (.var (String.ofList text)) else .error (.expression (String.ofList text)) := by
  obtain ⟨rfl, hspace, hcolon⟩ := eq_append_of_glued h
  have hquote : startsWith (sessionWord ++ rest) ['"'] = false := rfl
  have hresume : startsWith (sessionWord ++ rest) (resumeWord ++ [':']) = false := rfl
  have hmark : ∀ mark, rest.head? ≠ some mark → startsWith (sessionWord ++ rest) (sessionWord ++ [mark]) = false := by
    intro mark hmark
    rw [startsWith_eq_false_iff, Option.eq_none_iff_forall_ne_some]
    intro more hmore
    rw [stripPrefix_eq_some_iff, List.append_assoc, List.append_cancel_left_eq] at hmore
    exact hmark (hmore ▸ rfl)
  rw [expr, hquote, hresume, hmark _ hspace, hmark _ hcolon]
  rfl

/-- A branch takes it for a call. -/
theorem namedBranch_of_glued (h : glued? text = some rest) :
    namedBranch name text = (sessionCall rest).map fun c => .mk (some name) (.session c) := by
  obtain ⟨rfl, -⟩ := eq_append_of_glued h
  rw [namedBranch, if_pos (by rw [startsWith_append]; rfl), simple_session]
  cases sessionCall rest <;> rfl

/-- What a branch takes for a call that can be read is not taken for a name. -/
theorem not_isName_of_glued (h : glued? text = some rest) {c : SessionCall} (hcall : sessionCall rest = .ok c) :
    isName text = false := by
  obtain ⟨rfl, -⟩ := eq_append_of_glued h
  rw [← Bool.not_eq_true]
  intro hname
  exact not_mem_of_isName hname (by decide) (List.mem_append_right _ (quote_mem_of_call hcall))

end Phrase

/-! ## Lines -/

/-- What is left of a line `n = e`. -/
def assignmentText (name : String) (e : List Char) : List Char :=
  name.toList ++ ' ' :: '=' :: trimEnd (' ' :: stripComment e)

theorem trim_value (s : List Char) : trim (trimEnd (' ' :: s)) = trim s := by
  rw [trim_trimEnd, trim, trimStart_cons_blank (by decide)]
  rfl

section

variable {name : String} (hname : isName name = true) (e : List Char)
include hname

theorem splitFirst_assignmentText :
    splitFirst ['='] (assignmentText name e) = some (name.toList ++ [' '], trimEnd (' ' :: stripComment e)) := by
  have hnot : '=' ∉ name.toList ++ [' '] := by
    rw [List.mem_append, not_or]
    exact ⟨not_mem_of_isName hname (by decide), by decide⟩
  have happend := splitFirst_append hnot (trimEnd (' ' :: stripComment e))
  rwa [List.append_assoc] at happend

/-- An assignment reads the text behind the equals sign without its comment. -/
theorem assignment_text :
    Phrase.assignment (assignmentText name e) =
      (Phrase.expr (trim (stripComment e))).map fun value => (name, value) := by
  have hname' : Phrase.isName name.toList = true := hname
  have htrim : trim (name.toList ++ [' ']) = name.toList := (solid_of_isName hname).trim_concat (by decide)
  rw [Phrase.assignment, splitFirst_assignmentText hname]
  simp only [htrim, trim_value, if_pos hname', String.ofList_toList]
  cases Phrase.expr (trim (stripComment e)) <;> rfl

end

theorem simple_let (rest : List Char) :
    Phrase.simple ("let ".toList ++ rest) = (Phrase.assignment rest).map fun a => .assign a.1 a.2 := by
  rw [Phrase.simple, stripPrefix_append]

namespace Parser

variable {r : Readers} {line : Line} {rest left : List Line} {name : String}

/-- A line that names a branch is accepted if what stands behind the name is. -/
theorem branch_line {value : List Char} (hsplit : Phrase.namedBranch? line.text = some (name, value)) {b : Branch} :
    branch r line rest = .ok (b, left) ↔ left = rest ∧ Phrase.namedBranch name value = .ok b := by
  rw [branch_eq_ok_iff, hsplit]
  constructor
  · rintro (⟨name', value', heq, hread, rfl⟩ | ⟨hnone, -⟩)
    · cases heq
      exact ⟨rfl, hread⟩
    · cases hnone
  · rintro ⟨rfl, hread⟩
    exact .inl ⟨name, value, rfl, hread, rfl⟩

/-- A line `let n = e` is accepted if what stands behind the equals sign is an expression. -/
theorem statement_let (hname : isName name = true) {e : List Char}
    (htext : line.text = "let ".toList ++ assignmentText name e) {s : Stmt} :
    statement r line rest = .ok (s, left) ↔
      left = rest ∧ ∃ value, Phrase.expr (trim (stripComment e)) = .ok value ∧ s = .assign name value := by
  have hread : Phrase.simple line.text =
      (Phrase.expr (trim (stripComment e))).map fun value => .assign name value := by
    rw [htext, simple_let, assignment_text hname]
    cases Phrase.expr (trim (stripComment e)) <;> rfl
  constructor
  · intro h
    cases stated h with
    | simple tells =>
      rw [hread] at tells
      obtain ⟨value, hvalue, rfl⟩ := map_eq_ok.1 tells
      exact ⟨rfl, value, hvalue, rfl⟩
    | attempt tells => cases htext ▸ tells
    | parallel opens => cases htext ▸ opens.1
    | loop opens => cases htext ▸ opens
  · rintro ⟨rfl, value, hvalue, rfl⟩
    refine statement_of_simple ?_
    rw [hread, hvalue]
    rfl

end Parser

/-! ## Raw lines -/

theorem namedBranch?_text {name : String} (hname : isBranchName name = true) (e : List Char) :
    Phrase.namedBranch? (assignmentText name e) = some (name, trim (stripComment e)) := by
  rw [isBranchName, Bool.and_eq_true, Bool.and_eq_true, decide_eq_true_eq, decide_eq_true_eq] at hname
  obtain ⟨⟨hname, hlet⟩, houtput⟩ := hname
  have hname' : Phrase.isName name.toList = true := hname
  have hlet' : name.toList ≠ "let".toList := fun h => hlet (String.toList_injective h)
  have houtput' : name.toList ≠ "output".toList := fun h => houtput (String.toList_injective h)
  have htrim : trim (name.toList ++ [' ']) = name.toList := (solid_of_isName hname).trim_concat (by decide)
  rw [Phrase.namedBranch?, splitFirst_assignmentText hname]
  simp only [Option.bind_eq_bind, Option.bind_some, htrim, trim_value]
  rw [hname', decide_eq_true hlet', decide_eq_true houtput', String.ofList_toList]
  rfl

/-- A raw line that begins with a plain text and an equals sign keeps that text. -/
theorem shape_assignment {front : List Char} (hplain : Plain front) {c : Char} {more : List Char}
    (hfront : front = c :: more) (hc : isBlank c = false) (indent : Nat) (e : List Char) :
    Line.shape (List.replicate indent ' ' ++ (front ++ " = ".toList ++ e)) =
      .code indent (front ++ ' ' :: '=' :: trimEnd (' ' :: stripComment e)) := by
  have hmark : c ≠ '#' := (hplain c (hfront ▸ List.mem_cons_self)).1
  have hstrip : stripComment (front ++ " = ".toList ++ e) = (front ++ [' ']) ++ '=' :: ' ' :: stripComment e := by
    have hall : Plain (front ++ " = ".toList) := hplain.append (by decide)
    rw [stripComment, stripFrom_plain hall]
    simp only [List.append_assoc]
    rfl
  have hbody : front ++ " = ".toList ++ e = c :: (more ++ " = ".toList ++ e) := by
    rw [hfront]
    rfl
  rw [hbody, Line.shape_indented hc, if_neg hmark, ← hbody, hstrip, trimEnd_append_cons (by decide),
    List.append_assoc]
  rfl

section

variable {name : String} (hname : isName name = true) (indent : Nat) (e : List Char)
include hname

theorem shape_branch :
    Line.shape (List.replicate indent ' ' ++ (name.toList ++ " = ".toList ++ e)) =
      .code indent (assignmentText name e) := by
  obtain ⟨c, more, hfront, hc⟩ := (solid_of_isName hname).head
  exact shape_assignment (plain_of_isName hname) hfront hc indent e

theorem shape_let :
    Line.shape (List.replicate indent ' ' ++ ("let ".toList ++ name.toList ++ " = ".toList ++ e)) =
      .code indent ("let ".toList ++ assignmentText name e) := by
  have hplain : Plain ("let ".toList ++ name.toList) := Plain.append (by decide) (plain_of_isName hname)
  rw [shape_assignment hplain rfl (by decide) indent e, List.append_assoc, assignmentText]

end

/-- A word before a line makes no difference to whether it opens a block. -/
theorem opensBlock_append {before : List Char} (h : '"' ∉ before) (text : List Char) :
    opensBlock (before ++ text) = opensBlock text := by
  rw [opensBlock, opensBlock, tripleQuote, endsWith_append h, occurrences_append h]

/-- **A branch `n = e` and a statement `let n = e` say the same**, on any lines and with anything behind them, unless `e` begins with
    the word `session` without a space or a colon behind it. Then the statement takes `e` for a name and the branch takes it for a
    call, and they are never both accepted. -/
theorem branch_reads_let {name : String} (hname : isBranchName name = true) (e : List Char) :
    let text := assignmentText name e
    let value := trim (stripComment e)
    (∀ indent, Line.shape (List.replicate indent ' ' ++ (name.toList ++ " = ".toList ++ e)) = .code indent text ∧
      Line.shape (List.replicate indent ' ' ++ ("let ".toList ++ name.toList ++ " = ".toList ++ e)) =
        .code indent ("let ".toList ++ text)) ∧
    opensBlock ("let ".toList ++ text) = opensBlock text ∧
    ∀ (r r' : Parser.Readers) (line line' : Line) (rest rest' left left' : List Line),
      line.text = text → line'.text = "let ".toList ++ text →
      match Phrase.glued? value with
      | none =>
        (∀ s, Parser.statement r' line' rest' = .ok (s, left') → left' = rest' ∧ ∃ x, s = .assign name x) ∧
        ∀ b, Parser.branch r line rest = .ok (b, left) ↔
          left = rest ∧ ∃ x, Parser.statement r' line' rest' = .ok (.assign name x, rest') ∧ b = .binding name x
      | some call =>
        (∀ s, Parser.statement r' line' rest' = .ok (s, left') ↔
          left' = rest' ∧ Phrase.isName value = true ∧ s = .assign name (.var (String.ofList value))) ∧
        (∀ b, Parser.branch r line rest = .ok (b, left) ↔
          left = rest ∧ ∃ c, Phrase.sessionCall call = .ok c ∧ b = .mk (some name) (.session c)) ∧
        ¬(Phrase.isName value = true ∧ ∃ c, Phrase.sessionCall call = .ok c) := by
  intro text value
  have hplain : isName name = true := isName_of_isBranchName hname
  refine ⟨fun indent => ⟨shape_branch hplain indent e, shape_let hplain indent e⟩, opensBlock_append (by decide) text, ?_⟩
  intro r r' line line' rest rest' left left' htext htext'
  have hsplit : Phrase.namedBranch? line.text = some (name, value) := htext.symm ▸ namedBranch?_text hname e
  have hlet (s : Stmt) (left' : List Line) : Parser.statement r' line' rest' = .ok (s, left') ↔
      left' = rest' ∧ ∃ x, Phrase.expr value = .ok x ∧ s = .assign name x := Parser.statement_let hplain htext'
  split
  · rename_i hglued
    refine ⟨fun s h => ?_, fun b => ?_⟩
    · obtain ⟨hleft, x, -, hs⟩ := (hlet s left').1 h
      exact ⟨hleft, x, hs⟩
    · rw [Parser.branch_line hsplit, Phrase.namedBranch_of_not_glued hglued, map_eq_ok]
      refine and_congr_right fun _ => exists_congr fun x => ?_
      rw [hlet]
      constructor
      · rintro ⟨hx, rfl⟩
        exact ⟨⟨rfl, x, hx, rfl⟩, rfl⟩
      · rintro ⟨⟨-, x', hx, heq⟩, rfl⟩
        cases heq
        exact ⟨hx, rfl⟩
  · rename_i call hglued
    refine ⟨fun s => ?_, fun b => ?_, ?_⟩
    · rw [hlet, Phrase.expr_of_glued hglued]
      refine and_congr_right fun _ => ?_
      constructor
      · rintro ⟨x, hx, rfl⟩
        split at hx
        · rename_i hvar
          cases hx
          exact ⟨hvar, rfl⟩
        · cases hx
      · rintro ⟨hvar, rfl⟩
        exact ⟨_, if_pos hvar, rfl⟩
    · rw [Parser.branch_line hsplit, Phrase.namedBranch_of_glued hglued, map_eq_ok]
      refine and_congr_right fun _ => exists_congr fun c => ?_
      rw [eq_comm (a := b)]
    · rintro ⟨hvar, c, hc⟩
      rw [Phrase.not_isName_of_glued hglued hc] at hvar
      cases hvar

/-- A name that begins with the word `session` can be bound by a statement and not by a branch. -/
theorem branch_reads_let_sessions :
    let line (text : String) : Line := ⟨1, 0, text.toList, false, none⟩
    let r : Parser.Readers := ⟨Parser.block 1, Parser.branches 1⟩
    isBranchName "a" = true ∧
      Parser.statement r (line "let a = sessions") [] = .ok (.assign "a" (.var "sessions"), []) ∧
      ∀ b left, Parser.branch r (line "a = sessions") [] ≠ .ok (b, left) := by
  intro line r
  have hname : isBranchName "a" = true := by decide
  have hvalue : trim (stripComment "sessions".toList) = "sessions".toList := by decide
  have hglued : Phrase.glued? "sessions".toList = some ['s'] := by decide
  obtain ⟨-, -, hread⟩ := branch_reads_let hname "sessions".toList
  have hlines (left : List Line) := hread r r (line "a = sessions") (line "let a = sessions") [] [] left [] (by decide) (by decide)
  simp only [hvalue, hglued] at hlines
  refine ⟨hname, ((hlines []).1 _).2 ⟨trivial, by decide, rfl⟩, fun b left h => ?_⟩
  obtain ⟨-, c, hc, -⟩ := ((hlines left).2.1 b).1 h
  cases hc

end Program

end Playbook
