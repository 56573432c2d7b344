import Mathlib.Data.List.Forall2
import Playbook.Proofs.Program.Reading

/-!
# `Proofs.Program.Layout` — a program has the lines of its source

The code lines of a source text that can be read are the listing of its statements, one line for one mark and in order, and each
stands two spaces to the right for each level of its depth. So no line is lost, doubled, moved, or taken for part of another
block; and no block comes out empty.

A block can end at a comment with a smaller indentation although the code line after it still belongs there. Then the block is
*cut off*: what is left goes on deeper than any block around. No reader goes on from there, so that the text is refused in the
end; and all that is said about the statements of a block holds unless it is cut off.

## Contents
- **Lines and marks.** `Mark.Says`, `Shows`, `outsideAgents`.
- **Filled blocks.** `FilledStmt` and its like.
- **Reading on.** `Took` says which lines a reader used; `Deeper` says that a block was cut off.
- **Blocks that were cut off.** `Caught.of_deeper`, `deeper_of_block`, `deeper_of_branches`, `not_deeper_of_top`.
- **Statements.** `Sound` readers of blocks; `body_sound`, `Caught.sound`, `Stated.sound`, `Branched.sound`.
- **Blocks.** `sound_block`, by induction on the bound.
- **Programs.** `top_sound`.
- **Statement.** `Listed`, and `parse_listed`.
-/

namespace Playbook.Program

open Text

/-! ## Lines and marks -/

/-- Whether a text says what a mark stands for. -/
inductive Mark.Says : Mark → List Char → Prop where
  | attempt : Says .attempt "try:".toList
  | handler {text : List Char} {name : Option String}
      (opens : startsWith text "catch".toList = true)
      (tells : Phrase.catchName? text = some name) : Says (.handler name) text
  | final : Says .final "finally:".toList
  | parallel {text : List Char} {policy : FailurePolicy}
      (opens : startsWith text "parallel".toList = true ∧ endsWith text [':'] = true)
      (tells : Phrase.policy? text = some policy) : Says (.parallel policy) text
  | loop {text rest : List Char} {count : UInt32}
      (opens : stripPrefix "repeat ".toList text = some rest)
      (tells : Phrase.repeatCount? rest = some count) : Says (.loop count) text
  | plain {text : List Char} {s : Stmt} (tells : Phrase.simple text = .ok s) : Says (.plain s) text
  /-- A branch that binds a name. -/
  | named {text value : List Char} {name : String} {b : Branch}
      (splits : Phrase.namedBranch? text = some (name, value))
      (tells : Phrase.namedBranch name value = .ok b) : Says (.branch b) text
  /-- A branch that is a statement. -/
  | bare {text : List Char} {s : Stmt} (splits : Phrase.namedBranch? text = none)
      (tells : Phrase.simple text = .ok s) : Says (.branch (.mk none s)) text

/-- Whether a line stands for a mark at its depth. -/
def Shows (l : Line) (e : Nat × Mark) : Prop :=
  l.indent = 2 * e.1 ∧ e.2.Says l.text

/-- The code lines that belong to no agent, where `inside` says whether those before them end in an agent's definition. Such a
    definition is a header at the top level and the deeper lines that follow it. -/
def outsideFrom (inside : Bool) : List Line → List Line
  | [] => []
  | l :: rest =>
    if l.indent = 0 then
      if Parser.opensAgent l then outsideFrom true rest else l :: outsideFrom false rest
    else if inside then outsideFrom true rest
    else l :: outsideFrom false rest

/-- The code lines that belong to no agent. -/
def outsideAgents (lines : List Line) : List Line :=
  outsideFrom false (Parser.codeLines lines)

/-! ## Filled blocks -/

mutual

/-- Whether each list of statements or branches in a statement has an entry that is no comment. -/
def FilledStmt : Stmt → Prop
  | .attempt body _ handler final =>
    ((∃ s ∈ body, s.isComment = false) ∧ FilledStmts body) ∧ FilledClause handler ∧
      FilledClause final
  | .parallel _ branches =>
    (∃ b ∈ branches, b.stmt.isComment = false) ∧ FilledBranches branches
  | .loop _ body => (∃ s ∈ body, s.isComment = false) ∧ FilledStmts body
  | _ => True

/-- `FilledStmt` for statements in a row, of which there may be none. -/
def FilledStmts : List Stmt → Prop
  | [] => True
  | s :: rest => FilledStmt s ∧ FilledStmts rest

/-- A clause of a `try`, if there is one, has a statement that is no comment, and all of its statements are filled. -/
def FilledClause : Option (List Stmt) → Prop
  | none => True
  | some body => (∃ s ∈ body, s.isComment = false) ∧ FilledStmts body

/-- `FilledStmt` for branches in a row, of which there may be none. -/
def FilledBranches : List Branch → Prop
  | [] => True
  | .mk _ s :: rest => FilledStmt s ∧ FilledBranches rest

end

theorem filledStmt_of_isSimple {s : Stmt} (h : s.isSimple = true) : FilledStmt s := by
  cases s with
  | session call => exact trivial
  | resume call => exact trivial
  | assign name value => exact trivial
  | output name value => exact trivial
  | _ => cases h

namespace Parser

variable {r : Readers} {line l : Line} {lines rest left : List Line} {d : Nat}

/-! ## Reading on -/

/-- The lines up to those that are left are used for a listing. -/
def Took (lines : List Line) (listing : Listing) (left : List Line) : Prop :=
  ∃ used, lines = used ++ left ∧ List.Forall₂ Shows (codeLines used) listing

theorem Took.nil (lines : List Line) : Took lines [] lines :=
  ⟨[], rfl, .nil⟩

theorem Took.append {middle : List Line} {m n : Listing} (hm : Took lines m middle)
    (hn : Took middle n left) : Took lines (m ++ n) left := by
  obtain ⟨used, rfl, hused⟩ := hm
  obtain ⟨more, rfl, hmore⟩ := hn
  refine ⟨used ++ more, (List.append_assoc _ _ _).symm, ?_⟩
  rw [codeLines_append]
  exact List.rel_append hused hmore

theorem Took.comment {n : Listing} (comment : l.isComment = true) (h : Took rest n left) :
    Took (l :: rest) n left := by
  obtain ⟨used, rfl, hused⟩ := h
  refine ⟨l :: used, rfl, ?_⟩
  rw [codeLines_cons_comment comment]
  exact hused

theorem Took.code {e : Nat × Mark} {n : Listing} (code : l.isComment = false) (he : Shows l e)
    (h : Took rest n left) : Took (l :: rest) (e :: n) left := by
  obtain ⟨used, rfl, hused⟩ := h
  refine ⟨l :: used, rfl, ?_⟩
  rw [codeLines_cons_code code]
  exact .cons he hused

/-- Comments before a code line count for nothing. -/
theorem Took.next {e : Nat × Mark} {n : Listing} (hnext : nextCode lines = some (l, rest))
    (he : Shows l e) (h : Took rest n left) : Took lines (e :: n) left := by
  obtain ⟨skipped, rfl, hskipped, hcode⟩ := nextCode_eq_some hnext
  have hcomments : Took (skipped ++ l :: rest) [] (l :: rest) := by
    refine ⟨skipped, rfl, ?_⟩
    rw [hskipped]
    exact .nil
  exact hcomments.append (h.code hcode he)

/-- The next code line stands at an indentation, or deeper. -/
def Deeper (indent : Nat) (lines : List Line) : Prop :=
  ∃ next others, nextCode lines = some (next, others) ∧ indent ≤ next.indent

theorem Deeper.of_le {indent indent' : Nat} (h : Deeper indent lines) (hle : indent' ≤ indent) :
    Deeper indent' lines := by
  obtain ⟨next, others, hnext, hindent⟩ := h
  exact ⟨next, others, hnext, Nat.le_trans hle hindent⟩

theorem deeper_comment {indent : Nat} (comment : l.isComment = true) :
    Deeper indent (l :: rest) ↔ Deeper indent rest := by
  unfold Deeper
  rw [nextCode_cons_comment comment]

theorem deeper_code {indent : Nat} (code : l.isComment = false) :
    Deeper indent (l :: rest) ↔ indent ≤ l.indent := by
  unfold Deeper
  rw [nextCode_cons_code code]
  simp

/-! ## Blocks that were cut off -/

/-- A block that was cut off is followed by no clause. -/
theorem Caught.of_deeper {indent : Nat} {name : Option String} {handler : Option (List Stmt)}
    (h : Caught r indent lines name handler left) (hdeeper : Deeper (indent + 1) lines) :
    handler = none ∧ left = lines := by
  cases h with
  | nothing => exact ⟨rfl, rfl⟩
  | clause next stands opens tells read =>
    obtain ⟨l, others, hnext, hindent⟩ := hdeeper
    rw [next] at hnext
    cases hnext
    omega

theorem Closed.of_deeper {indent : Nat} {final : Option (List Stmt)}
    (h : Closed r indent lines final left) (hdeeper : Deeper (indent + 1) lines) :
    final = none ∧ left = lines := by
  cases h with
  | nothing => exact ⟨rfl, rfl⟩
  | clause next stands tells read =>
    obtain ⟨l, others, hnext, hindent⟩ := hdeeper
    rw [next] at hnext
    cases hnext
    omega

/-- A block around one that was cut off is cut off, too. -/
theorem deeper_of_block {depth indent : Nat} {stmts : List Stmt}
    (h : block depth indent lines = .ok (stmts, left)) (hdeeper : Deeper (indent + 1) lines) :
    Deeper (indent + 1) left := by
  induction depth generalizing lines stmts with
  | zero =>
    rw [block] at h
    cases h
    exact hdeeper
  | succ depth ih =>
    cases blocked h with
    | done => exact hdeeper
    | comment comment read => exact ih read ((deeper_comment comment).1 hdeeper)
    | skipped comment read => exact ih read ((deeper_comment comment).1 hdeeper)
    | stmt code stands tells read =>
      have hindent := (deeper_code code).1 hdeeper
      omega

theorem deeper_of_branches {depth indent : Nat} {bs : List Branch}
    (h : branches depth indent lines = .ok (bs, left)) (hdeeper : Deeper (indent + 1) lines) :
    Deeper (indent + 1) left := by
  induction depth generalizing lines bs with
  | zero =>
    rw [branches] at h
    cases h
    exact hdeeper
  | succ depth ih =>
    cases forked h with
    | done => exact hdeeper
    | skipped comment read => exact ih read ((deeper_comment comment).1 hdeeper)
    | branch code stands tells read =>
      have hindent := (deeper_code code).1 hdeeper
      omega

/-- If a block was not cut off, no block in it was. -/
theorem not_deeper_of_block {depth indent : Nat} {stmts : List Stmt}
    (h : block depth indent lines = .ok (stmts, left)) (hleft : ¬Deeper indent left) : ¬Deeper (indent + 1) lines :=
  fun hdeeper => hleft ((deeper_of_block h hdeeper).of_le (Nat.le_succ _))

theorem not_deeper_of_branches {depth indent : Nat} {bs : List Branch}
    (h : branches depth indent lines = .ok (bs, left)) (hleft : ¬Deeper indent left) : ¬Deeper (indent + 1) lines :=
  fun hdeeper => hleft ((deeper_of_branches h hdeeper).of_le (Nat.le_succ _))

/-- The top level does not go on after a block that was cut off. -/
theorem not_deeper_of_top {depth : Nat} {agents agents' : Agents} {stmts : List Stmt}
    (hbound : lines.length < depth) (h : top depth agents lines = .ok (agents', stmts)) :
    ¬Deeper 1 lines := by
  induction depth generalizing agents agents' lines stmts with
  | zero => omega
  | succ depth ih =>
    cases topped h with
    | done =>
      rintro ⟨_, _, hnext, _⟩
      cases hnext
    | comment comment read =>
      rw [deeper_comment comment]
      exact ih (Nat.lt_of_succ_lt_succ hbound) read
    | skipped comment read =>
      rw [deeper_comment comment]
      exact ih (Nat.lt_of_succ_lt_succ hbound) read
    | agent code stands opens tells read =>
      rw [deeper_code code]
      omega
    | stmt code stands tells read =>
      rw [deeper_code code]
      omega

/-! ## Statements -/

/-- What a reader of blocks has to do: the lines that it uses are the listing of what it gives, which is filled unless the block
    was cut off. -/
structure Sound (r : Readers) : Prop where
  block : ∀ {d : Nat} {lines left : List Line} {stmts : List Stmt},
    r.block (2 * d) lines = .ok (stmts, left) →
      Took lines (Listing.ofStmts d stmts) left ∧
        (¬Deeper (2 * d) left →
          FilledStmts stmts ∧ (Deeper (2 * d) lines → ∃ s ∈ stmts, s.isComment = false))
  branches : ∀ {d : Nat} {lines left : List Line} {bs : List Branch},
    r.branches (2 * d) lines = .ok (bs, left) →
      Took lines (Listing.ofBranches d bs) left ∧
        (¬Deeper (2 * d) left →
          FilledBranches bs ∧ (Deeper (2 * d) lines → ∃ b ∈ bs, b.stmt.isComment = false))

theorem body_sound (hr : Sound r) (stands : line.indent = 2 * d) {stmts : List Stmt}
    (h : body r line lines = .ok (stmts, left)) :
    Took lines (Listing.ofStmts (d + 1) stmts) left ∧
      (¬Deeper (2 * d + 1) left → (∃ s ∈ stmts, s.isComment = false) ∧ FilledStmts stmts) := by
  obtain ⟨⟨next, others, hnext, hindent⟩, hread⟩ := body_eq_ok_iff.1 h
  rw [stands] at hindent hread
  obtain ⟨htook, hfilled⟩ := hr.block (d := d + 1) hread
  refine ⟨htook, fun hleft => ?_⟩
  have hwhole := hfilled fun hdeeper => hleft (hdeeper.of_le (by omega))
  exact ⟨hwhole.2 ⟨next, others, hnext, Nat.le_of_eq hindent.symm⟩, hwhole.1⟩

theorem Caught.sound (hr : Sound r) {name : Option String} {handler : Option (List Stmt)}
    (h : Caught r (2 * d) lines name handler left) :
    Took lines (Listing.ofClause d (.handler name) handler) left ∧
      (¬Deeper (2 * d + 1) left → FilledClause handler) := by
  cases h with
  | nothing =>
    rw [Listing.ofClause]
    exact ⟨.nil _, fun _ => trivial⟩
  | clause next stands opens tells read =>
    obtain ⟨htook, hfilled⟩ := body_sound hr stands read
    rw [Listing.ofClause]
    exact ⟨htook.next next ⟨stands, .handler opens tells⟩, hfilled⟩

theorem Closed.sound (hr : Sound r) {final : Option (List Stmt)}
    (h : Closed r (2 * d) lines final left) :
    Took lines (Listing.ofClause d .final final) left ∧
      (¬Deeper (2 * d + 1) left → FilledClause final) := by
  cases h with
  | nothing =>
    rw [Listing.ofClause]
    exact ⟨.nil _, fun _ => trivial⟩
  | clause next stands tells read =>
    obtain ⟨htook, hfilled⟩ := body_sound hr stands read
    rw [Listing.ofClause]
    refine ⟨htook.next next ⟨stands, ?_⟩, hfilled⟩
    rw [tells]
    exact .final

/-- The lines of a statement are its listing, and it is filled unless one of its blocks was cut off. -/
theorem Stated.sound (hr : Sound r) (code : line.isComment = false) (stands : line.indent = 2 * d)
    {s : Stmt} (h : Stated r line rest s left) :
    Took (line :: rest) (Listing.ofStmt d s) left ∧
      (¬Deeper (2 * d + 1) left → FilledStmt s) ∧ s.isComment = false := by
  cases h with
  | @attempt tried name handler final afterBody afterHandler _ tells read catches closes clause =>
    rw [stands] at catches closes
    obtain ⟨hbody, hbodyFilled⟩ := body_sound hr stands read
    obtain ⟨hhandler, hhandlerFilled⟩ := catches.sound hr
    obtain ⟨hfinal, hfinalFilled⟩ := closes.sound hr
    rw [Listing.ofStmt, FilledStmt]
    refine ⟨(hbody.append (hhandler.append hfinal)).code code ⟨stands, ?_⟩, fun hleft => ?_, rfl⟩
    · rw [tells]
      exact .attempt
    · have hafterHandler : ¬Deeper (2 * d + 1) afterHandler := by
        intro hdeeper
        obtain ⟨_, heq⟩ := closes.of_deeper hdeeper
        rw [heq] at hleft
        exact hleft hdeeper
      -- A `try` whose body was cut off has no clause, which it needs.
      have hafterBody : ¬Deeper (2 * d + 1) afterBody := by
        intro hdeeper
        obtain ⟨hnone, heq⟩ := catches.of_deeper hdeeper
        rw [← heq] at hdeeper
        obtain ⟨hnone', _⟩ := closes.of_deeper hdeeper
        exact clause ⟨hnone, hnone'⟩
      exact ⟨hbodyFilled hafterBody, hhandlerFilled hafterHandler, hfinalFilled hleft⟩
  | parallel opens tells follows read =>
    obtain ⟨next, others, hnext, hindent⟩ := follows
    rw [stands] at hindent read
    obtain ⟨htook, hfilled⟩ := hr.branches (d := d + 1) read
    rw [Listing.ofStmt, FilledStmt]
    refine ⟨htook.code code ⟨stands, .parallel opens tells⟩, fun hleft => ?_, rfl⟩
    have hwhole := hfilled fun hdeeper => hleft (hdeeper.of_le (by omega))
    exact ⟨hwhole.2 ⟨next, others, hnext, Nat.le_of_eq hindent.symm⟩, hwhole.1⟩
  | loop opens tells read =>
    obtain ⟨htook, hfilled⟩ := body_sound hr stands read
    rw [Listing.ofStmt, FilledStmt]
    exact ⟨htook.code code ⟨stands, .loop opens tells⟩, hfilled, rfl⟩
  | simple tells =>
    have hsimple := isSimple_of_simple tells
    rw [Listing.ofStmt_of_isSimple hsimple]
    exact ⟨(Took.nil _).code code ⟨stands, .plain tells⟩,
      fun _ => filledStmt_of_isSimple hsimple, Stmt.isComment_of_isSimple hsimple⟩

/-- What a reader of branches has found takes just the lines that `Listing.ofBranch` lists, if the readers under it are sound. -/
theorem Branched.sound (hr : Sound r) (code : line.isComment = false)
    (stands : line.indent = 2 * d) {b : Branch} (h : Branched r line rest b left) :
    Took (line :: rest) (Listing.ofBranch d b) left ∧
      (¬Deeper (2 * d + 1) left → FilledStmt b.stmt) ∧ b.stmt.isComment = false := by
  cases h with
  | named splits tells =>
    obtain ⟨name, s⟩ := b
    have hsimple : s.isSimple = true := isSimple_of_namedBranch tells
    rw [Listing.ofBranch_of_isSimple hsimple]
    exact ⟨(Took.nil _).code code ⟨stands, .named splits tells⟩,
      fun _ => filledStmt_of_isSimple hsimple, Stmt.isComment_of_isSimple hsimple⟩
  | @bare s _ splits read =>
    cases hsimple : s.isSimple with
    | false =>
      rw [Listing.ofBranch_of_not_isSimple hsimple]
      exact read.sound hr code stands
    | true =>
      rw [Listing.ofBranch_of_isSimple hsimple]
      cases read with
      | simple tells =>
        exact ⟨(Took.nil _).code code ⟨stands, .bare splits tells⟩,
          fun _ => filledStmt_of_isSimple hsimple, Stmt.isComment_of_isSimple hsimple⟩
      | _ => cases hsimple

/-! ## Blocks -/

theorem blocked_sound {depth : Nat} (hr : Sound ⟨block depth, branches depth⟩) {stmts : List Stmt}
    (h : Blocked depth (2 * d) lines stmts left) :
    Took lines (Listing.ofStmts d stmts) left ∧
      (¬Deeper (2 * d) left →
        FilledStmts stmts ∧ (Deeper (2 * d) lines → ∃ s ∈ stmts, s.isComment = false)) := by
  cases h with
  | done =>
    rw [Listing.ofStmts]
    exact ⟨.nil _, fun hleft => ⟨trivial, fun hdeeper => absurd hdeeper hleft⟩⟩
  | comment comment read =>
    obtain ⟨htook, hfilled⟩ := hr.block read
    rw [Listing.ofStmts, Listing.ofStmt, List.nil_append, deeper_comment comment]
    refine ⟨htook.comment comment, fun hleft => ⟨⟨trivial, (hfilled hleft).1⟩, fun hdeeper => ?_⟩⟩
    obtain ⟨s, hs, hcode⟩ := (hfilled hleft).2 hdeeper
    exact ⟨s, List.mem_cons_of_mem _ hs, hcode⟩
  | skipped comment read =>
    obtain ⟨htook, hfilled⟩ := hr.block read
    rw [deeper_comment comment]
    exact ⟨htook.comment comment, hfilled⟩
  | stmt code stands tells read =>
    obtain ⟨hstmt, hstmtFilled, hcode⟩ := tells.sound hr code stands
    obtain ⟨htook, hfilled⟩ := hr.block read
    rw [Listing.ofStmts]
    exact ⟨hstmt.append htook, fun hleft =>
      ⟨⟨hstmtFilled (not_deeper_of_block read hleft), (hfilled hleft).1⟩, fun _ => ⟨_, List.mem_cons_self, hcode⟩⟩⟩

theorem forked_sound {depth : Nat} (hr : Sound ⟨block depth, branches depth⟩) {bs : List Branch}
    (h : Forked depth (2 * d) lines bs left) :
    Took lines (Listing.ofBranches d bs) left ∧
      (¬Deeper (2 * d) left →
        FilledBranches bs ∧ (Deeper (2 * d) lines → ∃ b ∈ bs, b.stmt.isComment = false)) := by
  cases h with
  | done =>
    rw [Listing.ofBranches]
    exact ⟨.nil _, fun hleft => ⟨trivial, fun hdeeper => absurd hdeeper hleft⟩⟩
  | skipped comment read =>
    obtain ⟨htook, hfilled⟩ := hr.branches read
    rw [deeper_comment comment]
    exact ⟨htook.comment comment, hfilled⟩
  | @branch l rest after left b bs code stands tells read =>
    obtain ⟨hbranch, hbranchFilled, hcode⟩ := tells.sound hr code stands
    obtain ⟨htook, hfilled⟩ := hr.branches read
    rw [Listing.ofBranches]
    refine ⟨hbranch.append htook, fun hleft => ⟨?_, fun _ => ⟨b, List.mem_cons_self, hcode⟩⟩⟩
    obtain ⟨name, s⟩ := b
    exact ⟨hbranchFilled (not_deeper_of_branches read hleft), (hfilled hleft).1⟩

/-- The readers of blocks are sound, whatever bounds them. -/
theorem sound_block (depth : Nat) : Sound ⟨block depth, branches depth⟩ := by
  induction depth with
  | zero =>
    constructor
    · intro d lines left stmts h
      simp only at h
      rw [block] at h
      cases h
      rw [Listing.ofStmts]
      exact ⟨.nil _, fun hleft => ⟨trivial, fun hdeeper => absurd hdeeper hleft⟩⟩
    · intro d lines left bs h
      simp only at h
      rw [branches] at h
      cases h
      rw [Listing.ofBranches]
      exact ⟨.nil _, fun hleft => ⟨trivial, fun hdeeper => absurd hdeeper hleft⟩⟩
  | succ depth ih => exact ⟨fun h => blocked_sound ih (blocked h), fun h => forked_sound ih (forked h)⟩

/-! ## Programs -/

/-- Only a branch can look like the header of an agent. -/
theorem opensAgent_of_says {mark : Mark} (h : mark.Says l.text) (hmark : ∀ b, mark ≠ .branch b) :
    opensAgent l = false := by
  rw [opensAgent, ← Bool.not_eq_true]
  intro hopens
  obtain ⟨name, hname⟩ := Option.isSome_iff_exists.1 hopens
  rw [stripPrefix_eq_some_iff] at hname
  rw [hname] at h
  cases h with
  | handler opens _ => cases opens
  | parallel opens _ => cases opens.1
  | loop opens _ => cases opens
  | plain tells => cases tells
  | named => exact hmark _ rfl
  | bare => exact hmark _ rfl

theorem outsideFrom_append {used more : List Line}
    (h : ∀ l ∈ used, l.indent = 0 → opensAgent l = false) :
    outsideFrom false (used ++ more) = used ++ outsideFrom false more := by
  induction used with
  | nil => rfl
  | cons l rest ih =>
    rw [List.forall_mem_cons] at h
    rw [List.cons_append, outsideFrom]
    by_cases hl : l.indent = 0
    · rw [if_pos hl, h.1 hl, if_neg Bool.false_ne_true, ih h.2]
      rfl
    · rw [if_neg hl, if_neg Bool.false_ne_true, ih h.2]
      rfl

theorem outsideFrom_deeper {used more : List Line} (h : ∀ l ∈ used, 0 < l.indent) :
    outsideFrom true (used ++ more) = outsideFrom true more := by
  induction used with
  | nil => rfl
  | cons l rest ih =>
    rw [List.forall_mem_cons] at h
    rw [List.cons_append, outsideFrom, if_neg (Nat.ne_of_gt h.1), if_pos rfl, ih h.2]

/-- An agent's definition ends at the next line of the top level. -/
theorem outsideFrom_of_not_deeper (h : ¬Deeper 1 lines) :
    outsideFrom true (codeLines lines) = outsideFrom false (codeLines lines) := by
  cases hnext : nextCode lines with
  | none =>
    rw [codeLines_of_none hnext]
    rfl
  | some found =>
    obtain ⟨l, rest⟩ := found
    have hl : l.indent = 0 := by
      by_contra hne
      exact h ⟨l, rest, hnext, Nat.one_le_iff_ne_zero.2 hne⟩
    rw [codeLines_of_nextCode hnext, outsideFrom, outsideFrom, if_pos hl, if_pos hl]

theorem exists_shows {used : List Line} {n : Listing} (h : List.Forall₂ Shows used n) (hl : l ∈ used) :
    ∃ e ∈ n, Shows l e := by
  induction h with
  | nil => cases hl
  | cons hfirst _ ih =>
    rcases List.mem_cons.1 hl with rfl | hl
    · exact ⟨_, List.mem_cons_self, hfirst⟩
    · obtain ⟨e, he, hshows⟩ := ih hl
      exact ⟨e, List.mem_cons_of_mem _ he, hshows⟩

/-- A line of a listing that stands at the top level is no agent's header. -/
theorem not_opensAgent_of_shows {used : List Line} {n : Listing} (hn : Listing.Under 0 n) (h : List.Forall₂ Shows used n) :
    ∀ l ∈ used, l.indent = 0 → opensAgent l = false := by
  intro l hl hindent
  obtain ⟨e, he, hshows⟩ := exists_shows h hl
  refine opensAgent_of_says hshows.2 fun b hb => ?_
  have hdeep := (hn e he).2 b hb
  have hzero := hshows.1
  omega

/-- The lines of a listing at the top level belong to no agent. -/
theorem outsideFrom_shows {used more : List Line} {n : Listing} (hn : Listing.Under 0 n)
    (h : List.Forall₂ Shows used n) :
    outsideFrom false (used ++ more) = used ++ outsideFrom false more :=
  outsideFrom_append (not_opensAgent_of_shows hn h)

theorem top_sound {depth : Nat} {agents agents' : Agents} {stmts : List Stmt}
    (hbound : lines.length < depth) (h : top depth agents lines = .ok (agents', stmts)) :
    List.Forall₂ Shows (outsideAgents lines) (Listing.ofStmts 0 stmts) ∧ FilledStmts stmts := by
  induction depth generalizing agents agents' lines stmts with
  | zero => omega
  | succ depth ih =>
    cases topped h with
    | done =>
      rw [Listing.ofStmts]
      exact ⟨.nil, trivial⟩
    | comment comment read =>
      obtain ⟨hshows, hfilled⟩ := ih (Nat.lt_of_succ_lt_succ hbound) read
      rw [Listing.ofStmts, Listing.ofStmt, List.nil_append, outsideAgents,
        codeLines_cons_comment comment]
      exact ⟨hshows, trivial, hfilled⟩
    | skipped comment read =>
      rw [outsideAgents, codeLines_cons_comment comment]
      exact ih (Nat.lt_of_succ_lt_succ hbound) read
    | @agent l rest after _ _ _ code stands opens tells read =>
      obtain ⟨used, rfl, hused⟩ := agent_deeper tells
      rw [stands] at hused
      have hshort : after.length < depth := by
        rw [List.length_cons, List.length_append] at hbound
        omega
      rw [outsideAgents, codeLines_cons_code code, outsideFrom, if_pos stands, if_pos opens,
        codeLines_append, outsideFrom_deeper hused,
        outsideFrom_of_not_deeper (not_deeper_of_top hshort read)]
      exact ih hshort read
    | @stmt l rest after s _ stmts code stands tells read =>
      obtain ⟨htook, hfilled, hcode⟩ := tells.sound (d := 0) (sound_block depth) code stands
      obtain ⟨used, hlines, hused⟩ := htook
      have hshort : after.length < depth := by
        have hsome : used ≠ [] := by
          rintro rfl
          exact Listing.ofStmt_ne_nil hcode (List.forall₂_nil_left_iff.1 hused)
        have hlength := congrArg List.length hlines
        have hpos := List.length_pos_iff.2 hsome
        rw [List.length_append] at hlength
        omega
      obtain ⟨hshows, hrest⟩ := ih hshort read
      rw [outsideAgents, hlines, codeLines_append, Listing.ofStmts,
        outsideFrom_shows (Listing.under_ofStmt 0 s) hused]
      exact ⟨List.rel_append hused hshows, hfilled (not_deeper_of_top hshort read), hrest⟩

/-- Comments at the head of a program are not among its code lines. -/
theorem codeLines_dropWhile (lines : List Line) :
    codeLines (lines.dropWhile (·.isComment)) = codeLines lines := by
  induction lines with
  | nil => rfl
  | cons l rest ih =>
    cases hcomment : l.isComment with
    | true => rw [List.dropWhile_cons_of_pos hcomment, ih, codeLines_cons_comment hcomment]
    | false =>
      rw [List.dropWhile_cons_of_neg]
      rw [hcomment]
      exact Bool.false_ne_true

end Parser

/-! ## Statement -/

/-- What the lines of a source text have to do with the program that is read from them. -/
structure Listed (lines : List Line) (p : Program) : Prop where
  /-- The code lines that belong to no agent are the listing of the statements, one for one and in order, and stand as their depth
      says. -/
  shown : List.Forall₂ Shows (outsideAgents lines) (Listing.ofStmts 0 p.statements)
  /-- Each body, handler, final body and list of branches has an entry that is no comment. -/
  filled : FilledStmts p.statements

/-- **A program has the lines of its source**, each once, in order and in the block to which its indentation assigns it. -/
theorem parse_listed {source : String} {p : Program} (h : parse source = .ok p) :
    ∃ lines, Line.ofSource source = .ok lines ∧ Listed lines p := by
  have hread : parse? source = .ok p := by
    unfold parse at h
    split at h
    · rename_i hread
      cases h
      exact hread
    · cases h
  obtain ⟨lines, hlines, hprogram⟩ := bind_eq_ok.1 hread
  obtain ⟨⟨agents, statements⟩, htop, hdone⟩ := bind_eq_ok.1 hprogram
  cases hdone
  have hbound : (lines.dropWhile (·.isComment)).length < lines.length + 1 :=
    Nat.lt_succ_of_le (List.dropWhile_sublist _).length_le
  obtain ⟨hshown, hfilled⟩ := Parser.top_sound hbound htop
  rw [outsideAgents, Parser.codeLines_dropWhile] at hshown
  exact ⟨lines, hlines, hshown, hfilled⟩

/-- A program with an agent, with comments between its lines, and with blocks inside blocks. -/
def nested : String :=
  "# Notes\nagent writer:\n  model: m\ntry:\n  session \"a\"\n # stray\ncatch as e:\n" ++
    "  parallel:\n    # within\n    x = session \"b\"\n    repeat 2:\n      let y = e  # last\n"

theorem parse_listed_nested :
    ∃ p, parse nested = .ok p ∧ ∃ lines, Line.ofSource nested = .ok lines ∧ Listed lines p := by
  have hread : (parse nested).toOption.isSome = true := by
    decide +kernel
  cases hparse : parse nested with
  | error e =>
    rw [hparse] at hread
    cases hread
  | ok p => exact ⟨p, rfl, parse_listed hparse⟩

end Playbook.Program
