import Playbook.Proofs.Program.Reading
import Playbook.Proofs.Program.Writing

/-!
# `Proofs.Program.Rereading` — statements are read back as they are written

The lines of printable statements, with more lines behind them that do not belong to the block, are read back as these statements,
and the lines behind them are left. For a single statement this follows from the same about the readers of the blocks inside it;
for blocks it is an induction on the bound of the readers, which has to be no less than the number of lines.

## Contents
- **Lines of listings.** `linesOf`.
- **Ends.** `Over` and `After`: what may follow a block, and a statement.
- **Lines by themselves.** `statement_stmt`, `statement_attempt` and the like: what is read from one line and the bodies behind it.
- **First lines.** `Headed` listings.
- **Bodies and clauses.** `Rereads` readers of blocks; `body_linesOf`, `catchClause_linesOf`, `finallyClause_linesOf`.
- **Statements and branches.** `statement_linesOf`, `branch_linesOf`.
- **Blocks.** `rereads_block`, by induction on the bound.
-/

namespace Playbook.Program.Printer

open Text Program.Parser

variable {r : Readers} {l : Line} {rest left used : List Line} {d bound : Nat}

/-! ## Lines of listings -/

/-- The lines that are read from the lines of a listing, the first of which has the given number. -/
def linesOf (number : Nat) (n : Listing) : List Line :=
  numbered number (listing n)

/-- The line that is read from the line of a mark. -/
def markLine (number depth : Nat) (m : Mark) : Line :=
  line number (2 * depth, mark m)

theorem linesOf_cons (number : Nat) (m : Mark) (n : Listing) :
    linesOf number ((d, m) :: n) = markLine number d m :: linesOf (number + 1) n := rfl

theorem linesOf_append (number : Nat) (m n : Listing) :
    linesOf number (m ++ n) = linesOf number m ++ linesOf (number + m.length) n := by
  rw [linesOf, listing, List.map_append, numbered_append, List.length_map]
  rfl

theorem length_linesOf (number : Nat) (n : Listing) : (linesOf number n).length = n.length := by
  rw [linesOf, length_numbered, listing, List.length_map]

theorem length_pos_of_linesOf {number : Nat} {n : Listing} (h : linesOf number n = l :: used) :
    0 < n.length := by
  rw [← length_linesOf number, h]
  exact Nat.succ_pos _

theorem isComment_markLine {m : Mark} (h : printableMark m = true) (number depth : Nat) :
    (markLine number depth m).isComment = false :=
  decide_eq_false (coded_mark h).worded.head?

/-! ## Ends -/

/-- What may follow a block: the next line, if there is one, is code with a smaller indentation. -/
def Over (indent : Nat) (rest : List Line) : Prop :=
  ∀ l ∈ rest.head?, l.isComment = false ∧ l.indent < indent

/-- What may follow a statement: the next line, if there is one, is code that does not stand deeper, and does not open the final
body of the statement. -/
def After (indent : Nat) (rest : List Line) : Prop :=
  ∀ l ∈ rest.head?, l.isComment = false ∧ l.indent ≤ indent ∧
    (l.indent = indent → l.text ≠ "finally:".toList)

theorem Over.after {indent : Nat} (h : Over indent rest) : After indent rest := by
  intro l hl
  obtain ⟨hcode, hless⟩ := h l hl
  exact ⟨hcode, Nat.le_of_lt hless, fun heq => absurd heq (Nat.ne_of_lt hless)⟩

theorem After.over {indent : Nat} (h : After indent rest) {deeper : Nat} (hless : indent < deeper) :
    Over deeper rest := by
  intro l hl
  obtain ⟨hcode, hle, _⟩ := h l hl
  exact ⟨hcode, Nat.lt_of_le_of_lt hle hless⟩

/-- A block ends there. -/
theorem block_of_over {indent : Nat} (h : Over indent rest) (depth : Nat) :
    block depth indent rest = .ok ([], rest) := by
  cases rest with
  | nil => exact block_nil depth indent
  | cons l rest =>
    cases depth with
    | zero => rw [block]
    | succ depth => rw [block, if_pos (h l rfl).2]

/-- Branches end where lines of a lesser indentation begin. -/
theorem branches_of_over {indent : Nat} (h : Over indent rest) (depth : Nat) :
    branches depth indent rest = .ok ([], rest) := by
  cases rest with
  | nil => exact branches_nil depth indent
  | cons l rest =>
    cases depth with
    | zero => rw [branches]
    | succ depth => rw [branches, if_pos (h l rfl).2]

/-! ## Lines by themselves -/

/-- No clause of a `try`, no loop and no agent begins like a statement without a body. -/
theorem starts_stmt {s : Stmt} (hsimple : s.isSimple = true) :
    startsWith (stmt s) "catch".toList = false ∧ stripPrefix "repeat ".toList (stmt s) = none ∧
      startsWith (stmt s) "agent ".toList = false := by
  obtain ⟨word, hword, rest, hrest⟩ := stmt_eq_append hsimple
  rw [hrest]
  simp only [List.mem_cons, List.not_mem_nil, or_false] at hword
  rcases hword with rfl | rfl | rfl | rfl
  · exact ⟨rfl, rfl, rfl⟩
  · exact ⟨rfl, rfl, rfl⟩
  · exact ⟨rfl, rfl, rfl⟩
  · exact ⟨rfl, rfl, rfl⟩

/-- A text that does not end in a colon is none that does. -/
theorem Ends.ne {text other : List Char} (h : Ends text) (hother : Text.endsWith other [':'] = true) :
    text ≠ other := by
  rintro rfl
  rw [h.endsWith] at hother
  cases hother

/-- A statement without a body is read from its line. -/
theorem statement_stmt {s : Stmt} (hsimple : s.isSimple = true) (h : printableStmt s = true)
    (hl : l.text = stmt s) : statement r l rest = .ok (s, rest) := by
  have hends := ends_stmt hsimple h
  have htry : stmt s ≠ "try:".toList := hends.ne (by decide)
  have hfinal : stmt s ≠ "finally:".toList := hends.ne (by decide)
  obtain ⟨hcatch, hrepeat, _⟩ := starts_stmt hsimple
  rw [statement]
  simp only
  rw [hl, if_neg htry, hcatch, decide_eq_false hfinal, hends.endsWith, hrepeat,
    simple_stmt hsimple h, Bool.and_false, Bool.or_false, if_neg Bool.false_ne_true,
    if_neg Bool.false_ne_true]
  rfl

/-- A `try` is read from its header, its body and its clauses. -/
theorem statement_attempt {ss : List Stmt} {name : Option String}
    {handler final : Option (List Stmt)} {afterBody afterHandler : List Line}
    (hl : l.text = mark .attempt) (hbody : body r l rest = .ok (ss, afterBody))
    (hcatch : catchClause r l.indent afterBody = .ok ((name, handler), afterHandler))
    (hfinal : finallyClause r l.indent afterHandler = .ok (final, left))
    (hsome : (handler.isSome || final.isSome) = true) :
    statement r l rest = .ok (.attempt ss name handler final, left) := by
  have hread : statement r l rest = attempt r l rest := by
    rw [statement]
    exact if_pos hl
  have hclause : (handler.isNone && final.isNone) = false := by
    rw [← Option.not_isSome, ← Option.not_isSome, ← Bool.not_or, hsome]
    rfl
  rw [hread, attempt, hbody]
  show (catchClause r l.indent afterBody >>= _) = _
  rw [hcatch]
  show (finallyClause r l.indent afterHandler >>= _) = _
  rw [hfinal]
  show (if (handler.isNone && final.isNone) = true then _ else _) = _
  rw [hclause, if_neg Bool.false_ne_true]
  rfl

/-- A parallel block is read from its header and its branches. -/
theorem statement_parallel {policy : FailurePolicy} {bs : List Branch}
    (hl : l.text = mark (.parallel policy)) (hcheck : checkBody l .noBranch rest = .ok ())
    (hread : r.branches (l.indent + indentStep) rest = .ok (bs, left)) :
    statement r l rest = .ok (.parallel policy bs, left) := by
  have hother : mark (.parallel policy) ≠ "try:".toList ∧
      (startsWith (mark (.parallel policy)) "catch".toList ||
        mark (.parallel policy) = "finally:".toList) = false ∧
      (startsWith (mark (.parallel policy)) "parallel".toList &&
        endsWith (mark (.parallel policy)) [':']) = true := by
    cases policy with
    | failFast => decide
    | proceed => decide
    | ignore => decide
  obtain ⟨htry, hclause, hparallel⟩ := hother
  rw [statement]
  simp only
  rw [hl, if_neg htry, hclause, if_neg Bool.false_ne_true, if_pos hparallel, policy?_mark]
  simp only
  rw [hcheck]
  show (r.branches (l.indent + indentStep) rest >>= _) = _
  rw [hread]
  rfl

/-- A loop is read from its header and its body. -/
theorem statement_loop {count : UInt32} {ss : List Stmt} (hl : l.text = mark (.loop count))
    (hread : body r l rest = .ok (ss, left)) :
    statement r l rest = .ok (.loop count ss, left) := by
  have htry (text : List Char) : "repeat ".toList ++ text ≠ "try:".toList := nofun
  have hclause (text : List Char) : (startsWith ("repeat ".toList ++ text) "catch".toList ||
      "repeat ".toList ++ text = "finally:".toList) = false := by
    have hfinal : "repeat ".toList ++ text ≠ "finally:".toList := nofun
    rw [decide_eq_false hfinal]
    rfl
  have hparallel (text : List Char) :
      startsWith ("repeat ".toList ++ text) "parallel".toList = false := rfl
  have htext : l.text = "repeat ".toList ++ (Nat.toDigits 10 count.toNat ++ [':']) := hl
  rw [statement]
  simp only
  rw [htext, if_neg (htry _), hclause, if_neg Bool.false_ne_true, hparallel, Bool.false_and,
    if_neg Bool.false_ne_true, stripPrefix_append]
  simp only
  rw [repeatCount?_toDigits]
  simp only
  rw [hread]
  rfl

/-- A branch that binds a name is read from its line. -/
theorem branch_named {name : String} {s : Stmt} (hname : isBranchName name = true)
    (hcall : isCall s = true) (h : printableStmt s = true) (hl : l.text = assignment name (stmt s)) :
    Parser.branch r l rest = .ok (.mk (some name) s, rest) := by
  have hsolid := solid_stmt (isCall_isSimple hcall) h
  rw [Parser.branch, hl, namedBranch?_assignment hname hsolid]
  simp only
  rw [namedBranch_stmt hcall h]
  rfl

/-- No line but that of a final body says what opens it. -/
theorem mark_ne_final {m : Mark} (h : printableMark m = true) (hm : m ≠ .final) :
    mark m ≠ "finally:".toList := by
  cases m with
  | attempt => decide
  | handler name =>
    cases name with
    | none => decide
    | some name =>
      have hother (text : List Char) : "catch as ".toList ++ text ≠ "finally:".toList := nofun
      exact hother _
  | final => exact absurd rfl hm
  | parallel policy =>
    have hother (text : List Char) : "parallel(on-fail: ".toList ++ text ≠ "finally:".toList :=
      nofun
    exact hother _
  | loop count =>
    have hother (text : List Char) : "repeat ".toList ++ text ≠ "finally:".toList := nofun
    exact hother _
  | plain s =>
    rw [printableMark, Bool.and_eq_true] at h
    exact (ends_stmt h.1 h.2).ne (by decide)
  | branch b =>
    obtain ⟨name, s⟩ := b
    rw [printableMark, printableBranch, Bool.and_eq_true, Bool.and_eq_true] at h
    have hends : Ends (stmt s) := ends_stmt h.1 h.2.1
    cases name with
    | none => exact hends.ne (by decide)
    | some name =>
      have hassign := hends.append (name.toList ++ [' ', '=', ' '])
      rw [List.append_assoc] at hassign
      exact hassign.ne (by decide)

/-- Only a branch can begin like the definition of an agent. -/
theorem opensAgent_markLine {m : Mark} (h : printableMark m = true) (hm : ∀ b, m ≠ .branch b)
    (number depth : Nat) : opensAgent (markLine number depth m) = false := by
  show startsWith (mark m) "agent ".toList = false
  cases m with
  | attempt => decide
  | handler name =>
    cases name with
    | none => decide
    | some name =>
      have hother (text : List Char) :
          startsWith ("catch as ".toList ++ text) "agent ".toList = false := rfl
      exact hother _
  | final => decide
  | parallel policy =>
    have hother (text : List Char) :
        startsWith ("parallel(on-fail: ".toList ++ text) "agent ".toList = false := rfl
    exact hother _
  | loop count =>
    have hother (text : List Char) :
        startsWith ("repeat ".toList ++ text) "agent ".toList = false := rfl
    exact hother _
  | plain s =>
    rw [printableMark, Bool.and_eq_true] at h
    exact (starts_stmt h.1).2.2
  | branch b => exact absurd rfl (hm b)

/-! ## First lines -/

/-- A listing that begins at a depth, and not with a final body. -/
def Headed (depth : Nat) (n : Listing) : Prop :=
  ∃ m rest, n = (depth, m) :: rest ∧ m ≠ .final

theorem Headed.append {m : Listing} (h : Headed d m) (n : Listing) : Headed d (m ++ n) := by
  obtain ⟨first, more, rfl, hfirst⟩ := h
  exact ⟨first, more ++ n, rfl, hfirst⟩

theorem Headed.not_length_le {n : Listing} (h : Headed d n) : ¬n.length ≤ 0 := by
  obtain ⟨m, more, rfl, _⟩ := h
  exact Nat.not_succ_le_zero _

theorem headed_ofStmt (depth : Nat) {s : Stmt} (h : printableStmt s = true) :
    Headed depth (Listing.ofStmt depth s) := by
  cases s with
  | comment =>
    rw [printableStmt] at h
    cases h
  | _ =>
    rw [Listing.ofStmt]
    exact ⟨_, _, rfl, nofun⟩

theorem headed_ofBranch (depth : Nat) {b : Branch} (h : printableBranch b = true) :
    Headed depth (Listing.ofBranch depth b) := by
  obtain ⟨name, s⟩ := b
  cases hsimple : s.isSimple with
  | false =>
    rw [printableBranch, Bool.and_eq_true] at h
    rw [Listing.ofBranch_of_not_isSimple hsimple]
    exact headed_ofStmt depth h.1
  | true =>
    rw [Listing.ofBranch_of_isSimple hsimple]
    exact ⟨_, _, rfl, nofun⟩

/-- The first line of such a listing, and the others. -/
theorem Headed.first {n : Listing} (h : Headed d n) (number : Nat) :
    ∃ m used, linesOf number n = markLine number d m :: used ∧ (d, m) ∈ n := by
  obtain ⟨m, more, rfl, _⟩ := h
  exact ⟨m, _, rfl, List.mem_cons_self⟩

/-- Such a listing may follow a statement of its depth. -/
theorem Headed.after {n : Listing} (h : Headed d n) (hn : PrintableListing n) (number : Nat)
    (rest : List Line) : After (2 * d) (linesOf number n ++ rest) := by
  obtain ⟨m, more, rfl, hm⟩ := h
  have hmark : printableMark m = true := hn _ List.mem_cons_self
  intro l hl
  cases hl
  exact ⟨isComment_markLine hmark number d, Nat.le_refl _, fun _ => mark_ne_final hmark hm⟩

/-- The body of a header can begin with it. -/
theorem Headed.nextCode {n : Listing} (h : Headed d n) (hn : PrintableListing n) (number : Nat)
    (rest : List Line) :
    ∃ next others, nextCode (linesOf number n ++ rest) = some (next, others) ∧
      next.indent = 2 * d := by
  obtain ⟨m, used, hlines, hmem⟩ := h.first number
  rw [hlines, List.cons_append]
  exact ⟨_, _, nextCode_cons_code (isComment_markLine (hn _ hmem) number d), rfl⟩

/-! ## Bodies and clauses -/

/-- Readers of blocks read back what was written, up to a number of lines. -/
structure Rereads (r : Readers) (bound : Nat) : Prop where
  block {d number : Nat} {ss : List Stmt} {rest : List Line} (h : printableStmts ss = true)
    (hbound : (Listing.ofStmts d ss).length ≤ bound) (hrest : Over (2 * d) rest) :
    r.block (2 * d) (linesOf number (Listing.ofStmts d ss) ++ rest) = .ok (ss, rest)
  branches {d number : Nat} {bs : List Branch} {rest : List Line}
    (h : printableBranches bs = true) (hbound : (Listing.ofBranches d bs).length ≤ bound)
    (hrest : Over (2 * d) rest) :
    r.branches (2 * d) (linesOf number (Listing.ofBranches d bs) ++ rest) = .ok (bs, rest)

theorem headed_ofStmts (depth : Nat) (ss : List Stmt) (h : printableBody ss = true) :
    Headed depth (Listing.ofStmts depth ss) := by
  cases ss with
  | nil => cases h
  | cons s rest =>
    rw [printableBody, Bool.and_eq_true] at h
    rw [Listing.ofStmts]
    exact (headed_ofStmt depth h.1).append _

theorem headed_ofBranches (depth : Nat) (bs : List Branch)
    (h : (!bs.isEmpty) = true ∧ printableBranches bs = true) :
    Headed depth (Listing.ofBranches depth bs) := by
  cases bs with
  | nil => cases h.1
  | cons b rest =>
    obtain ⟨_, h⟩ := h
    rw [printableBranches, Bool.and_eq_true] at h
    rw [Listing.ofBranches]
    exact (headed_ofBranch depth h.1).append _

/-- A body is read back behind its header. -/
theorem body_linesOf (hr : Rereads r bound) {ss : List Stmt} (h : printableBody ss = true)
    (hl : l.indent = 2 * d) (hbound : (Listing.ofStmts (d + 1) ss).length ≤ bound)
    (hrest : Over (2 * (d + 1)) rest) (number : Nat) :
    body r l (linesOf number (Listing.ofStmts (d + 1) ss) ++ rest) = .ok (ss, rest) := by
  have hstmts := printableStmts_of_body h
  have hstep : l.indent + indentStep = 2 * (d + 1) := by
    rw [hl]
    rfl
  rw [body_eq_ok_iff, hstep]
  refine ⟨?_, hr.block hstmts hbound hrest⟩
  exact (headed_ofStmts (d + 1) ss h).nextCode (printableListing_ofStmts _ ss hstmts) number rest

/-- A clause may follow a body. -/
theorem over_clause (header : Mark) (hheader : printableMark header = true)
    (clause : Option (List Stmt)) (hrest : Over (2 * (d + 1)) rest) (number : Nat) :
    Over (2 * (d + 1)) (linesOf number (Listing.ofClause d header clause) ++ rest) := by
  cases clause with
  | none =>
    rw [Listing.ofClause]
    exact hrest
  | some ss =>
    rw [Listing.ofClause, linesOf_cons]
    intro l hl
    cases hl
    refine ⟨isComment_markLine hheader number d, ?_⟩
    show 2 * d < 2 * (d + 1)
    omega

theorem startsWith_catch (name : Option String) :
    startsWith (mark (.handler name)) "catch".toList = true := by
  cases name with
  | none => decide
  | some name =>
    have hstarts (text : List Char) :
        startsWith ("catch as ".toList ++ text) "catch".toList = true := rfl
    exact hstarts _

/-- A handler is read back. -/
theorem catchClause_some (hr : Rereads r bound) {name : Option String}
    (hname : printableMark (.handler name) = true) {ss : List Stmt} (h : printableBody ss = true)
    (hbound : (Listing.ofStmts (d + 1) ss).length ≤ bound) (hrest : Over (2 * (d + 1)) rest)
    (number : Nat) :
    catchClause r (2 * d) (linesOf number (Listing.ofClause d (.handler name) (some ss)) ++ rest) =
      .ok ((name, some ss), rest) := by
  rw [Listing.ofClause, linesOf_cons, List.cons_append, catchClause,
    nextCode_cons_code (isComment_markLine hname number d)]
  have hopens : ((markLine number d (.handler name)).indent = 2 * d &&
      startsWith (markLine number d (.handler name)).text "catch".toList) = true := by
    rw [Bool.and_eq_true, decide_eq_true_eq]
    exact ⟨rfl, startsWith_catch name⟩
  have htells : Phrase.catchName? (markLine number d (.handler name)).text = some name :=
    catchName?_mark hname
  simp only
  rw [if_pos hopens, htells]
  simp only
  rw [body_linesOf hr h rfl hbound hrest]
  rfl

/-- There is no handler where a final body opens. -/
theorem catchClause_final (ss : List Stmt) (number : Nat) :
    catchClause r (2 * d) (linesOf number (Listing.ofClause d .final (some ss)) ++ rest) =
      .ok ((none, none), linesOf number (Listing.ofClause d .final (some ss)) ++ rest) := by
  rw [Listing.ofClause, linesOf_cons, List.cons_append, catchClause,
    nextCode_cons_code (isComment_markLine rfl number d)]
  have hcatch : startsWith (markLine number d .final).text "catch".toList = false := rfl
  simp only
  rw [hcatch, Bool.and_false, if_neg Bool.false_ne_true]

/-- The handler of a `try` is read back, if there is one. -/
theorem catchClause_linesOf (hr : Rereads r bound) {name : Option String}
    {handler final : Option (List Stmt)}
    (hname : name.all (fun n => isName n && handler.isSome) = true)
    (h : printableClause handler = true) (hsome : (handler.isSome || final.isSome) = true)
    (hbound : (Listing.ofClause d (.handler name) handler).length ≤ bound)
    (hrest : After (2 * d) rest) (number number' : Nat) :
    catchClause r (2 * d) (linesOf number (Listing.ofClause d (.handler name) handler) ++
      (linesOf number' (Listing.ofClause d .final final) ++ rest)) =
        .ok ((name, handler), linesOf number' (Listing.ofClause d .final final) ++ rest) := by
  cases handler with
  | some ss =>
    rw [printableClause] at h
    rw [Listing.ofClause, List.length_cons] at hbound
    have hover : Over (2 * (d + 1)) rest := hrest.over (by omega)
    exact catchClause_some hr (printableMark_handler hname) h (Nat.le_of_succ_le hbound)
      (over_clause .final rfl final hover number') number
  | none =>
    -- There has to be a final body then, and its header is that of no handler.
    obtain ⟨ss, rfl⟩ := Option.isSome_iff_exists.1 hsome
    have hnone : name = none := by
      cases name with
      | none => rfl
      | some name =>
        rw [Option.all_some, Bool.and_eq_true] at hname
        cases hname.2
    have hempty : Listing.ofClause d (.handler none) none = [] := by
      rw [Listing.ofClause]
    rw [hnone, hempty]
    exact catchClause_final ss number'

/-- A final body is read back, if there is one. -/
theorem finallyClause_linesOf (hr : Rereads r bound) {final : Option (List Stmt)}
    (h : printableClause final = true)
    (hbound : (Listing.ofClause d .final final).length ≤ bound) (hrest : After (2 * d) rest)
    (number : Nat) :
    finallyClause r (2 * d) (linesOf number (Listing.ofClause d .final final) ++ rest) =
      .ok (final, rest) := by
  cases final with
  | none =>
    rw [Listing.ofClause]
    show finallyClause r (2 * d) rest = .ok (none, rest)
    cases rest with
    | nil => rfl
    | cons l rest =>
      obtain ⟨hcode, _, hother⟩ := hrest l rfl
      have hnot : (l.indent = 2 * d && l.text = "finally:".toList) = false := by
        rw [← Bool.not_eq_true, Bool.and_eq_true, decide_eq_true_eq, decide_eq_true_eq]
        exact fun hopens => hother hopens.1 hopens.2
      rw [finallyClause, nextCode_cons_code hcode]
      simp only
      rw [hnot, if_neg Bool.false_ne_true]
  | some ss =>
    rw [printableClause] at h
    rw [Listing.ofClause, List.length_cons] at hbound
    have hopens : ((markLine number d .final).indent = 2 * d &&
        (markLine number d .final).text = "finally:".toList) = true := by
      rw [Bool.and_eq_true, decide_eq_true_eq, decide_eq_true_eq]
      exact ⟨rfl, rfl⟩
    have hover : Over (2 * (d + 1)) rest := hrest.over (by omega)
    rw [Listing.ofClause, linesOf_cons, List.cons_append, finallyClause,
      nextCode_cons_code (isComment_markLine rfl number d)]
    simp only
    rw [if_pos hopens, body_linesOf hr h rfl (Nat.le_of_succ_le hbound) hover]
    rfl

/-! ## Statements and branches -/

/-- A statement is read back. -/
theorem statement_linesOf (hr : Rereads r bound) {s : Stmt} (h : printableStmt s = true)
    (hbound : (Listing.ofStmt d s).length ≤ bound + 1) (hrest : After (2 * d) rest) {number : Nat}
    (hused : linesOf number (Listing.ofStmt d s) = l :: used) :
    statement r l (used ++ rest) = .ok (s, rest) := by
  have hover : Over (2 * (d + 1)) rest := hrest.over (by omega)
  have hline (hsimple : s.isSimple = true) : statement r l (used ++ rest) = .ok (s, rest) := by
    rw [Listing.ofStmt_of_isSimple hsimple] at hused
    cases hused
    exact statement_stmt hsimple h rfl
  cases s with
  | attempt ss name handler final =>
    simp only [printableStmt, Bool.and_eq_true] at h
    obtain ⟨⟨⟨⟨hbody, hname⟩, hhandler⟩, hfinal⟩, hsome⟩ := h
    rw [Listing.ofStmt, List.length_cons, List.length_append, List.length_append] at hbound
    rw [Listing.ofStmt, linesOf_cons, linesOf_append, linesOf_append] at hused
    cases hused
    rw [List.append_assoc, List.append_assoc]
    -- Each body ends at the header of the next clause, and the last one where the statement does.
    have hfinalOver := over_clause .final rfl final hover
    have hclauses (k : Nat) := over_clause _ (printableMark_handler hname) handler (hfinalOver k)
    exact statement_attempt rfl (body_linesOf hr hbody rfl (by omega) (hclauses _ _) _)
      (catchClause_linesOf hr hname hhandler hsome (by omega) hrest _ _)
      (finallyClause_linesOf hr hfinal (by omega) hrest _) hsome
  | parallel policy bs =>
    rw [printableStmt, Bool.and_eq_true] at h
    rw [Listing.ofStmt, List.length_cons] at hbound
    rw [Listing.ofStmt, linesOf_cons] at hused
    cases hused
    refine statement_parallel rfl ?_ (hr.branches h.2 (Nat.le_of_succ_le_succ hbound) hover)
    exact checkBody_eq_ok_iff.2 ((headed_ofBranches (d + 1) bs h).nextCode
      (printableListing_ofBranches _ bs h.2) (number + 1) rest)
  | loop count ss =>
    rw [printableStmt] at h
    rw [Listing.ofStmt, List.length_cons] at hbound
    rw [Listing.ofStmt, linesOf_cons] at hused
    cases hused
    exact statement_loop rfl (body_linesOf hr h rfl (Nat.le_of_succ_le_succ hbound) hover _)
  | comment =>
    rw [printableStmt] at h
    cases h
  | _ => exact hline rfl

/-- What opens a statement is not taken for a branch that binds a name. -/
theorem namedBranch?_linesOf {s : Stmt} (h : printableStmt s = true) {number : Nat}
    (hused : linesOf number (Listing.ofStmt d s) = l :: used) :
    Phrase.namedBranch? l.text = none := by
  have hline (hsimple : s.isSimple = true) : Phrase.namedBranch? l.text = none := by
    rw [Listing.ofStmt_of_isSimple hsimple] at hused
    cases hused
    exact namedBranch?_stmt hsimple h
  cases s with
  | attempt =>
    rw [Listing.ofStmt] at hused
    cases hused
    have hnone : Phrase.namedBranch? "try:".toList = none := by decide
    exact hnone
  | parallel policy =>
    rw [Listing.ofStmt] at hused
    cases hused
    exact namedBranch?_parallel policy
  | loop count =>
    rw [Listing.ofStmt] at hused
    cases hused
    exact namedBranch?_loop count
  | comment =>
    rw [printableStmt] at h
    cases h
  | _ => exact hline rfl

/-- A branch that binds no name has the lines of its statement. -/
theorem linesOf_ofBranch_none (number depth : Nat) (s : Stmt) :
    linesOf number (Listing.ofBranch depth (.mk none s)) =
      linesOf number (Listing.ofStmt depth s) := by
  cases hsimple : s.isSimple with
  | false => rw [Listing.ofBranch_of_not_isSimple hsimple]
  | true =>
    rw [Listing.ofBranch_of_isSimple hsimple, Listing.ofStmt_of_isSimple hsimple]
    rfl

/-- A branch is read back. -/
theorem branch_linesOf (hr : Rereads r bound) {b : Branch} (h : printableBranch b = true)
    (hbound : (Listing.ofBranch d b).length ≤ bound + 1) (hrest : After (2 * d) rest)
    {number : Nat} (hused : linesOf number (Listing.ofBranch d b) = l :: used) :
    Parser.branch r l (used ++ rest) = .ok (b, rest) := by
  obtain ⟨name, s⟩ := b
  rw [printableBranch, Bool.and_eq_true] at h
  cases name with
  | none =>
    -- The lines are those of the statement, but the first one is looked at for a name before.
    rw [← length_linesOf number, linesOf_ofBranch_none, length_linesOf] at hbound
    rw [linesOf_ofBranch_none] at hused
    rw [Parser.branch, namedBranch?_linesOf h.1 hused]
    simp only
    rw [statement_linesOf hr h.1 hbound hrest hused]
    rfl
  | some name =>
    have hcall := h.2
    rw [Option.all_some, Bool.and_eq_true] at hcall
    have hsimple := isCall_isSimple hcall.2
    rw [Listing.ofBranch_of_isSimple hsimple] at hused
    cases hused
    exact branch_named hcall.1 hcall.2 h.1 rfl

/-! ## Blocks -/

/-- What follows a statement in a block may follow it. -/
theorem after_ofStmts {ss : List Stmt} (h : printableStmts ss = true) (hrest : Over (2 * d) rest)
    (number : Nat) : After (2 * d) (linesOf number (Listing.ofStmts d ss) ++ rest) := by
  cases ss with
  | nil =>
    rw [Listing.ofStmts]
    exact hrest.after
  | cons s more =>
    exact (headed_ofStmts d (s :: more) h).after (printableListing_ofStmts d _ h) number rest

theorem after_ofBranches {bs : List Branch} (h : printableBranches bs = true)
    (hrest : Over (2 * d) rest) (number : Nat) :
    After (2 * d) (linesOf number (Listing.ofBranches d bs) ++ rest) := by
  cases bs with
  | nil =>
    rw [Listing.ofBranches]
    exact hrest.after
  | cons b more =>
    exact (headed_ofBranches d (b :: more) ⟨rfl, h⟩).after
      (printableListing_ofBranches d _ h) number rest

/-- The first line of a statement, and the others. -/
theorem linesOf_ofStmt (number depth : Nat) {s : Stmt} (h : printableStmt s = true) :
    ∃ l used, linesOf number (Listing.ofStmt depth s) = l :: used ∧ l.isComment = false ∧
      l.indent = 2 * depth ∧ opensAgent l = false := by
  obtain ⟨m, used, hlines, hmem⟩ := (headed_ofStmt depth h).first number
  have hmark : printableMark m = true := printableListing_ofStmt depth s h _ hmem
  -- A branch lies deeper than the statement that it belongs to.
  have hbranch : ∀ b, m ≠ .branch b := by
    intro b hb
    have hdeeper := (Listing.under_ofStmt depth s _ hmem).2 b hb
    exact Nat.lt_irrefl _ hdeeper
  exact ⟨_, used, hlines, isComment_markLine hmark number depth, rfl,
    opensAgent_markLine hmark hbranch number depth⟩

/-- The first line of a branch, and the others. -/
theorem linesOf_ofBranch (number depth : Nat) {b : Branch} (h : printableBranch b = true) :
    ∃ l used, linesOf number (Listing.ofBranch depth b) = l :: used ∧ l.isComment = false ∧
      l.indent = 2 * depth := by
  obtain ⟨m, used, hlines, hmem⟩ := (headed_ofBranch depth h).first number
  have hmark : printableMark m = true := printableListing_ofBranch depth b h _ hmem
  exact ⟨_, used, hlines, isComment_markLine hmark number depth, rfl⟩

theorem block_linesOf {depth : Nat} (hr : Rereads ⟨block depth, branches depth⟩ depth)
    {ss : List Stmt} (h : printableStmts ss = true)
    (hbound : (Listing.ofStmts d ss).length ≤ depth + 1) (hrest : Over (2 * d) rest) (number : Nat) :
    block (depth + 1) (2 * d) (linesOf number (Listing.ofStmts d ss) ++ rest) = .ok (ss, rest) := by
  cases ss with
  | nil =>
    rw [Listing.ofStmts]
    exact block_of_over hrest (depth + 1)
  | cons s more =>
    rw [printableStmts, Bool.and_eq_true] at h
    rw [Listing.ofStmts, List.length_append] at hbound
    obtain ⟨l, used, hused, hcode, hindent, hagent⟩ := linesOf_ofStmt number d h.1
    have hshort : (Listing.ofStmts d more).length ≤ depth := by
      have hpos := length_pos_of_linesOf hused
      omega
    have hmore (k : Nat) :
        block depth (2 * d) (linesOf k (Listing.ofStmts d more) ++ rest) = .ok (more, rest) :=
      hr.block h.2 hshort hrest
    have hstmt := statement_linesOf hr h.1 (Nat.le_of_add_right_le hbound)
      (after_ofStmts h.2 hrest (number + (Listing.ofStmt d s).length)) hused
    rw [Listing.ofStmts, linesOf_append, hused, List.append_assoc, List.cons_append, block, hindent,
      if_neg (Nat.lt_irrefl _), hcode, if_neg Bool.false_ne_true, if_neg (Nat.lt_irrefl _), hagent,
      if_neg Bool.false_ne_true, hstmt]
    show (block depth (2 * d) _ >>= _) = _
    rw [hmore]
    rfl

theorem branches_linesOf {depth : Nat} (hr : Rereads ⟨block depth, branches depth⟩ depth)
    {bs : List Branch} (h : printableBranches bs = true)
    (hbound : (Listing.ofBranches d bs).length ≤ depth + 1) (hrest : Over (2 * d) rest)
    (number : Nat) :
    branches (depth + 1) (2 * d) (linesOf number (Listing.ofBranches d bs) ++ rest) =
      .ok (bs, rest) := by
  cases bs with
  | nil =>
    rw [Listing.ofBranches]
    exact branches_of_over hrest (depth + 1)
  | cons b more =>
    rw [printableBranches, Bool.and_eq_true] at h
    rw [Listing.ofBranches, List.length_append] at hbound
    obtain ⟨l, used, hused, hcode, hindent⟩ := linesOf_ofBranch number d h.1
    have hshort : (Listing.ofBranches d more).length ≤ depth := by
      have hpos := length_pos_of_linesOf hused
      omega
    have hmore (k : Nat) :
        branches depth (2 * d) (linesOf k (Listing.ofBranches d more) ++ rest) =
          .ok (more, rest) :=
      hr.branches h.2 hshort hrest
    have hbranch := branch_linesOf hr h.1 (Nat.le_of_add_right_le hbound)
      (after_ofBranches h.2 hrest (number + (Listing.ofBranch d b).length)) hused
    rw [Listing.ofBranches, linesOf_append, hused, List.append_assoc, List.cons_append, branches,
      hindent, if_neg (Nat.lt_irrefl _), hcode, if_neg Bool.false_ne_true,
      if_neg (Nat.lt_irrefl _), hbranch]
    show (branches depth (2 * d) _ >>= _) = _
    rw [hmore]
    rfl

/-- The readers of blocks read back what was written, up to as many lines as their bound says. -/
theorem rereads_block (depth : Nat) : Rereads ⟨block depth, branches depth⟩ depth := by
  induction depth with
  | zero =>
    -- Each statement and each branch has a line, so there are none.
    constructor
    · intro d number ss rest h hbound hrest
      cases ss with
      | nil =>
        rw [Listing.ofStmts]
        exact block_of_over hrest 0
      | cons s more =>
        exact absurd hbound (headed_ofStmts d (s :: more) h).not_length_le
    · intro d number bs rest h hbound hrest
      cases bs with
      | nil =>
        rw [Listing.ofBranches]
        exact branches_of_over hrest 0
      | cons b more =>
        exact absurd hbound (headed_ofBranches d (b :: more) ⟨rfl, h⟩).not_length_le
  | succ depth ih =>
    exact ⟨fun h hbound hrest => block_linesOf ih h hbound hrest _,
      fun h hbound hrest => branches_linesOf ih h hbound hrest _⟩

end Playbook.Program.Printer
