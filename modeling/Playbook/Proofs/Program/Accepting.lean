import Playbook.Proofs.Program.Reading
import Playbook.Proofs.Program.Wording

/-!
# `Proofs.Program.Accepting` — what a reader accepts

`Reading` says what a reader has found when it succeeds. Here it is shown that nothing more is needed for it to succeed: the tests that
a reader makes before it comes to what it finds exclude each other.

## Contents
- **Phrases.** An expression has a quote or is a name (`quote_mem_or_isName`); how statements on one line begin and end
  (`opens_of_simple`).
- **Statements.** `catchClause_eq_ok_iff`, `finallyClause_eq_ok_iff`, `attempt_eq_ok_iff`, `statement_eq_ok_iff`.
- **Branches.** `branch_eq_ok_iff`.
- **Blocks.** `block_cons_eq_ok_iff`, `branches_cons_eq_ok_iff`.
- **Programs.** `properties_cons_eq_ok_iff`, `agent_eq_ok_iff`, `top_cons_eq_ok_iff`.
-/

namespace Playbook.Program

open Text Printer

/-! ## Phrases -/

namespace Phrase

variable {text : List Char}

/-- A title is a literal. -/
theorem title_eq_ok {keyword title : String} (h : Phrase.title keyword text = .ok title) : ∃ rest, text = '"' :: rest := by
  unfold Phrase.title at h
  split at h
  · exact ⟨_, rfl⟩
  · cases h

/-- A call is read only from a text with a quote. -/
theorem quote_mem_of_call {keyword : String} {needsAgent : Bool} {c : SessionCall}
    (h : call keyword needsAgent text = .ok c) : '"' ∈ text := by
  refine trimStart_subset text ?_
  unfold call at h
  split at h
  · rename_i rest htext
    cases hname : isName (firstWord (trimStart rest)).1 with
    | false =>
      simp only [hname] at h
      cases h
    | true =>
      simp only [hname, if_true] at h
      obtain ⟨title, htitle, -⟩ := bind_eq_ok.1 h
      obtain ⟨more, hmore⟩ := title_eq_ok htitle
      have hmem : '"' ∈ trimStart (firstWord (trimStart rest)).2 := hmore ▸ List.mem_cons_self
      have hword : (firstWord (trimStart rest)).2 ⊆ trimStart rest := (List.dropWhile_sublist _).subset
      rw [htext]
      exact List.mem_cons_of_mem _ (trimStart_subset _ (hword (trimStart_subset _ hmem)))
  · split at h
    · cases h
    · obtain ⟨title, htitle, -⟩ := bind_eq_ok.1 h
      obtain ⟨more, hmore⟩ := title_eq_ok htitle
      rw [hmore]
      exact List.mem_cons_self

/-- An expression holds a quote or is a name. -/
theorem quote_mem_or_isName {value : Expr} (h : expr text = .ok value) : '"' ∈ text ∨ isName text = true := by
  unfold expr at h
  split at h
  · rename_i hquote
    obtain ⟨rest, hrest⟩ := Option.isSome_iff_exists.1 hquote
    rw [stripPrefix_eq_some_iff] at hrest
    rw [hrest]
    exact .inl List.mem_cons_self
  · split at h
    · obtain ⟨c, hc, -⟩ := map_eq_ok.1 h
      exact .inl (List.mem_of_mem_drop (quote_mem_of_call hc))
    · split at h
      · obtain ⟨c, hc, -⟩ := map_eq_ok.1 h
        exact .inl (List.mem_of_mem_drop (quote_mem_of_call hc))
      · split at h
        · rename_i hname
          exact .inr hname
        · cases h

/-- A text does not look like the header of a block: it has a quote or does not end in a colon. -/
def Settled (text : List Char) : Prop :=
  '"' ∈ text ∨ endsWith text [':'] = false

theorem Settled.append {before : List Char} (h : Settled text) (hbefore : ':' ∉ before) : Settled (before ++ text) := by
  rcases h with hquote | hends
  · exact .inl (List.mem_append_right _ hquote)
  · exact .inr ((endsWith_append hbefore text).trans hends)

theorem settled_of_assignment {a : String × Expr} (h : assignment text = .ok a) : Settled text := by
  unfold assignment at h
  split at h
  · cases h
  · rename_i before after hsplit
    obtain ⟨rfl, -⟩ := splitFirst_eq_some hsplit
    simp only at h
    split at h
    · obtain ⟨value, hvalue, -⟩ := bind_eq_ok.1 h
      rcases quote_mem_or_isName hvalue with hquote | hname
      · exact .inl (List.mem_append_right _ (List.mem_cons_of_mem _ (trim_subset _ hquote)))
      · -- A colon behind the equals sign would be a part of the name.
        have hcolon : ':' ∉ after := fun hmem => not_mem_of_isName hname (by decide) (mem_trim hmem (by decide))
        refine .inr ?_
        rcases List.eq_nil_or_concat after with rfl | ⟨more, d, rfl⟩
        · exact endsWith_concat (by decide)
        · rw [List.concat_eq_append, List.mem_append, List.mem_singleton, not_or] at hcolon
          rw [List.concat_eq_append, ← List.cons_append, ← List.append_assoc]
          exact endsWith_concat (Ne.symm hcolon.2)
    · cases h

/-- The words that statements on one line begin with. -/
def openings : List (List Char) :=
  ["let ".toList, "output ".toList, sessionWord, resumeWord]

theorem opens_of_simple {s : Stmt} (h : simple text = .ok s) :
    (∃ word ∈ openings, ∃ rest, text = word ++ rest) ∧ Settled text := by
  have hopens : ∃ word ∈ openings, ∃ rest, text = word ++ rest ∧ Settled rest := by
    unfold simple at h
    split at h
    · rename_i rest hrest
      obtain ⟨a, ha, -⟩ := map_eq_ok.1 h
      exact ⟨_, by decide, rest, stripPrefix_eq_some_iff.1 hrest, settled_of_assignment ha⟩
    · split at h
      · rename_i rest hrest
        obtain ⟨a, ha, -⟩ := map_eq_ok.1 h
        exact ⟨_, by decide, rest, stripPrefix_eq_some_iff.1 hrest, settled_of_assignment ha⟩
      · split at h
        · rename_i rest hrest
          obtain ⟨c, hc, -⟩ := map_eq_ok.1 h
          exact ⟨_, by decide, rest, stripPrefix_eq_some_iff.1 hrest, .inl (quote_mem_of_call hc)⟩
        · split at h
          · rename_i rest hrest
            obtain ⟨c, hc, -⟩ := map_eq_ok.1 h
            exact ⟨_, by decide, rest, stripPrefix_eq_some_iff.1 hrest, .inl (quote_mem_of_call hc)⟩
          · cases h
  obtain ⟨word, hword, rest, rfl, hrest⟩ := hopens
  have hcolon : ∀ word ∈ openings, ':' ∉ word := by decide
  exact ⟨⟨word, hword, rest, rfl⟩, hrest.append (hcolon word hword)⟩

end Phrase

namespace Parser

variable {r : Readers} {line : Line} {lines rest left : List Line} {text : List Char}

/-! ## Statements -/

/-- A text that begins like another statement is no `try` and no clause of one. -/
theorem opens_no_try {word : List Char} (hword : word ∈ "parallel".toList :: "repeat ".toList :: Phrase.openings)
    (rest : List Char) :
    word ++ rest ≠ "try:".toList ∧ (startsWith (word ++ rest) "catch".toList || word ++ rest = "finally:".toList) = false := by
  simp only [Phrase.openings, List.mem_cons, List.not_mem_nil, or_false] at hword
  have hfinal : word ++ rest ≠ "finally:".toList := by
    intro heq
    rcases hword with rfl | rfl | rfl | rfl | rfl | rfl <;> cases heq
  have htry : word ++ rest ≠ "try:".toList := by
    intro heq
    rcases hword with rfl | rfl | rfl | rfl | rfl | rfl <;> cases heq
  rw [decide_eq_false hfinal, Bool.or_false]
  rcases hword with rfl | rfl | rfl | rfl | rfl | rfl <;> exact ⟨htry, rfl⟩

/-- A text that begins like a statement on one line begins like nothing else. -/
theorem opens_nothing_else {word : List Char} (hword : word ∈ Phrase.openings) (rest : List Char) :
    startsWith (word ++ rest) "parallel".toList = false ∧ stripPrefix "repeat ".toList (word ++ rest) = none := by
  simp only [Phrase.openings, List.mem_cons, List.not_mem_nil, or_false] at hword
  rcases hword with rfl | rfl | rfl | rfl <;> exact ⟨rfl, rfl⟩

theorem statement_of_simple {s : Stmt} (tells : Phrase.simple line.text = .ok s) :
    statement r line rest = .ok (s, rest) := by
  obtain ⟨⟨word, hword, more, htext⟩, hsettled⟩ := Phrase.opens_of_simple tells
  obtain ⟨htry, hstray⟩ := opens_no_try (List.mem_cons_of_mem _ (List.mem_cons_of_mem _ hword)) more
  obtain ⟨hparallel, hrepeat⟩ := opens_nothing_else hword more
  rw [← htext] at htry hstray hparallel hrepeat
  have hheader : (endsWith line.text [':'] && !line.text.contains '"') = false := by
    rcases hsettled with hquote | hends
    · rw [List.contains_iff_mem.2 hquote, Bool.not_true, Bool.and_false]
    · rw [hends, Bool.false_and]
  rw [statement]
  simp only
  rw [if_neg htry, hstray, hparallel, hrepeat, hheader, tells, Bool.false_and, if_neg Bool.false_ne_true,
    if_neg Bool.false_ne_true]
  rfl

/-- A catch clause is read where one is next, and only there. -/
theorem catchClause_eq_ok_iff {indent : Nat} {name : Option String} {handler : Option (List Stmt)} :
    catchClause r indent lines = .ok ((name, handler), left) ↔
      (∃ l rest stmts, nextCode lines = some (l, rest) ∧ l.indent = indent ∧ startsWith l.text "catch".toList = true ∧
        Phrase.catchName? l.text = some name ∧ body r l rest = .ok (stmts, left) ∧ handler = some stmts) ∨
      ((∀ l rest, nextCode lines = some (l, rest) → ¬(l.indent = indent ∧ startsWith l.text "catch".toList = true)) ∧
        name = none ∧ handler = none ∧ left = lines) := by
  constructor
  · intro h
    unfold catchClause at h
    split at h
    · rename_i l rest hnext
      split at h
      · rename_i hopens
        rw [Bool.and_eq_true, decide_eq_true_eq] at hopens
        split at h
        · cases h
        · rename_i htells
          obtain ⟨⟨stmts, left'⟩, hread, hdone⟩ := bind_eq_ok.1 h
          cases hdone
          exact .inl ⟨l, rest, stmts, hnext, hopens.1, hopens.2, htells, hread, rfl⟩
      · rename_i hopens
        cases h
        refine .inr ⟨fun l' rest' hnext' hstands => hopens ?_, rfl, rfl, rfl⟩
        rw [hnext] at hnext'
        cases hnext'
        rw [decide_eq_true hstands.1, hstands.2]
        rfl
    · rename_i hnext
      cases h
      refine .inr ⟨fun l' rest' hnext' => ?_, rfl, rfl, rfl⟩
      rw [hnext] at hnext'
      cases hnext'
  · rintro (⟨l, rest, stmts, hnext, hindent, hopens, htells, hread, rfl⟩ | ⟨hnone, rfl, rfl, rfl⟩)
    · simp only [catchClause, hnext, decide_eq_true hindent, hopens, htells, hread, Bool.and_self, if_true]
      rfl
    · unfold catchClause
      split
      · rename_i l rest hnext
        rw [if_neg]
        rw [Bool.and_eq_true, decide_eq_true_eq]
        exact hnone l rest hnext
      · rfl

theorem finallyClause_eq_ok_iff {indent : Nat} {final : Option (List Stmt)} :
    finallyClause r indent lines = .ok (final, left) ↔
      (∃ l rest stmts, nextCode lines = some (l, rest) ∧ l.indent = indent ∧ l.text = "finally:".toList ∧
        body r l rest = .ok (stmts, left) ∧ final = some stmts) ∨
      ((∀ l rest, nextCode lines = some (l, rest) → ¬(l.indent = indent ∧ l.text = "finally:".toList)) ∧
        final = none ∧ left = lines) := by
  constructor
  · intro h
    unfold finallyClause at h
    split at h
    · rename_i l rest hnext
      split at h
      · rename_i hopens
        rw [Bool.and_eq_true, decide_eq_true_eq, decide_eq_true_eq] at hopens
        obtain ⟨⟨stmts, left'⟩, hread, hdone⟩ := bind_eq_ok.1 h
        cases hdone
        exact .inl ⟨l, rest, stmts, hnext, hopens.1, hopens.2, hread, rfl⟩
      · rename_i hopens
        cases h
        refine .inr ⟨fun l' rest' hnext' hstands => hopens ?_, rfl, rfl⟩
        rw [hnext] at hnext'
        cases hnext'
        rw [decide_eq_true hstands.1, decide_eq_true hstands.2]
        rfl
    · rename_i hnext
      cases h
      refine .inr ⟨fun l' rest' hnext' => ?_, rfl, rfl⟩
      rw [hnext] at hnext'
      cases hnext'
  · rintro (⟨l, rest, stmts, hnext, hindent, htext, hread, rfl⟩ | ⟨hnone, rfl, rfl⟩)
    · simp only [finallyClause, hnext, decide_eq_true hindent, decide_eq_true htext, hread, Bool.and_self, if_true]
      rfl
    · unfold finallyClause
      split
      · rename_i l rest hnext
        rw [if_neg]
        rw [Bool.and_eq_true, decide_eq_true_eq, decide_eq_true_eq]
        exact hnone l rest hnext
      · rfl

theorem attempt_eq_ok_iff {s : Stmt} :
    attempt r line rest = .ok (s, left) ↔
      ∃ tried afterBody name handler afterHandler final, body r line rest = .ok (tried, afterBody) ∧
        catchClause r line.indent afterBody = .ok ((name, handler), afterHandler) ∧
        finallyClause r line.indent afterHandler = .ok (final, left) ∧ ¬(handler = none ∧ final = none) ∧
        s = .attempt tried name handler final := by
  unfold attempt
  constructor
  · intro h
    obtain ⟨⟨tried, afterBody⟩, hread, h⟩ := bind_eq_ok.1 h
    obtain ⟨⟨⟨name, handler⟩, afterHandler⟩, hcatch, h⟩ := bind_eq_ok.1 h
    obtain ⟨⟨final, left'⟩, hfinal, h⟩ := bind_eq_ok.1 h
    simp only at h
    split at h
    · cases h
    · rename_i hsome
      cases h
      refine ⟨tried, afterBody, name, handler, afterHandler, final, hread, hcatch, hfinal, fun hnone => hsome ?_, rfl⟩
      rw [hnone.1, hnone.2]
      rfl
  · rintro ⟨tried, afterBody, name, handler, afterHandler, final, hread, hcatch, hfinal, hsome, rfl⟩
    refine bind_eq_ok.2 ⟨_, hread, bind_eq_ok.2 ⟨_, hcatch, bind_eq_ok.2 ⟨_, hfinal, ?_⟩⟩⟩
    simp only
    rw [if_neg]
    · rfl
    · rw [Bool.and_eq_true, Option.isNone_iff_eq_none, Option.isNone_iff_eq_none]
      exact hsome

/-- A statement is a `try`, a parallel block, a loop or a statement on one line, and its first line says which. -/
theorem statement_eq_ok_iff {s : Stmt} :
    statement r line rest = .ok (s, left) ↔
      (line.text = "try:".toList ∧ attempt r line rest = .ok (s, left)) ∨
      (∃ policy bs, (startsWith line.text "parallel".toList = true ∧ endsWith line.text [':'] = true) ∧
        Phrase.policy? line.text = some policy ∧ checkBody line .noBranch rest = .ok () ∧
        r.branches (line.indent + indentStep) rest = .ok (bs, left) ∧ s = .parallel policy bs) ∨
      (∃ text count looped, stripPrefix "repeat ".toList line.text = some text ∧ Phrase.repeatCount? text = some count ∧
        body r line rest = .ok (looped, left) ∧ s = .loop count looped) ∨
      (Phrase.simple line.text = .ok s ∧ left = rest) := by
  constructor
  · intro h
    by_cases htry : line.text = "try:".toList
    · rw [statement, if_pos htry] at h
      exact .inl ⟨htry, h⟩
    · cases stated h with
      | attempt tells => exact absurd tells htry
      | parallel opens tells follows read => exact .inr (.inl ⟨_, _, opens, tells, checkBody_eq_ok_iff.2 follows, read, rfl⟩)
      | loop opens tells read => exact .inr (.inr (.inl ⟨_, _, _, opens, tells, read, rfl⟩))
      | simple tells => exact .inr (.inr (.inr ⟨tells, rfl⟩))
  · rintro (⟨htry, hread⟩ | ⟨policy, bs, hopens, htells, hcheck, hread, rfl⟩ | ⟨text, count, looped, hopens, htells, hread, rfl⟩ |
      ⟨htells, rfl⟩)
    · rw [statement, if_pos htry, hread]
    · obtain ⟨more, hmore⟩ := Option.isSome_iff_exists.1 hopens.1
      obtain ⟨htry, hstray⟩ := opens_no_try List.mem_cons_self more
      rw [← stripPrefix_eq_some_iff.1 hmore] at htry hstray
      simp only [statement, if_neg htry, hstray, hopens.1, hopens.2, htells, Bool.and_self, if_neg Bool.false_ne_true, if_true]
      exact bind_eq_ok.2 ⟨_, hcheck, bind_eq_ok.2 ⟨_, hread, rfl⟩⟩
    · obtain ⟨htry, hstray⟩ := opens_no_try (List.mem_cons_of_mem _ List.mem_cons_self) text
      rw [← stripPrefix_eq_some_iff.1 hopens] at htry hstray
      have hparallel : startsWith line.text "parallel".toList = false := by
        rw [stripPrefix_eq_some_iff.1 hopens]
        rfl
      simp only [statement, if_neg htry, hstray, hparallel, hopens, htells, Bool.false_and, if_neg Bool.false_ne_true]
      exact bind_eq_ok.2 ⟨_, hread, rfl⟩
    · exact statement_of_simple htells

/-! ## Branches -/

theorem branch_eq_ok_iff {b : Branch} :
    branch r line rest = .ok (b, left) ↔
      (∃ name value, Phrase.namedBranch? line.text = some (name, value) ∧ Phrase.namedBranch name value = .ok b ∧
        left = rest) ∨
      (Phrase.namedBranch? line.text = none ∧ ∃ s, statement r line rest = .ok (s, left) ∧ b = .mk none s) := by
  unfold branch
  cases hsplit : Phrase.namedBranch? line.text with
  | none =>
    simp only
    rw [bind_eq_ok]
    constructor
    · rintro ⟨⟨s, left'⟩, hread, hdone⟩
      cases hdone
      exact .inr ⟨trivial, s, hread, rfl⟩
    · rintro (⟨name, value, hsplit', -⟩ | ⟨-, s, hread, rfl⟩)
      · cases hsplit'
      · exact ⟨_, hread, rfl⟩
  | some found =>
    simp only
    rw [bind_eq_ok]
    constructor
    · rintro ⟨b', hread, hdone⟩
      cases hdone
      exact .inl ⟨_, _, rfl, at_eq_ok_iff.1 hread, rfl⟩
    · rintro (⟨name, value, hsplit', hread, rfl⟩ | ⟨hsplit', -⟩)
      · cases hsplit'
        exact ⟨b, at_eq_ok_iff.2 hread, rfl⟩
      · cases hsplit'

/-! ## Blocks -/

/-- A block ends before a line that stands to its left, keeps a comment at its indentation, passes over a deeper one, and else reads a
    statement at its indentation. -/
theorem block_cons_eq_ok_iff {depth indent : Nat} {stmts : List Stmt} :
    block (depth + 1) indent (line :: rest) = .ok (stmts, left) ↔
      (line.indent < indent ∧ stmts = [] ∧ left = line :: rest) ∨
      (indent ≤ line.indent ∧ line.isComment = true ∧ ∃ more, block depth indent rest = .ok (more, left) ∧
        stmts = if line.indent = indent then .comment (commentText line.text) :: more else more) ∨
      (line.indent = indent ∧ line.isComment = false ∧ opensAgent line = false ∧ ∃ s after more,
        statement ⟨block depth, branches depth⟩ line rest = .ok (s, after) ∧ block depth indent after = .ok (more, left) ∧
        stmts = s :: more) := by
  rw [block]
  rcases Nat.lt_or_ge line.indent indent with hless | hle
  · rw [if_pos hless]
    constructor
    · intro h
      cases h
      exact .inl ⟨hless, rfl, rfl⟩
    · rintro (⟨-, rfl, rfl⟩ | ⟨hle, -⟩ | ⟨heq, -⟩)
      · rfl
      · omega
      · omega
  rw [if_neg (Nat.not_lt.2 hle)]
  cases hcomment : line.isComment with
  | true =>
    rw [if_pos rfl, bind_eq_ok]
    constructor
    · rintro ⟨⟨more, left'⟩, hread, hdone⟩
      cases hdone
      exact .inr (.inl ⟨hle, rfl, more, hread, rfl⟩)
    · rintro (⟨hless, -⟩ | ⟨-, -, more, hread, rfl⟩ | ⟨-, hcode, -⟩)
      · omega
      · exact ⟨_, hread, rfl⟩
      · cases hcode
  | false =>
    rw [if_neg Bool.false_ne_true]
    constructor
    · intro h
      split at h
      · cases h
      · rename_i hmore
        split at h
        · cases h
        · rename_i hagent
          obtain ⟨⟨s, after⟩, hstmt, h⟩ := bind_eq_ok.1 h
          obtain ⟨⟨more, left'⟩, hread, hdone⟩ := bind_eq_ok.1 h
          cases hdone
          exact .inr (.inr ⟨by omega, rfl, Bool.eq_false_iff.2 hagent, s, after, more, hstmt, hread, rfl⟩)
    · rintro (⟨hless, -⟩ | ⟨-, hcode, -⟩ | ⟨heq, -, hagent, s, after, more, hstmt, hread, rfl⟩)
      · omega
      · cases hcode
      · rw [if_neg (by omega), hagent, if_neg Bool.false_ne_true]
        exact bind_eq_ok.2 ⟨_, hstmt, bind_eq_ok.2 ⟨_, hread, rfl⟩⟩

/-- Branches end likewise, and comments among them are passed over. -/
theorem branches_cons_eq_ok_iff {depth indent : Nat} {bs : List Branch} :
    branches (depth + 1) indent (line :: rest) = .ok (bs, left) ↔
      (line.indent < indent ∧ bs = [] ∧ left = line :: rest) ∨
      (indent ≤ line.indent ∧ line.isComment = true ∧ branches depth indent rest = .ok (bs, left)) ∨
      (line.indent = indent ∧ line.isComment = false ∧ ∃ b after more,
        branch ⟨block depth, branches depth⟩ line rest = .ok (b, after) ∧ branches depth indent after = .ok (more, left) ∧
        bs = b :: more) := by
  rw [branches]
  rcases Nat.lt_or_ge line.indent indent with hless | hle
  · rw [if_pos hless]
    constructor
    · intro h
      cases h
      exact .inl ⟨hless, rfl, rfl⟩
    · rintro (⟨-, rfl, rfl⟩ | ⟨hle, -⟩ | ⟨heq, -⟩)
      · rfl
      · omega
      · omega
  rw [if_neg (Nat.not_lt.2 hle)]
  cases hcomment : line.isComment with
  | true =>
    rw [if_pos rfl]
    constructor
    · intro hread
      exact .inr (.inl ⟨hle, rfl, hread⟩)
    · rintro (⟨hless, -⟩ | ⟨-, -, hread⟩ | ⟨-, hcode, -⟩)
      · omega
      · exact hread
      · cases hcode
  | false =>
    rw [if_neg Bool.false_ne_true]
    constructor
    · intro h
      split at h
      · cases h
      · rename_i hmore
        obtain ⟨⟨b, after⟩, hbranch, h⟩ := bind_eq_ok.1 h
        obtain ⟨⟨more, left'⟩, hread, hdone⟩ := bind_eq_ok.1 h
        cases hdone
        exact .inr (.inr ⟨by omega, rfl, b, after, more, hbranch, hread, rfl⟩)
    · rintro (⟨hless, -⟩ | ⟨-, hcode, -⟩ | ⟨heq, -, b, after, more, hbranch, hread, rfl⟩)
      · omega
      · cases hcode
      · rw [if_neg (by omega)]
        exact bind_eq_ok.2 ⟨_, hbranch, bind_eq_ok.2 ⟨_, hread, rfl⟩⟩

/-! ## Programs -/

/-- Properties end before a comment to their left and before a code line that is no deeper than the header. -/
theorem properties_cons_eq_ok_iff {header : Nat} {a a' : Agent} :
    properties header a (line :: rest) = .ok (a', left) ↔
      (line.isComment = true ∧ line.indent < header + indentStep ∧ a' = a ∧ left = line :: rest) ∨
      (line.isComment = true ∧ header + indentStep ≤ line.indent ∧ properties header a rest = .ok (a', left)) ∨
      (line.isComment = false ∧ line.indent ≤ header ∧ a' = a ∧ left = line :: rest) ∨
      (line.isComment = false ∧ line.indent = header + indentStep ∧
        ∃ b, setProperty a line = .ok b ∧ properties header b rest = .ok (a', left)) := by
  rw [properties]
  cases hcomment : line.isComment with
  | true =>
    rw [if_pos rfl]
    rcases Nat.lt_or_ge line.indent (header + indentStep) with hless | hle
    · rw [if_pos hless]
      constructor
      · intro h
        cases h
        exact .inl ⟨rfl, hless, rfl, rfl⟩
      · rintro (⟨-, -, rfl, rfl⟩ | ⟨-, hle, -⟩ | ⟨hcode, -⟩ | ⟨hcode, -⟩)
        · rfl
        · omega
        · cases hcode
        · cases hcode
    · rw [if_neg (Nat.not_lt.2 hle)]
      constructor
      · intro hread
        exact .inr (.inl ⟨rfl, hle, hread⟩)
      · rintro (⟨-, hless, -⟩ | ⟨-, -, hread⟩ | ⟨hcode, -⟩ | ⟨hcode, -⟩)
        · omega
        · exact hread
        · cases hcode
        · cases hcode
  | false =>
    rw [if_neg Bool.false_ne_true]
    rcases Nat.lt_or_ge header line.indent with hdeeper | hle
    · rw [if_neg (Nat.not_le.2 hdeeper)]
      constructor
      · intro h
        split at h
        · cases h
        · rename_i hstands
          split at h
          · rename_i b hset
            exact .inr (.inr (.inr ⟨rfl, by omega, b, at_eq_ok_iff.1 hset, h⟩))
          · cases h
      · rintro (⟨hcode, -⟩ | ⟨hcode, -⟩ | ⟨-, hle, -⟩ | ⟨-, heq, b, hset, hread⟩)
        · cases hcode
        · cases hcode
        · omega
        · rw [if_neg (by omega), at_eq_ok_iff.2 hset]
          exact hread
    · rw [if_pos hle]
      constructor
      · intro h
        cases h
        exact .inr (.inr (.inl ⟨rfl, hle, rfl, rfl⟩))
      · rintro (⟨hcode, -⟩ | ⟨hcode, -⟩ | ⟨-, -, rfl, rfl⟩ | ⟨-, heq, -⟩)
        · cases hcode
        · cases hcode
        · rfl
        · rw [indentStep] at heq
          omega

theorem agent_eq_ok_iff {agents agents' : Agents} :
    agent agents line rest = .ok (agents', left) ↔
      ∃ name a, Phrase.agentName? line.text = some name ∧ (agents.get? name).isSome = false ∧
        properties line.indent (.named name) rest = .ok (a, left) ∧ agents' = agents.insert a.name a := by
  unfold agent
  constructor
  · intro h
    split at h
    · cases h
    · rename_i name hname
      split at h
      · cases h
      · rename_i hnew
        obtain ⟨⟨a, left'⟩, hread, hdone⟩ := bind_eq_ok.1 h
        cases hdone
        exact ⟨name, a, hname, Bool.eq_false_iff.2 hnew, hread, rfl⟩
  · rintro ⟨name, a, hname, hnew, hread, rfl⟩
    simp only [hname, hnew, if_neg Bool.false_ne_true]
    exact bind_eq_ok.2 ⟨_, hread, rfl⟩

/-- At the top level there are comments, agents and statements, and the code lines that open them do not stand deeper. -/
theorem top_cons_eq_ok_iff {depth : Nat} {agents agents' : Agents} {stmts : List Stmt} :
    top (depth + 1) agents (line :: rest) = .ok (agents', stmts) ↔
      (line.isComment = true ∧ ∃ more, top depth agents rest = .ok (agents', more) ∧
        stmts = if line.indent = 0 then .comment (commentText line.text) :: more else more) ∨
      (line.isComment = false ∧ line.indent = 0 ∧ opensAgent line = true ∧ ∃ agents'' after,
        agent agents line rest = .ok (agents'', after) ∧ top depth agents'' after = .ok (agents', stmts)) ∨
      (line.isComment = false ∧ line.indent = 0 ∧ opensAgent line = false ∧ ∃ s after more,
        statement ⟨block depth, branches depth⟩ line rest = .ok (s, after) ∧ top depth agents after = .ok (agents', more) ∧
        stmts = s :: more) := by
  rw [top]
  cases hcomment : line.isComment with
  | true =>
    rw [if_pos rfl, bind_eq_ok]
    constructor
    · rintro ⟨⟨agents'', more⟩, hread, hdone⟩
      cases hdone
      exact .inl ⟨rfl, more, hread, rfl⟩
    · rintro (⟨-, more, hread, rfl⟩ | ⟨hcode, -⟩ | ⟨hcode, -⟩)
      · exact ⟨_, hread, rfl⟩
      · cases hcode
      · cases hcode
  | false =>
    rw [if_neg Bool.false_ne_true]
    constructor
    · intro h
      split at h
      · cases h
      · rename_i hstands
        split at h
        · rename_i hagent
          obtain ⟨⟨agents'', after⟩, hdefined, hread⟩ := bind_eq_ok.1 h
          exact .inr (.inl ⟨rfl, by omega, hagent, agents'', after, hdefined, hread⟩)
        · rename_i hagent
          obtain ⟨⟨s, after⟩, hstmt, h⟩ := bind_eq_ok.1 h
          obtain ⟨⟨agents'', more⟩, hread, hdone⟩ := bind_eq_ok.1 h
          cases hdone
          exact .inr (.inr ⟨rfl, by omega, Bool.eq_false_iff.2 hagent, s, after, more, hstmt, hread, rfl⟩)
    · rintro (⟨hcode, -⟩ | ⟨-, heq, hagent, agents'', after, hdefined, hread⟩ |
        ⟨-, heq, hagent, s, after, more, hstmt, hread, rfl⟩)
      · cases hcode
      · rw [if_neg (by omega), if_pos hagent]
        exact bind_eq_ok.2 ⟨_, hdefined, hread⟩
      · rw [if_neg (by omega), hagent, if_neg Bool.false_ne_true]
        exact bind_eq_ok.2 ⟨_, hstmt, bind_eq_ok.2 ⟨_, hread, rfl⟩⟩

end Parser

/-- A program is what the lines of its source hold from the first code line on. -/
theorem parse_eq_ok_iff {source : String} {p : Program} :
    parse source = .ok p ↔ ∃ lines, Line.ofSource source = .ok lines ∧
      Parser.top (lines.length + 1) [] (lines.dropWhile (·.isComment)) = .ok (p.agents, p.statements) ∧
      p.header = (lines.takeWhile (·.isComment)).map fun l => String.ofList l.text := by
  have hparse : parse source = .ok p ↔ parse? source = .ok p := by
    unfold parse
    cases parse? source with
    | error e => exact ⟨nofun, nofun⟩
    | ok program => exact ⟨fun h => congrArg Except.ok (Except.ok.inj h), fun h => congrArg Except.ok (Except.ok.inj h)⟩
  rw [hparse, parse?, bind_eq_ok]
  constructor
  · rintro ⟨lines, hlines, h⟩
    obtain ⟨⟨agents, statements⟩, htop, hdone⟩ := bind_eq_ok.1 h
    cases hdone
    exact ⟨lines, hlines, htop, rfl⟩
  · rintro ⟨lines, hlines, htop, hheader⟩
    refine ⟨lines, hlines, bind_eq_ok.2 ⟨_, htop, ?_⟩⟩
    rw [← hheader]
    rfl

end Playbook.Program
