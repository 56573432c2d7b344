import Playbook.Program.Parser
import Playbook.Proofs.Program.Listing

/-!
# `Proofs.Program.Reading` — what a reader has found when it succeeds

Each reader of the program parser either fails or has found one of a few things. This module says what that is, one list of cases
for each reader, so that nothing else needs to look into their definitions.

## Contents
- **Results.** `bind_eq_ok`, `at_eq_ok_iff`, `map_eq_ok`, `map_bind`.
- **Code lines.** `codeLines`, `nextCode_eq_some`.
- **Phrases.** Statements and branches on one line have no body (`isSimple_of_simple`, `isSimple_of_namedBranch`).
- **Statements.** `Stated`, `Caught`, `Closed`: the cases for statements and for the clauses of a `try`.
- **Branches.** `Branched`.
- **Blocks.** `Blocked`, `Forked`: the cases for the next line of a block.
- **Programs.** `Topped`, and `agent_deeper` for agents.
-/

namespace Playbook.Program

open Text

/-! ## Results -/

section

variable {ε α β γ : Type}

/-- A chain of two steps succeeds if both do. -/
theorem bind_eq_ok {x : Except ε α} {f : α → Except ε β} {b : β} :
    x >>= f = .ok b ↔ ∃ a, x = .ok a ∧ f a = .ok b := by
  cases x with
  | error e =>
    constructor
    · intro h
      cases h
    · rintro ⟨a, h, _⟩
      cases h
  | ok a =>
    constructor
    · intro h
      exact ⟨a, rfl, h⟩
    · rintro ⟨a', h, hf⟩
      cases h
      exact hf

theorem map_eq_ok {x : Except ε α} {f : α → β} {b : β} :
    x.map f = .ok b ↔ ∃ a, x = .ok a ∧ f a = b := by
  cases x with
  | error e => simp [Except.map]
  | ok a => simp [Except.map]

theorem map_map (x : Except ε α) (f : α → β) (g : β → γ) : (x.map f).map g = x.map fun a => g (f a) := by
  cases x <;> rfl

theorem map_bind (x : Except ε α) (f : α → β) (g : β → Except ε γ) : x.map f >>= g = x >>= fun a => g (f a) := by
  cases x <;> rfl

end

namespace Parser

variable {r : Readers} {line l : Line} {lines rest left : List Line}

theorem at_eq_ok_iff {α : Type} {x : Except Fault α} {a : α} :
    at_ line x = .ok a ↔ x = .ok a := by
  cases x with
  | error e => simp [at_]
  | ok a => simp [at_]

/-! ## Code lines -/

/-- The lines that are no comments. -/
def codeLines (lines : List Line) : List Line :=
  lines.filter (!·.isComment)

theorem codeLines_append (lines more : List Line) :
    codeLines (lines ++ more) = codeLines lines ++ codeLines more :=
  List.filter_append _ _

theorem codeLines_cons_comment (h : l.isComment = true) : codeLines (l :: rest) = codeLines rest := by
  rw [codeLines, List.filter_cons_of_neg]
  · rfl
  · rw [h]
    exact Bool.false_ne_true

theorem codeLines_cons_code (h : l.isComment = false) :
    codeLines (l :: rest) = l :: codeLines rest := by
  rw [codeLines, List.filter_cons_of_pos]
  · rfl
  · rw [h]
    rfl

theorem nextCode_cons_comment (h : l.isComment = true) : nextCode (l :: rest) = nextCode rest := by
  rw [nextCode, if_pos h]

theorem nextCode_cons_code (h : l.isComment = false) : nextCode (l :: rest) = some (l, rest) := by
  rw [nextCode, h]
  rfl

/-- Before the next code line there are comments only. -/
theorem nextCode_eq_some (h : nextCode lines = some (l, rest)) :
    ∃ skipped, lines = skipped ++ l :: rest ∧ codeLines skipped = [] ∧ l.isComment = false := by
  induction lines with
  | nil => cases h
  | cons first others ih =>
    cases hcomment : first.isComment with
    | true =>
      rw [nextCode_cons_comment hcomment] at h
      obtain ⟨skipped, rfl, hskipped, hl⟩ := ih h
      refine ⟨first :: skipped, rfl, ?_, hl⟩
      rw [codeLines_cons_comment hcomment, hskipped]
    | false =>
      rw [nextCode_cons_code hcomment] at h
      cases h
      exact ⟨[], rfl, rfl, hcomment⟩

/-- The next code line is the first one. -/
theorem codeLines_of_nextCode (h : nextCode lines = some (l, rest)) : codeLines lines = l :: codeLines rest := by
  obtain ⟨skipped, rfl, hskipped, hcode⟩ := nextCode_eq_some h
  rw [codeLines_append, hskipped, List.nil_append, codeLines_cons_code hcode]

theorem codeLines_of_none (h : nextCode lines = none) : codeLines lines = [] := by
  induction lines with
  | nil => rfl
  | cons first others ih =>
    cases hcomment : first.isComment with
    | true =>
      rw [nextCode_cons_comment hcomment] at h
      rw [codeLines_cons_comment hcomment, ih h]
    | false =>
      rw [nextCode_cons_code hcomment] at h
      cases h

/-- A body can begin where the next code line stands one step deeper than the header. -/
theorem checkBody_eq_ok_iff {missing : Fault} :
    checkBody line missing lines = .ok () ↔
      ∃ next others, nextCode lines = some (next, others) ∧
        next.indent = line.indent + indentStep := by
  unfold checkBody
  cases hnext : nextCode lines with
  | none => simp [fail]
  | some found =>
    obtain ⟨next, others⟩ := found
    simp only [Option.some.injEq, Prod.mk.injEq]
    constructor
    · intro h
      split at h
      · split at h
        · rename_i heq
          exact ⟨next, others, ⟨rfl, rfl⟩, heq⟩
        · cases h
      · cases h
    · rintro ⟨next', others', ⟨rfl, rfl⟩, heq⟩
      have hdeeper : next.indent > line.indent := by
        rw [heq, indentStep]
        omega
      rw [if_pos hdeeper, if_pos heq]

theorem body_eq_ok_iff {stmts : List Stmt} :
    body r line lines = .ok (stmts, left) ↔
      (∃ next others, nextCode lines = some (next, others) ∧
        next.indent = line.indent + indentStep) ∧
      r.block (line.indent + indentStep) lines = .ok (stmts, left) := by
  unfold body
  rw [bind_eq_ok]
  constructor
  · rintro ⟨⟨⟩, hcheck, hread⟩
    exact ⟨checkBody_eq_ok_iff.1 hcheck, hread⟩
  · rintro ⟨hcheck, hread⟩
    exact ⟨(), checkBody_eq_ok_iff.2 hcheck, hread⟩

/-! ## Phrases -/

/-- A statement that is read from one line has no body. -/
theorem isSimple_of_simple {text : List Char} {s : Stmt} (h : Phrase.simple text = .ok s) :
    s.isSimple = true := by
  unfold Phrase.simple at h
  split at h
  · obtain ⟨a, _, rfl⟩ := map_eq_ok.1 h
    rfl
  · split at h
    · obtain ⟨a, _, rfl⟩ := map_eq_ok.1 h
      rfl
    · split at h
      · obtain ⟨a, _, rfl⟩ := map_eq_ok.1 h
        rfl
      · split at h
        · obtain ⟨a, _, rfl⟩ := map_eq_ok.1 h
          rfl
        · cases h

/-- A branch that binds a name has no body. -/
theorem isSimple_of_namedBranch {name : String} {text : List Char} {b : Branch}
    (h : Phrase.namedBranch name text = .ok b) : b.stmt.isSimple = true := by
  unfold Phrase.namedBranch at h
  split at h
  · obtain ⟨s, hs, rfl⟩ := map_eq_ok.1 h
    exact isSimple_of_simple hs
  · obtain ⟨value, _, rfl⟩ := map_eq_ok.1 h
    rfl

/-! ## Statements -/

/-- What a reader of catch clauses has found: no clause, or one with its handler. -/
inductive Caught (r : Readers) (indent : Nat) (lines : List Line) :
    Option String → Option (List Stmt) → Rest → Prop where
  | nothing : Caught r indent lines none none lines
  | clause {l : Line} {rest left : List Line} {name : Option String} {handler : List Stmt}
      (next : nextCode lines = some (l, rest)) (stands : l.indent = indent)
      (opens : startsWith l.text "catch".toList = true)
      (tells : Phrase.catchName? l.text = some name)
      (read : body r l rest = .ok (handler, left)) :
      Caught r indent lines name (some handler) left

theorem caught {indent : Nat} {name : Option String} {handler : Option (List Stmt)}
    (h : catchClause r indent lines = .ok ((name, handler), left)) :
    Caught r indent lines name handler left := by
  unfold catchClause at h
  split at h
  · rename_i l rest hnext
    split at h
    · rename_i hopens
      rw [Bool.and_eq_true, decide_eq_true_eq] at hopens
      split at h
      · cases h
      · rename_i tells
        obtain ⟨⟨stmts, left'⟩, hread, hdone⟩ := bind_eq_ok.1 h
        cases hdone
        exact .clause hnext hopens.1 hopens.2 tells hread
    · cases h
      exact .nothing
  · cases h
    exact .nothing

/-- What a reader of finally clauses has found: no clause, or one with its body. -/
inductive Closed (r : Readers) (indent : Nat) (lines : List Line) :
    Option (List Stmt) → Rest → Prop where
  | nothing : Closed r indent lines none lines
  | clause {l : Line} {rest left : List Line} {final : List Stmt}
      (next : nextCode lines = some (l, rest)) (stands : l.indent = indent)
      (tells : l.text = "finally:".toList) (read : body r l rest = .ok (final, left)) :
      Closed r indent lines (some final) left

theorem closed {indent : Nat} {final : Option (List Stmt)}
    (h : finallyClause r indent lines = .ok (final, left)) : Closed r indent lines final left := by
  unfold finallyClause at h
  split at h
  · rename_i l rest hnext
    split at h
    · rename_i hopens
      rw [Bool.and_eq_true, decide_eq_true_eq, decide_eq_true_eq] at hopens
      obtain ⟨⟨stmts, left'⟩, hread, hdone⟩ := bind_eq_ok.1 h
      cases hdone
      exact .clause hnext hopens.1 hopens.2 hread
    · cases h
      exact .nothing
  · cases h
    exact .nothing

/-- What a reader of statements has found that starts on a line. -/
inductive Stated (r : Readers) (line : Line) (rest : List Line) : Stmt → Rest → Prop where
  | attempt {tried : List Stmt} {name : Option String} {handler final : Option (List Stmt)}
      {afterBody afterHandler left : List Line} (tells : line.text = "try:".toList)
      (read : body r line rest = .ok (tried, afterBody))
      (catches : Caught r line.indent afterBody name handler afterHandler)
      (closes : Closed r line.indent afterHandler final left)
      (clause : ¬(handler = none ∧ final = none)) :
      Stated r line rest (.attempt tried name handler final) left
  | parallel {policy : FailurePolicy} {branches : List Branch} {left : List Line}
      (opens : startsWith line.text "parallel".toList = true ∧ endsWith line.text [':'] = true)
      (tells : Phrase.policy? line.text = some policy)
      (follows : ∃ next others, nextCode rest = some (next, others) ∧
        next.indent = line.indent + indentStep)
      (read : r.branches (line.indent + indentStep) rest = .ok (branches, left)) :
      Stated r line rest (.parallel policy branches) left
  | loop {text : List Char} {count : UInt32} {looped : List Stmt} {left : List Line}
      (opens : stripPrefix "repeat ".toList line.text = some text)
      (tells : Phrase.repeatCount? text = some count)
      (read : body r line rest = .ok (looped, left)) :
      Stated r line rest (.loop count looped) left
  | simple {s : Stmt} (tells : Phrase.simple line.text = .ok s) : Stated r line rest s rest

theorem stated_of_attempt {s : Stmt} (tells : line.text = "try:".toList)
    (h : attempt r line rest = .ok (s, left)) : Stated r line rest s left := by
  unfold attempt at h
  obtain ⟨⟨tried, afterBody⟩, hread, h⟩ := bind_eq_ok.1 h
  obtain ⟨⟨⟨name, handler⟩, afterHandler⟩, hcatch, h⟩ := bind_eq_ok.1 h
  obtain ⟨⟨final, left'⟩, hfinal, h⟩ := bind_eq_ok.1 h
  simp only at h
  split at h
  · cases h
  · rename_i hsome
    cases h
    refine .attempt tells hread (caught hcatch) (closed hfinal) fun hnone => hsome ?_
    rw [hnone.1, hnone.2]
    rfl

theorem stated {s : Stmt} (h : statement r line rest = .ok (s, left)) :
    Stated r line rest s left := by
  unfold statement at h
  simp only at h
  split at h
  · rename_i tells
    exact stated_of_attempt tells h
  · split at h
    · cases h
    · split at h
      · rename_i opens
        rw [Bool.and_eq_true] at opens
        split at h
        · cases h
        · rename_i tells
          obtain ⟨⟨⟩, hcheck, h⟩ := bind_eq_ok.1 h
          obtain ⟨⟨branches, left'⟩, hread, h⟩ := bind_eq_ok.1 h
          cases h
          exact .parallel opens tells (checkBody_eq_ok_iff.1 hcheck) hread
      · split at h
        · rename_i opens
          split at h
          · cases h
          · rename_i tells
            obtain ⟨⟨looped, left'⟩, hread, h⟩ := bind_eq_ok.1 h
            cases h
            exact .loop opens tells hread
        · split at h
          · cases h
          · obtain ⟨s', hsimple, h⟩ := bind_eq_ok.1 h
            cases h
            exact .simple (at_eq_ok_iff.1 hsimple)

/-! ## Branches -/

/-- What a reader of branches has found that start on a line: one that binds a name, or a statement. -/
inductive Branched (r : Readers) (line : Line) (rest : List Line) : Branch → Rest → Prop where
  | named {name : String} {value : List Char} {b : Branch}
      (splits : Phrase.namedBranch? line.text = some (name, value))
      (tells : Phrase.namedBranch name value = .ok b) : Branched r line rest b rest
  | bare {s : Stmt} {left : List Line} (splits : Phrase.namedBranch? line.text = none)
      (read : Stated r line rest s left) : Branched r line rest (.mk none s) left

theorem branched {b : Branch} (h : branch r line rest = .ok (b, left)) :
    Branched r line rest b left := by
  unfold branch at h
  split at h
  · rename_i splits
    obtain ⟨b', hsays, h⟩ := bind_eq_ok.1 h
    cases h
    exact .named splits (at_eq_ok_iff.1 hsays)
  · rename_i splits
    obtain ⟨⟨s, left'⟩, hread, h⟩ := bind_eq_ok.1 h
    cases h
    exact .bare splits (stated hread)

/-! ## Blocks -/

/-- With no lines left a block has ended. -/
theorem block_nil (depth indent : Nat) : block depth indent [] = .ok ([], []) := by
  cases depth with
  | zero => rw [block]
  | succ depth => simp [block]

theorem branches_nil (depth indent : Nat) : branches depth indent [] = .ok ([], []) := by
  cases depth with
  | zero => rw [branches]
  | succ depth => simp [branches]

/-- What a reader of blocks has found: nothing more to read, a comment, or a statement and the lines after it. -/
inductive Blocked (depth indent : Nat) : List Line → List Stmt → Rest → Prop where
  | done {lines : List Line} : Blocked depth indent lines [] lines
  | comment {l : Line} {rest left : List Line} {stmts : List Stmt} (comment : l.isComment = true)
      (read : block depth indent rest = .ok (stmts, left)) :
      Blocked depth indent (l :: rest) (.comment (commentText l.text) :: stmts) left
  | skipped {l : Line} {rest left : List Line} {stmts : List Stmt} (comment : l.isComment = true)
      (read : block depth indent rest = .ok (stmts, left)) :
      Blocked depth indent (l :: rest) stmts left
  | stmt {l : Line} {rest after left : List Line} {s : Stmt} {stmts : List Stmt}
      (code : l.isComment = false) (stands : l.indent = indent)
      (tells : Stated ⟨block depth, branches depth⟩ l rest s after)
      (read : block depth indent after = .ok (stmts, left)) :
      Blocked depth indent (l :: rest) (s :: stmts) left

theorem blocked {depth indent : Nat} {stmts : List Stmt}
    (h : block (depth + 1) indent lines = .ok (stmts, left)) :
    Blocked depth indent lines stmts left := by
  cases lines with
  | nil =>
    rw [block_nil] at h
    cases h
    exact .done
  | cons l rest =>
    rw [block] at h
    split at h
    · cases h
      exact .done
    · rename_i hless
      split at h
      · rename_i hcomment
        obtain ⟨⟨stmts', left'⟩, hread, h⟩ := bind_eq_ok.1 h
        simp only at h
        split at h
        · cases h
          exact .comment hcomment hread
        · cases h
          exact .skipped hcomment hread
      · rename_i hcode
        split at h
        · cases h
        · rename_i hmore
          split at h
          · cases h
          · obtain ⟨⟨s, after⟩, hstmt, h⟩ := bind_eq_ok.1 h
            obtain ⟨⟨stmts', left'⟩, hread, h⟩ := bind_eq_ok.1 h
            cases h
            exact .stmt (Bool.eq_false_iff.2 hcode) (by omega) (stated hstmt) hread

/-- What a reader of branches has found in a row: nothing more to read, a comment, or a branch and the lines after it. -/
inductive Forked (depth indent : Nat) : List Line → List Branch → Rest → Prop where
  | done {lines : List Line} : Forked depth indent lines [] lines
  | skipped {l : Line} {rest left : List Line} {bs : List Branch} (comment : l.isComment = true)
      (read : branches depth indent rest = .ok (bs, left)) : Forked depth indent (l :: rest) bs left
  | branch {l : Line} {rest after left : List Line} {b : Branch} {bs : List Branch}
      (code : l.isComment = false) (stands : l.indent = indent)
      (tells : Branched ⟨block depth, branches depth⟩ l rest b after)
      (read : branches depth indent after = .ok (bs, left)) :
      Forked depth indent (l :: rest) (b :: bs) left

theorem forked {depth indent : Nat} {bs : List Branch}
    (h : branches (depth + 1) indent lines = .ok (bs, left)) : Forked depth indent lines bs left := by
  cases lines with
  | nil =>
    rw [branches_nil] at h
    cases h
    exact .done
  | cons l rest =>
    rw [branches] at h
    split at h
    · cases h
      exact .done
    · rename_i hless
      split at h
      · rename_i hcomment
        exact .skipped hcomment h
      · rename_i hcode
        split at h
        · cases h
        · rename_i hmore
          obtain ⟨⟨b, after⟩, hbranch, h⟩ := bind_eq_ok.1 h
          obtain ⟨⟨bs', left'⟩, hread, h⟩ := bind_eq_ok.1 h
          cases h
          exact .branch (Bool.eq_false_iff.2 hcode) (by omega) (branched hbranch) hread

/-! ## Programs -/

theorem top_nil (depth : Nat) (agents : Agents) : top depth agents [] = .ok (agents, []) := by
  cases depth with
  | zero => rw [top]
  | succ depth => simp [top]

/-- What a reader of programs has found at the top level: nothing, a comment, an agent or a statement, and what follows. -/
inductive Topped (depth : Nat) (agents : Agents) : List Line → List Stmt → Prop where
  | done : Topped depth agents [] []
  | comment {l : Line} {rest : List Line} {agents' : Agents} {stmts : List Stmt}
      (comment : l.isComment = true) (read : top depth agents rest = .ok (agents', stmts)) :
      Topped depth agents (l :: rest) (.comment (commentText l.text) :: stmts)
  | skipped {l : Line} {rest : List Line} {agents' : Agents} {stmts : List Stmt}
      (comment : l.isComment = true) (read : top depth agents rest = .ok (agents', stmts)) :
      Topped depth agents (l :: rest) stmts
  | agent {l : Line} {rest after : List Line} {agents' agents'' : Agents} {stmts : List Stmt}
      (code : l.isComment = false) (stands : l.indent = 0) (opens : opensAgent l = true)
      (tells : agent agents l rest = .ok (agents', after))
      (read : top depth agents' after = .ok (agents'', stmts)) :
      Topped depth agents (l :: rest) stmts
  | stmt {l : Line} {rest after : List Line} {s : Stmt} {agents' : Agents} {stmts : List Stmt}
      (code : l.isComment = false) (stands : l.indent = 0)
      (tells : Stated ⟨block depth, branches depth⟩ l rest s after)
      (read : top depth agents after = .ok (agents', stmts)) :
      Topped depth agents (l :: rest) (s :: stmts)

theorem topped {depth : Nat} {agents agents' : Agents} {stmts : List Stmt}
    (h : top (depth + 1) agents lines = .ok (agents', stmts)) : Topped depth agents lines stmts := by
  cases lines with
  | nil =>
    rw [top_nil] at h
    cases h
    exact .done
  | cons l rest =>
    rw [top] at h
    split at h
    · rename_i hcomment
      obtain ⟨⟨agents'', stmts'⟩, hread, h⟩ := bind_eq_ok.1 h
      simp only at h
      split at h
      · cases h
        exact .comment hcomment hread
      · cases h
        exact .skipped hcomment hread
    · rename_i hcode
      have hcode := Bool.eq_false_iff.2 hcode
      split at h
      · cases h
      · rename_i hstands
        have hstands : l.indent = 0 := by omega
        split at h
        · rename_i hopens
          obtain ⟨⟨agents'', after⟩, hagent, h⟩ := bind_eq_ok.1 h
          exact .agent hcode hstands hopens hagent h
        · obtain ⟨⟨s, after⟩, hstmt, h⟩ := bind_eq_ok.1 h
          obtain ⟨⟨agents'', stmts'⟩, hread, h⟩ := bind_eq_ok.1 h
          cases h
          exact .stmt hcode hstands (stated hstmt) hread

/-- The properties of an agent are deeper lines. -/
theorem properties_deeper {header : Nat} {a a' : Agent}
    (h : properties header a lines = .ok (a', left)) :
    ∃ used, lines = used ++ left ∧ ∀ l ∈ codeLines used, header < l.indent := by
  induction lines generalizing a with
  | nil =>
    rw [properties] at h
    cases h
    exact ⟨[], rfl, nofun⟩
  | cons l rest ih =>
    rw [properties] at h
    split at h
    · rename_i hcomment
      split at h
      · cases h
        exact ⟨[], rfl, nofun⟩
      · obtain ⟨used, rfl, hused⟩ := ih h
        refine ⟨l :: used, rfl, ?_⟩
        rw [codeLines_cons_comment hcomment]
        exact hused
    · rename_i hcode
      split at h
      · cases h
        exact ⟨[], rfl, nofun⟩
      · rename_i hdeeper
        split at h
        · cases h
        · split at h
          · obtain ⟨used, rfl, hused⟩ := ih h
            refine ⟨l :: used, rfl, ?_⟩
            rw [codeLines_cons_code (Bool.eq_false_iff.2 hcode), List.forall_mem_cons]
            exact ⟨Nat.not_le.1 hdeeper, hused⟩
          · cases h

/-- The lines of an agent's definition behind its header are deeper than the header. -/
theorem agent_deeper {agents agents' : Agents} (h : agent agents line lines = .ok (agents', left)) :
    ∃ used, lines = used ++ left ∧ ∀ l ∈ codeLines used, line.indent < l.indent := by
  unfold agent at h
  split at h
  · cases h
  · split at h
    · cases h
    · obtain ⟨⟨a, left'⟩, hread, h⟩ := bind_eq_ok.1 h
      cases h
      exact properties_deeper hread

end Parser

end Playbook.Program
