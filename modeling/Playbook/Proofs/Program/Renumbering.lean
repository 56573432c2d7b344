import Playbook.Proofs.Program.Reading

/-!
# `Proofs.Program.Renumbering` — lines with other numbers

What a reader does depends on the numbers of its lines only where it names one of them. So lines with other numbers give the same
program, or the same error with the other number. The same goes for an agent's property that is written in another way.

## Contents
- **Other numbers.** `Line.moved`, `Error.moved`, and `Agrees` for results.
- **Lines.** `Matched` goes through two lists of lines at once.
- **Readers.** One lemma for each reader, up to `uniform_block` for nested blocks and `program_agrees` for programs.
-/

namespace Playbook.Program

open Text

/-! ## Other numbers -/

/-- A line with the number that takes the place of its own. -/
def Line.moved (place : Nat → Nat) (line : Line) : Line :=
  { line with number := place line.number }

/-- An error with the number that takes the place of its own. -/
def Error.moved (place : Nat → Nat) (e : Error) : Error :=
  { e with line := place e.line }

/-- Two results are related, or are the same error but for the number. -/
inductive Agrees {α β : Type} (place : Nat → Nat) (related : α → β → Prop) :
    Except Error α → Except Error β → Prop where
  | ok {a : α} {b : β} (holds : related a b) : Agrees place related (.ok a) (.ok b)
  | error {e : Error} : Agrees place related (.error e) (.error (e.moved place))

namespace Agrees

variable {α β γ δ : Type} {place : Nat → Nat} {related : α → β → Prop} {related' : γ → δ → Prop}
  {x : Except Error α} {y : Except Error β}

theorem bind {f : α → Except Error γ} {g : β → Except Error δ} (h : Agrees place related x y)
    (hf : ∀ a b, related a b → Agrees place related' (f a) (g b)) : Agrees place related' (x >>= f) (y >>= g) := by
  cases h with
  | ok holds => exact hf _ _ holds
  | error => exact .error

theorem ite {c : Prop} [Decidable c] {x' : Except Error α} {y' : Except Error β} (h : c → Agrees place related x y)
    (h' : ¬c → Agrees place related x' y') : Agrees place related (if c then x else x') (if c then y else y') := by
  by_cases hc : c
  · rw [if_pos hc, if_pos hc]
    exact h hc
  · rw [if_neg hc, if_neg hc]
    exact h' hc

theorem eq {y : Except Error α} (h : Agrees place Eq x y) : y = x.mapError (·.moved place) := by
  cases h with
  | ok holds => rw [holds]; rfl
  | error => rfl

end Agrees

namespace Parser

/-! ## Lines -/

/-- Whether what follows a line belongs to an agent's definition. -/
def defines (inside : Bool) (line : Line) : Bool :=
  if line.isComment = false ∧ line.indent = 0 then opensAgent line else inside

/-- Two lists of lines that differ in numbers, and in how the properties of agents are written; `inside` says whether what comes first
    belongs to an agent's definition. -/
inductive Matched (place : Nat → Nat) : Bool → List Line → List Line → Prop where
  | nil {inside : Bool} : Matched place inside [] []
  | same {inside : Bool} {line : Line} {rest rest' : List Line} (tail : Matched place (defines inside line) rest rest') :
      Matched place inside (line :: rest) (line.moved place :: rest')
  | property {line line' : Line} {rest rest' : List Line} (code : line.isComment = false) (code' : line'.isComment = false)
      (stands : line'.indent = line.indent) (deeper : 0 < line.indent) (number : line'.number = place line.number)
      (sets : ∀ a, setProperty a line' = setProperty a line) (tail : Matched place true rest rest') :
      Matched place true (line :: rest) (line' :: rest')

variable {place : Nat → Nat} {inside : Bool} {r : Readers} {line l : Line} {lines lines' rest rest' : List Line}

theorem Matched.moved (inside : Bool) (lines : List Line) : Matched place inside lines (lines.map (·.moved place)) := by
  induction lines generalizing inside with
  | nil => exact .nil
  | cons l rest ih => exact .same (ih _)

theorem Matched.append (h : Matched place (lines.foldl defines inside) rest rest') :
    Matched place inside (lines ++ rest) (lines.map (·.moved place) ++ rest') := by
  induction lines generalizing inside with
  | nil => exact h
  | cons l lines ih => exact .same (ih h)

theorem Matched.length (h : Matched place inside lines lines') : lines'.length = lines.length := by
  induction h with
  | nil => rfl
  | same _ ih => rw [List.length_cons, List.length_cons, ih]
  | property _ _ _ _ _ _ _ ih => rw [List.length_cons, List.length_cons, ih]

theorem defines_comment (h : line.isComment = true) : defines inside line = inside := by
  rw [defines, if_neg]
  rw [h]
  nofun

theorem defines_deeper (h : 0 < line.indent) : defines inside line = inside := by
  rw [defines, if_neg]
  omega

theorem defines_of_not_opensAgent (h : opensAgent line = false) : defines false line = false := by
  rw [defines, h, ite_self]

theorem defines_outer (hcode : line.isComment = false) (hstands : line.indent = 0) : defines inside line = opensAgent line :=
  if_pos ⟨hcode, hstands⟩

/-- Where a reader comes upon lines that do not belong to an agent's definition, the next code line is the same. -/
theorem Matched.nextCode (h : Matched place false lines lines') :
    (nextCode lines = none ∧ nextCode lines' = none) ∨ ∃ l rest rest', nextCode lines = some (l, rest) ∧
      nextCode lines' = some (l.moved place, rest') ∧ Matched place (defines false l) rest rest' := by
  generalize hinside : false = inside at h
  induction h with
  | nil => exact .inl ⟨rfl, rfl⟩
  | @same inside l rest rest' tail ih =>
    subst hinside
    cases hcomment : l.isComment with
    | false => exact .inr ⟨l, rest, rest', nextCode_cons_code hcomment, nextCode_cons_code hcomment, tail⟩
    | true =>
      rw [nextCode_cons_comment hcomment, nextCode_cons_comment (l := l.moved place) hcomment]
      rw [defines_comment hcomment] at ih
      exact ih rfl
  | property => cases hinside

/-! ## Readers -/

/-- Two readers have found the same and left lines that match. -/
def Pairs {α : Type} (place : Nat → Nat) (inside : Bool) (found found' : α × Rest) : Prop :=
  found.1 = found'.1 ∧ Matched place inside found.2 found'.2

theorem checkBody_agrees {missing : Fault} (h : Matched place false lines lines') :
    Agrees place (fun _ _ => True) (checkBody line missing lines) (checkBody (line.moved place) missing lines') := by
  unfold checkBody
  rcases h.nextCode with ⟨hnone, hnone'⟩ | ⟨l, rest, rest', hnext, hnext', -⟩
  · rw [hnone, hnone']
    exact .error
  · rw [hnext, hnext']
    exact .ite (fun _ => .ite (fun _ => .ok trivial) fun _ => .error) fun _ => .error

/-- Readers of nested blocks to which numbers do not matter. -/
structure Uniform (place : Nat → Nat) (r : Readers) : Prop where
  block : ∀ {indent : Nat} {lines lines' : List Line}, 0 < indent → Matched place false lines lines' →
    Agrees place (Pairs place false) (r.block indent lines) (r.block indent lines')
  branches : ∀ {indent : Nat} {lines lines' : List Line}, 0 < indent → Matched place false lines lines' →
    Agrees place (Pairs place false) (r.branches indent lines) (r.branches indent lines')

theorem step_pos (indent : Nat) : 0 < indent + indentStep :=
  Nat.add_pos_right _ (by decide)

theorem body_agrees (hr : Uniform place r) (h : Matched place false lines lines') :
    Agrees place (Pairs place false) (body r line lines) (body r (line.moved place) lines') := by
  unfold body
  exact (checkBody_agrees h).bind fun _ _ _ => hr.block (step_pos _) h

/-- A clause of a `try` is no agent's header. -/
theorem not_opensAgent_of_clause {word more : List Char} (hword : word ∈ ["catch".toList, "finally:".toList])
    (h : line.text = word ++ more) : opensAgent line = false := by
  rw [opensAgent, h]
  simp only [List.mem_cons, List.not_mem_nil, or_false] at hword
  rcases hword with rfl | rfl <;> rfl

/-- The body of a clause is read alike from moved lines: the lines behind its header do not belong to an agent's definition. -/
theorem clause_agrees (hr : Uniform place r) {word more : List Char} (hword : word ∈ ["catch".toList, "finally:".toList])
    (h : l.text = word ++ more) (hrest : Matched place (defines false l) rest rest') :
    Agrees place (Pairs place false) (body r l rest) (body r (l.moved place) rest') := by
  rw [defines_of_not_opensAgent (not_opensAgent_of_clause hword h)] at hrest
  exact body_agrees hr hrest

theorem catchClause_agrees (hr : Uniform place r) {indent : Nat} (h : Matched place false lines lines') :
    Agrees place (Pairs place false) (catchClause r indent lines) (catchClause r indent lines') := by
  unfold catchClause
  rcases h.nextCode with ⟨hnone, hnone'⟩ | ⟨l, rest, rest', hnext, hnext', hrest⟩
  · rw [hnone, hnone']
    exact .ok ⟨rfl, h⟩
  · rw [hnext, hnext']
    refine .ite (fun hopens => ?_) fun _ => .ok ⟨rfl, h⟩
    rw [Bool.and_eq_true] at hopens
    obtain ⟨more, hmore⟩ := Option.isSome_iff_exists.1 hopens.2
    simp only [Line.moved]
    cases Phrase.catchName? l.text with
    | none => exact .error
    | some name =>
      refine (clause_agrees hr (by decide) (stripPrefix_eq_some_iff.1 hmore) hrest).bind ?_
      rintro ⟨handler, left⟩ ⟨_, left'⟩ ⟨rfl, hleft⟩
      exact .ok ⟨rfl, hleft⟩

theorem finallyClause_agrees (hr : Uniform place r) {indent : Nat} (h : Matched place false lines lines') :
    Agrees place (Pairs place false) (finallyClause r indent lines) (finallyClause r indent lines') := by
  unfold finallyClause
  rcases h.nextCode with ⟨hnone, hnone'⟩ | ⟨l, rest, rest', hnext, hnext', hrest⟩
  · rw [hnone, hnone']
    exact .ok ⟨rfl, h⟩
  · rw [hnext, hnext']
    refine .ite (fun hopens => ?_) fun _ => .ok ⟨rfl, h⟩
    rw [Bool.and_eq_true, decide_eq_true_eq, decide_eq_true_eq] at hopens
    have htext : l.text = "finally:".toList ++ [] := by rw [hopens.2, List.append_nil]
    refine (clause_agrees hr (by decide) htext hrest).bind ?_
    rintro ⟨final, left⟩ ⟨_, left'⟩ ⟨rfl, hleft⟩
    exact .ok ⟨rfl, hleft⟩

theorem attempt_agrees (hr : Uniform place r) (h : Matched place false rest rest') :
    Agrees place (Pairs place false) (attempt r line rest) (attempt r (line.moved place) rest') := by
  unfold attempt
  refine (body_agrees hr h).bind ?_
  rintro ⟨tried, afterBody⟩ ⟨_, afterBody'⟩ ⟨rfl, hbody⟩
  refine (catchClause_agrees hr hbody).bind ?_
  rintro ⟨⟨name, handler⟩, afterHandler⟩ ⟨_, afterHandler'⟩ ⟨rfl, hhandler⟩
  refine (finallyClause_agrees hr hhandler).bind ?_
  rintro ⟨final, left⟩ ⟨_, left'⟩ ⟨rfl, hleft⟩
  exact .ite (fun _ => .error) fun _ => .ok ⟨rfl, hleft⟩

theorem at_agrees {α : Type} (x : Except Fault α) : Agrees place Eq (at_ line x) (at_ (line.moved place) x) := by
  cases x with
  | ok a => exact .ok rfl
  | error fault => exact .error

theorem statement_agrees (hr : Uniform place r) (h : Matched place false rest rest') :
    Agrees place (Pairs place false) (statement r line rest) (statement r (line.moved place) rest') := by
  unfold statement
  refine .ite (fun _ => attempt_agrees hr h) fun _ => .ite (fun _ => .error) fun _ => .ite (fun _ => ?_) fun _ => ?_
  · simp only [Line.moved]
    cases Phrase.policy? line.text with
    | none => exact .error
    | some policy =>
      refine (checkBody_agrees h).bind fun _ _ _ => (hr.branches (step_pos _) h).bind ?_
      rintro ⟨bs, left⟩ ⟨_, left'⟩ ⟨rfl, hleft⟩
      exact .ok ⟨rfl, hleft⟩
  · simp only [Line.moved]
    cases stripPrefix "repeat ".toList line.text with
    | some text =>
      simp only
      cases Phrase.repeatCount? text with
      | none => exact .error
      | some count =>
        refine (body_agrees hr h).bind ?_
        rintro ⟨looped, left⟩ ⟨_, left'⟩ ⟨rfl, hleft⟩
        exact .ok ⟨rfl, hleft⟩
    | none =>
      refine .ite (fun _ => .error) fun _ => (at_agrees _).bind ?_
      rintro s _ rfl
      exact .ok ⟨rfl, h⟩

theorem branch_agrees (hr : Uniform place r) (h : Matched place false rest rest') :
    Agrees place (Pairs place false) (branch r line rest) (branch r (line.moved place) rest') := by
  unfold branch
  simp only [Line.moved]
  cases Phrase.namedBranch? line.text with
  | some found =>
    refine (at_agrees _).bind ?_
    rintro b _ rfl
    exact .ok ⟨rfl, h⟩
  | none =>
    refine (statement_agrees hr h).bind ?_
    rintro ⟨s, left⟩ ⟨_, left'⟩ ⟨rfl, hleft⟩
    exact .ok ⟨rfl, hleft⟩

/-- The readers of blocks are such readers. -/
theorem uniform_block (place : Nat → Nat) (depth : Nat) : Uniform place ⟨block depth, branches depth⟩ := by
  induction depth with
  | zero =>
    constructor
    · intro indent lines lines' _ h
      simp only
      rw [block, block]
      exact .ok ⟨rfl, h⟩
    · intro indent lines lines' _ h
      simp only
      rw [branches, branches]
      exact .ok ⟨rfl, h⟩
  | succ depth ih =>
    constructor
    · intro indent lines lines' hdeep h
      cases h with
      | nil =>
        simp only
        rw [block_nil]
        exact .ok ⟨rfl, .nil⟩
      | @same _ l rest rest' tail =>
        simp only
        rw [block, block]
        refine .ite (fun _ => .ok ⟨rfl, .same tail⟩) fun hless => ?_
        -- No line of the block stands at the top level, so that none opens an agent's definition.
        rw [defines_deeper (Nat.lt_of_lt_of_le hdeep (Nat.not_lt.1 hless))] at tail
        refine .ite (fun _ => ?_) fun _ => .ite (fun _ => .error) fun _ => .ite (fun _ => .error) fun _ => ?_
        · refine (ih.block hdeep tail).bind ?_
          rintro ⟨stmts, left⟩ ⟨_, left'⟩ ⟨rfl, hleft⟩
          exact .ok ⟨rfl, hleft⟩
        · refine (statement_agrees ih tail).bind ?_
          rintro ⟨s, after⟩ ⟨_, after'⟩ ⟨rfl, hafter⟩
          refine (ih.block hdeep hafter).bind ?_
          rintro ⟨stmts, left⟩ ⟨_, left'⟩ ⟨rfl, hleft⟩
          exact .ok ⟨rfl, hleft⟩
    · intro indent lines lines' hdeep h
      cases h with
      | nil =>
        simp only
        rw [branches_nil]
        exact .ok ⟨rfl, .nil⟩
      | @same _ l rest rest' tail =>
        simp only
        rw [branches, branches]
        refine .ite (fun _ => .ok ⟨rfl, .same tail⟩) fun hless => ?_
        rw [defines_deeper (Nat.lt_of_lt_of_le hdeep (Nat.not_lt.1 hless))] at tail
        refine .ite (fun _ => ih.branches hdeep tail) fun _ => .ite (fun _ => .error) fun _ => ?_
        refine (branch_agrees ih tail).bind ?_
        rintro ⟨b, after⟩ ⟨_, after'⟩ ⟨rfl, hafter⟩
        refine (ih.branches hdeep hafter).bind ?_
        rintro ⟨bs, left⟩ ⟨_, left'⟩ ⟨rfl, hleft⟩
        exact .ok ⟨rfl, hleft⟩

theorem properties_agree (a : Agent) (h : Matched place true lines lines') :
    Agrees place (Pairs place true) (properties 0 a lines) (properties 0 a lines') := by
  generalize hinside : true = inside at h
  induction h generalizing a with
  | nil =>
    subst hinside
    exact .ok ⟨rfl, .nil⟩
  | @same inside l rest rest' tail ih =>
    subst hinside
    rw [properties, properties]
    refine .ite (fun hcomment => .ite (fun _ => .ok ⟨rfl, .same tail⟩) fun _ => ?_) fun hcode =>
      .ite (fun _ => .ok ⟨rfl, .same tail⟩) fun hdeeper => .ite (fun _ => .error) fun _ => ?_
    · rw [defines_comment hcomment] at ih
      exact ih a rfl
    · rw [defines_deeper (Nat.not_le.1 hdeeper)] at ih
      have hsame : setProperty a (l.moved place) = setProperty a l := rfl
      rw [hsame]
      cases setProperty a l with
      | ok b => exact ih b rfl
      | error fault => exact .error
  | @property l l' rest rest' code code' stands deeper number sets tail ih =>
    rw [properties, properties, code, code', stands, sets]
    refine .ite (fun h => absurd h Bool.false_ne_true) fun _ => .ite (fun hle => absurd deeper (Nat.not_lt.2 hle)) fun _ =>
      .ite (fun _ => ?_) fun _ => ?_
    · rw [fail, fail, number]
      exact .error
    · cases setProperty a l with
      | ok b => exact ih b rfl
      | error fault =>
        simp only [at_, number]
        exact .error

theorem agent_agrees (agents : Agents) (hstands : line.indent = 0) (h : Matched place true rest rest') :
    Agrees place (Pairs place true) (agent agents line rest) (agent agents (line.moved place) rest') := by
  unfold agent
  simp only [Line.moved, hstands]
  cases Phrase.agentName? line.text with
  | none => exact .error
  | some name =>
    refine .ite (fun _ => .error) fun _ => (properties_agree _ h).bind ?_
    rintro ⟨a, left⟩ ⟨_, left'⟩ ⟨rfl, hleft⟩
    exact .ok ⟨rfl, hleft⟩

theorem top_agrees (depth : Nat) (agents : Agents) (h : Matched place inside lines lines') :
    Agrees place Eq (top depth agents lines) (top depth agents lines') := by
  induction depth generalizing agents inside lines lines' with
  | zero =>
    rw [top, top]
    exact .ok rfl
  | succ depth ih =>
    cases h with
    | nil =>
      rw [top_nil]
      exact .ok rfl
    | @same _ l rest rest' tail =>
      rw [top, top]
      refine .ite (fun _ => (ih agents tail).bind ?_) fun hcode => .ite (fun _ => .error) fun hmore =>
        .ite (fun hopens => ?_) fun hopens => ?_
      · rintro ⟨agents', stmts⟩ _ rfl
        exact .ok rfl
      · rw [defines_outer (Bool.eq_false_iff.2 hcode) (by omega), hopens] at tail
        refine (agent_agrees agents (by omega) tail).bind ?_
        rintro ⟨agents', left⟩ ⟨_, left'⟩ ⟨rfl, hleft⟩
        exact ih agents' hleft
      · rw [defines_outer (Bool.eq_false_iff.2 hcode) (by omega), Bool.eq_false_iff.2 hopens] at tail
        refine (statement_agrees (uniform_block place depth) tail).bind ?_
        rintro ⟨s, left⟩ ⟨_, left'⟩ ⟨rfl, hleft⟩
        refine (ih agents hleft).bind ?_
        rintro ⟨agents', stmts⟩ _ rfl
        exact .ok rfl
    | @property l l' rest rest' code code' stands deeper number sets tail =>
      rw [top, top, code, code', stands]
      refine .ite (fun h => absurd h Bool.false_ne_true) fun _ => .ite (fun _ => ?_) fun hmore => absurd deeper hmore
      rw [fail, fail, number]
      exact .error

/-- The comments at the head are the same. -/
theorem Matched.header (h : Matched place inside lines lines') :
    lines'.takeWhile (·.isComment) = (lines.takeWhile (·.isComment)).map (·.moved place) ∧
      Matched place inside (lines.dropWhile (·.isComment)) (lines'.dropWhile (·.isComment)) := by
  induction h with
  | nil => exact ⟨rfl, .nil⟩
  | @same inside l rest rest' tail ih =>
    cases hcomment : l.isComment with
    | true =>
      have hcomment' : (l.moved place).isComment = true := hcomment
      rw [List.takeWhile_cons_of_pos hcomment, List.takeWhile_cons_of_pos hcomment', List.dropWhile_cons_of_pos hcomment,
        List.dropWhile_cons_of_pos hcomment', ih.1]
      rw [defines_comment hcomment] at ih
      exact ⟨rfl, ih.2⟩
    | false =>
      have hcode : ¬l.isComment = true := Bool.eq_false_iff.1 hcomment
      have hcode' : ¬(l.moved place).isComment = true := hcode
      rw [List.takeWhile_cons_of_neg hcode, List.takeWhile_cons_of_neg hcode', List.dropWhile_cons_of_neg hcode,
        List.dropWhile_cons_of_neg hcode']
      exact ⟨rfl, .same tail⟩
  | @property l l' rest rest' code code' stands deeper number sets tail _ =>
    have hcode : ¬l.isComment = true := Bool.eq_false_iff.1 code
    have hcode' : ¬l'.isComment = true := Bool.eq_false_iff.1 code'
    rw [List.takeWhile_cons_of_neg hcode, List.takeWhile_cons_of_neg hcode', List.dropWhile_cons_of_neg hcode,
      List.dropWhile_cons_of_neg hcode']
    exact ⟨rfl, .property code code' stands deeper number sets tail⟩

/-- Lines that match give the same program, or the same error but for the number. -/
theorem program_agrees (h : Matched place inside lines lines') :
    Agrees place Eq (program lines) (program lines') := by
  obtain ⟨hheader, hrest⟩ := h.header
  unfold program
  simp only [hheader, h.length, List.map_map]
  refine (top_agrees _ _ hrest).bind ?_
  rintro ⟨agents, stmts⟩ _ rfl
  exact .ok rfl

end Parser

end Playbook.Program
