import Playbook.Proofs.Program.Reading
import Playbook.Proofs.Program.Sourcing

/-!
# `Proofs.Program.Blame` — the line that an error names

A reader that fails names a line: the one that it reads, a header before it, or the next line of code, which it has looked ahead to.
Each of them is a line of code that the reader was given, and so a line of the source.

## Contents
- **Wording.** `unreadable`, and `parse_of_error`.
- **Blame.** `Line.Blames`, and `Answers` for a reader that succeeds or has a line to blame.
- **Phrases.** No phrase is at fault for its indentation: `Level`, `Phrase.level_simple`.
- **Readers.** One lemma for each reader, up to `blaming_block` for nested blocks and `answers_program` for programs.
- **Raw lines.** `Line.Accuses` says the same of raw lines; `Line.Blames.accuses`, `Line.Faulty.accuses`.
- **Statement.** `parse_blames_line`.
-/

namespace Playbook.Program

open Text

/-! ## Wording -/

/-- What is said about a line after its number. -/
def Fault.text : Fault → String
  | .badIndent expected found => "bad indent: expected " ++ toString expected ++ " spaces, found " ++ toString found
  | fault => fault.message

/-- The facts about a line after its number. -/
def Fault.facts : Fault → List (String × String)
  | .badIndent expected found => [("expected", toString expected), ("found", toString found)]
  | _ => []

/-- The failure that names a line and what is wrong with it. -/
def unreadable (number : Nat) (fault : Fault) : Failure where
  kind := .parseFailed
  message := "line " ++ toString number ++ ": " ++ fault.text
  status := .permanent
  operation := "parser::parse"
  context := ("line", toString number) :: fault.facts
  source := none

theorem Error.failure_eq (e : Error) : e.failure = unreadable e.line e.fault := by
  obtain ⟨number, fault⟩ := e
  cases fault <;> rfl

theorem parse_of_ok {source : String} {p : Program} (h : parse? source = .ok p) : parse source = .ok p := by
  rw [parse, h]

theorem parse_of_error {source : String} {e : Error} (h : parse? source = .error e) :
    parse source = .error (unreadable e.line e.fault) := by
  rw [← e.failure_eq, parse, h]

/-! ## Blame -/

/-- A line of code is to blame for an error that has its number; an indentation that is said to be bad is the line's, and another
    number of whole steps was expected. -/
structure Line.Blames (line : Line) (e : Error) : Prop where
  code : line.isComment = false
  number : e.line = line.number
  indent : ∀ {expected found : Nat}, e.fault = .badIndent expected found →
    found = line.indent ∧ Parser.indentStep ∣ expected ∧ expected ≠ found

/-- How a reader answers that is given lines: it has done something, or one of them is to blame. -/
inductive Answers {α : Type} (given : List Line) (done : α → Prop) : Except Error α → Prop where
  | ok {a : α} (holds : done a) : Answers given done (.ok a)
  | error {e : Error} {line : Line} (mem : line ∈ given) (blame : line.Blames e) : Answers given done (.error e)

theorem Answers.bind {α β : Type} {given : List Line} {done : α → Prop} {done' : β → Prop} {x : Except Error α}
    {f : α → Except Error β} (h : Answers given done x) (hf : ∀ a, done a → Answers given done' (f a)) :
    Answers given done' (x >>= f) := by
  cases h with
  | ok holds => exact hf _ holds
  | error mem blame => exact .error mem blame

/-- Whether a fault is one of a phrase: it says nothing about the indentation. -/
def Fault.Level (fault : Fault) : Prop :=
  ∀ expected found, fault ≠ .badIndent expected found

/-- What reads a phrase and finds no fault with its indentation. -/
def Level {α : Type} (x : Except Fault α) : Prop :=
  ∀ fault, x = .error fault → fault.Level

namespace Level

variable {α β : Type} {x : Except Fault α}

theorem ok (a : α) : Level (.ok a : Except Fault α) :=
  nofun

theorem error {fault : Fault} (h : fault.Level) : Level (.error fault : Except Fault α) := by
  rintro _ ⟨⟩
  exact h

theorem map {f : α → β} (h : Level x) : Level (x.map f) := by
  cases x with
  | ok a => exact ok _
  | error fault => exact error (h fault rfl)

theorem bind {f : α → Except Fault β} (h : Level x) (hf : ∀ a, Level (f a)) : Level (x >>= f) := by
  cases x with
  | ok a => exact hf a
  | error fault => exact error (h fault rfl)

end Level

namespace Phrase

variable {text : List Char}

theorem level_literalFrom (value : List Char) : Level (literalFrom value text) := by
  fun_induction literalFrom value text with
  | case1 => exact .error nofun
  | case2 => exact .ok _
  | case8 => exact .error nofun
  | _ => assumption

theorem level_wholeLiteral {extra : Fault} (hextra : extra.Level) : Level (wholeLiteral extra text) := by
  refine (level_literalFrom []).bind fun found => ?_
  simp only
  split
  · exact .ok _
  · exact .error hextra

theorem level_title (keyword : String) : Level (title keyword text) := by
  unfold title
  split
  · exact level_wholeLiteral nofun
  · exact .error nofun

theorem level_call (keyword : String) (needsAgent : Bool) : Level (call keyword needsAgent text) := by
  unfold call
  split
  · simp only
    split
    · exact (level_title keyword).bind fun _ => .ok _
    · exact .error nofun
  · split
    · exact .error nofun
    · exact (level_title keyword).bind fun _ => .ok _

theorem level_expr : Level (expr text) := by
  unfold expr
  split
  · exact .map (level_wholeLiteral nofun)
  · split
    · exact (level_call _ _).map
    · split
      · exact (level_call _ _).map
      · split
        · exact .ok _
        · exact .error nofun

theorem level_assignment : Level (assignment text) := by
  unfold assignment
  split
  · exact .error nofun
  · simp only
    split
    · exact level_expr.bind fun _ => .ok _
    · exact .error nofun

theorem level_simple : Level (simple text) := by
  unfold simple
  split
  · exact level_assignment.map
  · split
    · exact level_assignment.map
    · split
      · exact (level_call _ _).map
      · split
        · exact (level_call _ _).map
        · exact .error nofun

theorem level_namedBranch (name : String) : Level (namedBranch name text) := by
  unfold namedBranch
  split
  · exact level_simple.map
  · exact level_expr.map

theorem level_scalar : Level (scalar text) := by
  unfold scalar
  split
  · exact level_wholeLiteral nofun
  · exact .error nofun
  · exact .ok _

theorem level_prompt (block : Option (List (List Char))) : Level (prompt block text) := by
  unfold prompt
  split
  · split
    · exact .ok _
    · exact .error nofun
  · split
    · exact .ok _
    · exact level_scalar

end Phrase

/-! ## Readers -/

namespace Parser

variable {r : Readers} {given lines rest : List Line} {line : Line}

theorem nextCode_mem (h : nextCode lines = some (line, rest)) : line ∈ lines ∧ line.isComment = false ∧ rest ⊆ lines := by
  obtain ⟨skipped, rfl, -, hcode⟩ := nextCode_eq_some h
  exact ⟨List.mem_append_right _ List.mem_cons_self, hcode,
    List.Subset.trans (List.subset_cons_self _ _) (List.subset_append_right _ _)⟩

section

variable {α : Type} {done : α → Prop}

theorem answers_fail {fault : Fault} (hmem : line ∈ given) (hcode : line.isComment = false) (hfault : fault.Level) :
    Answers given done (fail line fault) :=
  .error hmem ⟨hcode, rfl, fun heq => absurd heq (hfault _ _)⟩

theorem answers_badIndent {expected : Nat} (hmem : line ∈ given) (hcode : line.isComment = false)
    (hsteps : indentStep ∣ expected) (hne : expected ≠ line.indent) :
    Answers given done (fail line (.badIndent expected line.indent)) := by
  refine .error hmem ⟨hcode, rfl, ?_⟩
  rintro _ _ ⟨⟩
  exact ⟨rfl, hsteps, hne⟩

theorem answers_at {x : Except Fault α} (hmem : line ∈ given) (hcode : line.isComment = false) (hx : Level x) :
    Answers given (fun _ => True) (at_ line x) := by
  cases x with
  | ok a => exact .ok trivial
  | error fault => exact answers_fail hmem hcode (hx fault rfl)

end

/-- What a reader leaves are lines that it was given. -/
def Within {α : Type} (given : List Line) (found : α × Rest) : Prop :=
  found.2 ⊆ given

theorem answers_checkBody {missing : Fault} (hmem : line ∈ given) (hcode : line.isComment = false)
    (hsteps : indentStep ∣ line.indent) (hmissing : missing.Level) (hlines : lines ⊆ given) :
    Answers given (fun _ => True) (checkBody line missing lines) := by
  unfold checkBody
  split
  · rename_i next others hnext
    obtain ⟨hnextMem, hnextCode, -⟩ := nextCode_mem hnext
    split
    · split
      · exact .ok trivial
      · rename_i hne
        exact answers_badIndent (hlines hnextMem) hnextCode (Nat.dvd_add_self_right.2 hsteps) (Ne.symm hne)
    · exact answers_fail hmem hcode hmissing
  · exact answers_fail hmem hcode hmissing

/-- Readers of nested blocks that leave lines which they were given, or have one of them to blame. -/
structure Blaming (given : List Line) (r : Readers) : Prop where
  block : ∀ {indent : Nat} {lines : List Line}, indentStep ∣ indent → lines ⊆ given →
    Answers given (Within given) (r.block indent lines)
  branches : ∀ {indent : Nat} {lines : List Line}, indentStep ∣ indent → lines ⊆ given →
    Answers given (Within given) (r.branches indent lines)

theorem answers_body (hr : Blaming given r) (hmem : line ∈ given) (hcode : line.isComment = false)
    (hsteps : indentStep ∣ line.indent) (hlines : lines ⊆ given) : Answers given (Within given) (body r line lines) := by
  unfold body
  exact .bind (answers_checkBody hmem hcode hsteps nofun hlines) fun _ _ => hr.block (Nat.dvd_add_self_right.2 hsteps) hlines

theorem answers_catchClause (hr : Blaming given r) {indent : Nat} (hsteps : indentStep ∣ indent) (hlines : lines ⊆ given) :
    Answers given (Within given) (catchClause r indent lines) := by
  unfold catchClause
  split
  · rename_i l rest hnext
    obtain ⟨hmem, hcode, hrest⟩ := nextCode_mem hnext
    split
    · rename_i hopens
      rw [Bool.and_eq_true, decide_eq_true_eq] at hopens
      split
      · exact answers_fail (hlines hmem) hcode nofun
      · rw [← hopens.1] at hsteps
        exact (answers_body hr (hlines hmem) hcode hsteps (List.Subset.trans hrest hlines)).bind fun _ hleft => .ok hleft
    · exact .ok hlines
  · exact .ok hlines

theorem answers_finallyClause (hr : Blaming given r) {indent : Nat} (hsteps : indentStep ∣ indent) (hlines : lines ⊆ given) :
    Answers given (Within given) (finallyClause r indent lines) := by
  unfold finallyClause
  split
  · rename_i l rest hnext
    obtain ⟨hmem, hcode, hrest⟩ := nextCode_mem hnext
    split
    · rename_i hopens
      rw [Bool.and_eq_true, decide_eq_true_eq] at hopens
      rw [← hopens.1] at hsteps
      exact (answers_body hr (hlines hmem) hcode hsteps (List.Subset.trans hrest hlines)).bind fun _ hleft => .ok hleft
    · exact .ok hlines
  · exact .ok hlines

section

variable (hr : Blaming given r) (hmem : line ∈ given) (hcode : line.isComment = false) (hsteps : indentStep ∣ line.indent)
  (hrest : rest ⊆ given)

include hr hmem hcode hsteps hrest

theorem answers_attempt : Answers given (Within given) (attempt r line rest) := by
  unfold attempt
  refine (answers_body hr hmem hcode hsteps hrest).bind fun tried htried => ?_
  refine (answers_catchClause hr hsteps htried).bind fun caught hcaught => ?_
  refine (answers_finallyClause hr hsteps hcaught).bind fun final hfinal => ?_
  simp only
  split
  · exact answers_fail hmem hcode nofun
  · exact .ok hfinal

theorem answers_statement : Answers given (Within given) (statement r line rest) := by
  unfold statement
  simp only
  split
  · exact answers_attempt hr hmem hcode hsteps hrest
  · split
    · exact answers_fail hmem hcode nofun
    · split
      · split
        · exact answers_fail hmem hcode nofun
        · refine .bind (answers_checkBody hmem hcode hsteps nofun hrest) fun _ _ => ?_
          exact (hr.branches (Nat.dvd_add_self_right.2 hsteps) hrest).bind fun _ hleft => .ok hleft
      · split
        · split
          · exact answers_fail hmem hcode nofun
          · exact (answers_body hr hmem hcode hsteps hrest).bind fun _ hleft => .ok hleft
        · split
          · exact answers_fail hmem hcode nofun
          · exact (answers_at hmem hcode Phrase.level_simple).bind fun _ _ => .ok hrest

theorem answers_branch : Answers given (Within given) (branch r line rest) := by
  unfold branch
  split
  · exact (answers_at hmem hcode (Phrase.level_namedBranch _)).bind fun _ _ => .ok hrest
  · exact (answers_statement hr hmem hcode hsteps hrest).bind fun _ hleft => .ok hleft

end

/-- The readers of blocks are such readers. -/
theorem blaming_block (depth : Nat) : Blaming given ⟨block depth, branches depth⟩ := by
  induction depth with
  | zero =>
    constructor
    · intro indent lines _ hlines
      simp only
      rw [block]
      exact .ok hlines
    · intro indent lines _ hlines
      simp only
      rw [branches]
      exact .ok hlines
  | succ depth ih =>
    constructor
    · intro indent lines hsteps hlines
      simp only
      cases lines with
      | nil =>
        rw [block_nil]
        exact .ok hlines
      | cons l rest =>
        obtain ⟨hmem, hrest⟩ := List.cons_subset.1 hlines
        rw [block]
        split
        · exact .ok hlines
        · split
          · exact (ih.block hsteps hrest).bind fun _ hleft => .ok hleft
          · rename_i hcode
            have hcode := Bool.eq_false_iff.2 hcode
            split
            · rename_i hmore
              exact answers_badIndent hmem hcode hsteps (Nat.ne_of_lt hmore)
            · have hstands : l.indent = indent := by omega
              split
              · exact answers_fail hmem hcode (by rintro _ _ ⟨⟩)
              · refine (answers_statement ih hmem hcode (hstands ▸ hsteps) hrest).bind fun _ hleft => ?_
                exact (ih.block hsteps hleft).bind fun _ hleft => .ok hleft
    · intro indent lines hsteps hlines
      simp only
      cases lines with
      | nil =>
        rw [branches_nil]
        exact .ok hlines
      | cons l rest =>
        obtain ⟨hmem, hrest⟩ := List.cons_subset.1 hlines
        rw [branches]
        split
        · exact .ok hlines
        · split
          · exact ih.branches hsteps hrest
          · rename_i hcode
            have hcode := Bool.eq_false_iff.2 hcode
            split
            · rename_i hmore
              exact answers_badIndent hmem hcode hsteps (Nat.ne_of_lt hmore)
            · have hstands : l.indent = indent := by omega
              refine (answers_branch ih hmem hcode (hstands ▸ hsteps) hrest).bind fun _ hleft => ?_
              exact (ih.branches hsteps hleft).bind fun _ hleft => .ok hleft

theorem level_setProperty (a : Agent) (line : Line) : Level (setProperty a line) := by
  unfold setProperty
  split
  · exact .error nofun
  · simp only
    split
    · exact Phrase.level_scalar.map
    · split
      · exact Phrase.level_scalar.map
      · split
        · exact (Phrase.level_prompt _).map
        · exact .error nofun

theorem answers_properties {header : Nat} (a : Agent) (hsteps : indentStep ∣ header) (hlines : lines ⊆ given) :
    Answers given (Within given) (properties header a lines) := by
  induction lines generalizing a with
  | nil => exact .ok hlines
  | cons l rest ih =>
    obtain ⟨hmem, hrest⟩ := List.cons_subset.1 hlines
    rw [properties]
    split
    · split
      · exact .ok hlines
      · exact ih a hrest
    · rename_i hcode
      have hcode := Bool.eq_false_iff.2 hcode
      split
      · exact .ok hlines
      · split
        · rename_i hne
          exact answers_badIndent hmem hcode (Nat.dvd_add_self_right.2 hsteps) (Ne.symm hne)
        · have hset := answers_at hmem hcode (level_setProperty a l)
          cases hread : at_ l (setProperty a l) with
          | ok b => exact ih b hrest
          | error e =>
            rw [hread] at hset
            cases hset with
            | error mem blame => exact .error mem blame

theorem answers_agent (agents : Agents) (hmem : line ∈ given) (hcode : line.isComment = false)
    (hsteps : indentStep ∣ line.indent) (hrest : rest ⊆ given) : Answers given (Within given) (agent agents line rest) := by
  unfold agent
  split
  · exact answers_fail hmem hcode nofun
  · split
    · exact answers_fail hmem hcode nofun
    · exact (answers_properties _ hsteps hrest).bind fun _ hleft => .ok hleft

theorem answers_top (depth : Nat) (agents : Agents) (hlines : lines ⊆ given) :
    Answers given (fun _ => True) (top depth agents lines) := by
  induction depth generalizing agents lines with
  | zero =>
    rw [top]
    exact .ok trivial
  | succ depth ih =>
    cases lines with
    | nil =>
      rw [top_nil]
      exact .ok trivial
    | cons l rest =>
      obtain ⟨hmem, hrest⟩ := List.cons_subset.1 hlines
      rw [top]
      split
      · exact (ih agents hrest).bind fun _ _ => .ok trivial
      · rename_i hcode
        have hcode := Bool.eq_false_iff.2 hcode
        split
        · rename_i hmore
          exact answers_badIndent hmem hcode (Nat.dvd_zero _) (Nat.ne_of_lt hmore)
        · have hsteps : indentStep ∣ l.indent := by
            rw [show l.indent = 0 by omega]
            exact Nat.dvd_zero _
          split
          · refine (answers_agent agents hmem hcode hsteps hrest).bind fun _ hleft => ?_
            exact ih _ hleft
          · refine (answers_statement (blaming_block depth) hmem hcode hsteps hrest).bind fun _ hleft => ?_
            exact (ih _ hleft).bind fun _ _ => .ok trivial

theorem answers_program : Answers lines (fun _ => True) (program lines) :=
  (answers_top _ _ (List.dropWhile_sublist _).subset).bind fun _ _ => .ok trivial

end Parser

/-! ## Statement -/

namespace Line

variable {raw text : List Char} {indent : Nat}

theorem trim_ne_nil_of_shape (h : shape raw ≠ .blank) : trim raw ≠ [] := by
  intro hblank
  rw [shape] at h
  simp only at h
  rw [trim_trimEnd, if_pos hblank] at h
  exact h rfl

theorem shape_code (h : shape raw = .code indent text) :
    trim raw ≠ [] ∧ indent = leadingSpaces raw ∧ (raw.drop (leadingSpaces raw)).head? ≠ some '#' := by
  have hsome : trim raw ≠ [] := trim_ne_nil_of_shape (by rw [h]; nofun)
  rw [shape_eq hsome] at h
  simp only at h
  split at h
  · cases h
  · split at h
    · cases h
    · rename_i hmark
      cases h
      exact ⟨hsome, rfl, hmark⟩

theorem shape_tab (h : shape raw = .tab) : trim raw ≠ [] ∧ (raw.drop (leadingSpaces raw)).head? ≠ some '#' := by
  have hsome : trim raw ≠ [] := trim_ne_nil_of_shape (by rw [h]; nofun)
  rw [shape_eq hsome] at h
  simp only at h
  split at h
  · rename_i htab
    rw [htab]
    exact ⟨hsome, by decide⟩
  · split at h <;> cases h

variable {line : Line} {first : Nat} {front rest raws : List (List Char)} {read : List Line} {e : Error}

theorem getElem?_front (h : raws = front ++ raw :: rest) : raws[first + front.length - first]? = some raw := by
  rw [h, Nat.add_sub_cancel_left, List.getElem?_append_right (Nat.le_refl _), Nat.sub_self]
  rfl

theorem Sourced.code_eq (h : Sourced first raws line) (hcode : line.isComment = false) :
    first ≤ line.number ∧ ∃ raw, raws[line.number - first]? = some raw ∧ shape raw = .code line.indent line.text := by
  cases h with
  | comment => cases hcode
  | code _ split shaped => exact ⟨Nat.le_add_right _ _, _, getElem?_front split, shaped⟩
  | block _ split shaped => exact ⟨Nat.le_add_right _ _, _, getElem?_front split, shaped⟩

/-- A raw line that is neither blank nor a comment is to blame, and is indented as the error says. -/
structure Accuses (raw : List Char) (fault : Fault) : Prop where
  some : trim raw ≠ []
  code : (raw.drop (leadingSpaces raw)).head? ≠ .some '#'
  indent : ∀ {expected found : Nat}, fault = .badIndent expected found →
    found = leadingSpaces raw ∧ Parser.indentStep ∣ expected ∧ expected ≠ found

theorem Faulty.accuses (h : Faulty first raws e) :
    first ≤ e.line ∧ ∃ raw, raws[e.line - first]? = .some raw ∧ Accuses raw e.fault := by
  cases h with
  | tab _ split shaped =>
    obtain ⟨hsome, hmark⟩ := shape_tab shaped
    exact ⟨Nat.le_add_right _ _, _, getElem?_front split, hsome, hmark, nofun⟩
  | unclosed _ split shaped =>
    obtain ⟨hsome, -, hmark⟩ := shape_code shaped
    exact ⟨Nat.le_add_right _ _, _, getElem?_front split, hsome, hmark, nofun⟩

theorem Blames.accuses (h : line.Blames e) (hline : Sourced first raws line) :
    first ≤ e.line ∧ ∃ raw, raws[e.line - first]? = .some raw ∧ Accuses raw e.fault := by
  obtain ⟨hfirst, raw, hraw, hshape⟩ := hline.code_eq h.code
  obtain ⟨hsome, hindent, hmark⟩ := shape_code hshape
  rw [h.number]
  exact ⟨hfirst, raw, hraw, hsome, hmark, hindent ▸ h.indent⟩

end Line

/-- **A text that cannot be read has a line to blame.** The failure names it, and it is neither blank nor a comment. If its indentation
    is said to be bad, it has the spaces that are said to be found, and another even number of them was expected. -/
theorem parse_blames_line (source : String) :
    (∃ p, parse source = .ok p) ∨
      ∃ number fault raw, parse source = .error (unreadable number fault) ∧ 1 ≤ number ∧
        (lines source.toList)[number - 1]? = some raw ∧ trim raw ≠ [] ∧ (raw.drop (leadingSpaces raw)).head? ≠ some '#' ∧
        ∀ expected found, fault = .badIndent expected found →
          found = leadingSpaces raw ∧ 2 ∣ expected ∧ expected ≠ found := by
  have hanswers : (∃ p, parse? source = .ok p) ∨ ∃ e : Error, parse? source = .error e ∧ 1 ≤ e.line ∧
      ∃ raw, (lines source.toList)[e.line - 1]? = some raw ∧ Line.Accuses raw e.fault := by
    have htraced := (Line.reads 1 (lines source.toList)).traced
    rw [parse?, Line.ofSource]
    cases hread : Line.ofRaw none 1 (lines source.toList) with
    | error e =>
      rw [hread] at htraced
      cases htraced with
      | failed faulty => exact .inr ⟨e, rfl, faulty.accuses⟩
    | ok read =>
      rw [hread] at htraced
      cases htraced with
      | read sourced =>
        have hanswers : Answers read (fun _ => True) (Parser.program read) := Parser.answers_program
        cases hprogram : Parser.program read with
        | ok p => exact .inl ⟨p, hprogram⟩
        | error e =>
          rw [hprogram] at hanswers
          cases hanswers with
          | error mem blame => exact .inr ⟨e, hprogram, blame.accuses (sourced _ mem)⟩
  rcases hanswers with ⟨p, hp⟩ | ⟨e, he, hfirst, raw, hraw, haccused⟩
  · exact .inl ⟨p, parse_of_ok hp⟩
  · exact .inr ⟨e.line, e.fault, raw, parse_of_error he, hfirst, hraw, haccused.some, haccused.code,
      fun _ _ hfault => haccused.indent hfault⟩

end Playbook.Program
