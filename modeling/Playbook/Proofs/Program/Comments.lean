import Playbook.Proofs.Program.Stripping
import Playbook.Proofs.Program.Uncommented

/-!
# `Proofs.Program.Comments` — comments that are added to a source

A comment behind a line of code is cut off before anything else looks at the line, so it changes nothing. A line with a comment on
its own does, if it stands to the left of the code line behind it: a block ends there, although the lookahead for what follows a
header or a body passes over comments wherever they stand. Then the code line is left over, deeper than any block around, and the
text is refused. Comments that fit can stand anywhere.

## Contents
- **Comments that are read over.** In what a reader has accepted, all comments fit: `Fitting`, `fitting_block`, `top_fits`.
- **Lines with comments.** `Markup` adds comments to lines; `Markup.carried`, with a lemma for each kind of line.
- **Statement.** `comments_transparent`.
-/

namespace Playbook.Program

open Text

namespace Parser

variable {r : Readers} {line l : Line} {lines rest left : List Line}

/-! ## Comments that are read over -/

theorem fits_code (hcode : l.isComment = false) (h : Fits rest) : Fits (l :: rest) :=
  ⟨fun hcomment => absurd (hcode.symm.trans hcomment) Bool.false_ne_true, h⟩

theorem fits_comment {indent : Nat} (hdeep : indent ≤ l.indent) (h : Fits rest)
    (hnext : ∀ next others, nextCode rest = some (next, others) → indent ≤ next.indent → next.indent = indent) :
    Fits (l :: rest) := by
  refine ⟨fun _ next others hfound => .inl ?_, h⟩
  rcases Nat.lt_or_ge next.indent indent with hless | hle
  · omega
  · rw [hnext next others hfound hle]
    exact hdeep

/-- Comments before a clause fit, wherever they stand. -/
theorem fits_clause (hnext : nextCode lines = some (l, rest)) (hclause : opensClause l.text = true) (h : Fits rest) :
    Fits lines := by
  induction lines with
  | nil => cases hnext
  | cons first others ih =>
    cases hcomment : first.isComment with
    | true =>
      rw [nextCode_cons_comment hcomment] at hnext
      refine ⟨fun _ next others' hfound => .inr ?_, ih hnext⟩
      rw [hnext] at hfound
      cases hfound
      exact hclause
    | false =>
      rw [nextCode_cons_code hcomment] at hnext
      cases hnext
      exact fits_code hcomment h

/-- The comments in the lines that a reader of blocks has used fit, if those that are left do. -/
structure Fitting (r : Readers) : Prop where
  block : ∀ {indent : Nat} {lines left : List Line} {stmts : List Stmt}, r.block indent lines = .ok (stmts, left) →
    ¬Deeper indent left → Fits left → Fits lines
  branches : ∀ {indent : Nat} {lines left : List Line} {bs : List Branch}, r.branches indent lines = .ok (bs, left) →
    ¬Deeper indent left → Fits left → Fits lines

theorem body_fits (hr : Fitting r) {stmts : List Stmt} (h : body r line lines = .ok (stmts, left))
    (hleft : ¬Deeper (line.indent + 1) left) (hfits : Fits left) : Fits lines :=
  hr.block (body_eq_ok_iff.1 h).2 (not_deeper_step hleft) hfits

theorem catchClause_fits (hr : Fitting r) {indent : Nat} {name : Option String} {handler : Option (List Stmt)}
    (h : catchClause r indent lines = .ok ((name, handler), left)) (hleft : ¬Deeper (indent + 1) left) (hfits : Fits left) :
    Fits lines := by
  rcases catchClause_eq_ok_iff.1 h with ⟨l, rest, stmts, hnext, hstands, hopens, htells, hread, rfl⟩ | ⟨-, rfl, rfl, rfl⟩
  · have hclause : opensClause l.text = true := by
      rw [opensClause, htells]
      rfl
    rw [← hstands] at hleft
    exact fits_clause hnext hclause (body_fits hr hread hleft hfits)
  · exact hfits

theorem finallyClause_fits (hr : Fitting r) {indent : Nat} {final : Option (List Stmt)}
    (h : finallyClause r indent lines = .ok (final, left)) (hleft : ¬Deeper (indent + 1) left) (hfits : Fits left) :
    Fits lines := by
  rcases finallyClause_eq_ok_iff.1 h with ⟨l, rest, stmts, hnext, hstands, htells, hread, rfl⟩ | ⟨-, rfl, rfl⟩
  · have hclause : opensClause l.text = true := by
      rw [opensClause, decide_eq_true htells, Bool.or_true]
    rw [← hstands] at hleft
    exact fits_clause hnext hclause (body_fits hr hread hleft hfits)
  · exact hfits

theorem statement_fits (hr : Fitting r) {s : Stmt} (h : statement r line lines = .ok (s, left))
    (hleft : ¬Deeper (line.indent + 1) left) (hfits : Fits left) : Fits lines := by
  rcases statement_eq_ok_iff.1 h with ⟨-, hread⟩ | ⟨policy, bs, -, -, -, hread, rfl⟩ | ⟨text, count, looped, -, -, hread, rfl⟩ |
    ⟨-, rfl⟩
  · obtain ⟨tried, afterBody, name, handler, afterHandler, final, hbody, hcatch, hfinal, -, rfl⟩ := attempt_eq_ok_iff.1 hread
    obtain ⟨hafterBody, hafterHandler⟩ := not_deeper_of_clauses hcatch hfinal hleft
    have hlast := finallyClause_fits hr hfinal hleft hfits
    exact body_fits hr hbody hafterBody (catchClause_fits hr hcatch hafterHandler hlast)
  · exact hr.branches hread (not_deeper_step hleft) hfits
  · exact body_fits hr hread hleft hfits
  · exact hfits

theorem branch_fits (hr : Fitting r) {b : Branch} (h : branch r line lines = .ok (b, left))
    (hleft : ¬Deeper (line.indent + 1) left) (hfits : Fits left) : Fits lines := by
  rcases branch_eq_ok_iff.1 h with ⟨-, -, -, -, rfl⟩ | ⟨-, s, hread, -⟩
  · exact hfits
  · exact statement_fits hr hread hleft hfits

/-- The readers of blocks are such readers. -/
theorem fitting_block (depth : Nat) : Fitting ⟨block depth, branches depth⟩ := by
  induction depth with
  | zero =>
    constructor
    · intro indent lines left stmts h _ hfits
      simp only at h
      rw [block] at h
      cases h
      exact hfits
    · intro indent lines left bs h _ hfits
      simp only at h
      rw [branches] at h
      cases h
      exact hfits
  | succ depth ih =>
    constructor
    · intro indent lines left stmts h hleft hfits
      cases lines with
      | nil => exact trivial
      | cons l rest =>
        rcases block_cons_eq_ok_iff.1 h with ⟨-, -, rfl⟩ | ⟨hdeep, -, more, hread, -⟩ |
          ⟨hstands, hcode, -, s, after, more, hstmt, hread, -⟩
        · exact hfits
        · exact fits_comment hdeep (ih.block hread hleft hfits) fun next others hnext hle => (block_next hread hleft hnext hle).1
        · have hafter : ¬Deeper (l.indent + 1) after := by
            rw [hstands]
            exact not_deeper_of_block hread hleft
          exact fits_code hcode (statement_fits ih hstmt hafter (ih.block hread hleft hfits))
    · intro indent lines left bs h hleft hfits
      cases lines with
      | nil => exact trivial
      | cons l rest =>
        rcases branches_cons_eq_ok_iff.1 h with ⟨-, -, rfl⟩ | ⟨hdeep, -, hread⟩ |
          ⟨hstands, hcode, b, after, more, hbranch, hread, -⟩
        · exact hfits
        · exact fits_comment hdeep (ih.branches hread hleft hfits) fun next others hnext hle =>
            (branches_next hread hleft hnext hle).1
        · have hafter : ¬Deeper (l.indent + 1) after := by
            rw [hstands]
            exact not_deeper_of_branches hread hleft
          exact fits_code hcode (branch_fits ih hbranch hafter (ih.branches hread hleft hfits))

theorem properties_fit {header : Nat} {a a' : Agent} (h : properties header a lines = .ok (a', left))
    (hleft : ¬Deeper (header + 1) left) (hfits : Fits left) : Fits lines := by
  induction lines generalizing a with
  | nil => exact trivial
  | cons l rest ih =>
    rcases properties_cons_eq_ok_iff.1 h with ⟨-, -, -, rfl⟩ | ⟨hcomment, hdeep, hread⟩ | ⟨-, -, -, rfl⟩ | ⟨hcode, -, b, -, hread⟩
    · exact hfits
    · refine ⟨fun _ next others hnext => .inl ?_, ih hread⟩
      rcases Nat.lt_or_ge header next.indent with hbelow | hle
      · rw [(properties_next hread hleft hnext hbelow).1]
        exact hdeep
      · rw [indentStep] at hdeep
        omega
    · exact hfits
    · exact fits_code hcode (ih hread)

/-- All comments of a program fit. -/
theorem top_fits {depth : Nat} {agents agents' : Agents} {stmts : List Stmt} (hbound : lines.length < depth)
    (h : top depth agents lines = .ok (agents', stmts)) : Fits lines := by
  induction depth generalizing agents lines stmts with
  | zero => exact absurd hbound (Nat.not_lt_zero _)
  | succ depth ih =>
    cases lines with
    | nil => exact trivial
    | cons l rest =>
      have hshort : rest.length < depth := Nat.lt_of_succ_lt_succ hbound
      rcases top_cons_eq_ok_iff.1 h with ⟨hcomment, more, hread, -⟩ | ⟨hcode, hstands, -, agents'', after, hdefined, hread⟩ |
        ⟨hcode, hstands, -, s, after, more, hstmt, hread, -⟩
      · exact fits_comment (Nat.zero_le _) (ih hshort hread) fun next others hnext _ => (top_next hshort hread hnext).1
      · obtain ⟨name, a, -, -, hproperties, -⟩ := agent_eq_ok_iff.1 hdefined
        obtain ⟨used, rfl, -⟩ := agent_deeper hdefined
        rw [List.length_append] at hshort
        have hafter := not_deeper_of_top (by omega) hread
        rw [← Nat.zero_add 1, ← hstands] at hafter
        exact fits_code hcode (properties_fit hproperties hafter (ih (by omega) hread))
      · have hafterShort := Nat.lt_of_le_of_lt (length_of_statement hcode hstands hstmt) hshort
        have hafter := not_deeper_of_top hafterShort hread
        rw [← Nat.zero_add 1, ← hstands] at hafter
        exact fits_code hcode (statement_fits (fitting_block depth) hstmt hafter (ih hafterShort hread))

instance decidableFits : (lines : List Line) → Decidable (Fits lines)
  | [] => .isTrue trivial
  | l :: rest =>
    have := decidableFits rest
    have : Decidable (∀ next others, nextCode rest = some (next, others) →
        next.indent ≤ l.indent ∨ opensClause next.text = true) :=
      match nextCode rest with
      | none => .isTrue nofun
      | some (next, others) =>
        decidable_of_iff (next.indent ≤ l.indent ∨ opensClause next.text = true)
          ⟨fun h _ _ hfound => by cases hfound; exact h, fun h => h next others rfl⟩
    inferInstanceAs (Decidable (_ ∧ _))

theorem nextCode_dropWhile (lines : List Line) : nextCode (lines.dropWhile (·.isComment)) = nextCode lines := by
  induction lines with
  | nil => rfl
  | cons l rest ih =>
    cases hcomment : l.isComment with
    | true => rw [List.dropWhile_cons_of_pos hcomment, ih, nextCode_cons_comment hcomment]
    | false => rw [List.dropWhile_cons_of_neg (by rw [hcomment]; exact Bool.false_ne_true)]

/-- Comments at the head of a program fit, because the first code line stands at the top level. -/
theorem fits_header (h : Fits (lines.dropWhile (·.isComment)))
    (hnext : ∀ next others, nextCode (lines.dropWhile (·.isComment)) = some (next, others) → next.indent = 0) : Fits lines := by
  induction lines with
  | nil => exact trivial
  | cons l rest ih =>
    cases hcomment : l.isComment with
    | false =>
      rw [List.dropWhile_cons_of_neg (by rw [hcomment]; exact Bool.false_ne_true)] at h
      exact h
    | true =>
      rw [List.dropWhile_cons_of_pos hcomment] at h hnext
      refine fits_comment (Nat.zero_le _) (ih h hnext) fun next others hfound _ => hnext next others ?_
      rw [nextCode_dropWhile, hfound]

end Parser

/-! ## Lines with comments -/

/-- What becomes of the lines of a source when comments are added to it. -/
inductive Markup where
  /-- A line stays, and may get a comment behind it. -/
  | kept (raw : List Char) (comment : Option (List Char))
  /-- A comment line is added, this far to the right. -/
  | added (indent : Nat) (comment : List Char)

namespace Markup

/-- The lines of the source. -/
def before : List Markup → List (List Char)
  | [] => []
  | .kept raw _ :: rest => raw :: before rest
  | .added _ _ :: rest => before rest

/-- A line with a comment behind it, if there is one. -/
def commented (raw : List Char) : Option (List Char) → List Char
  | none => raw
  | some comment => raw ++ ' ' :: '#' :: comment

/-- The lines of the source with the comments. -/
def after : List Markup → List (List Char)
  | [] => []
  | .kept raw comment :: rest => commented raw comment :: after rest
  | .added indent comment :: rest => (List.replicate indent ' ' ++ '#' :: comment) :: after rest

/-- Whether a line opens a block of raw lines. -/
def opens (raw : List Char) : Bool :=
  match Line.shape raw with
  | .code _ text => opensBlock text
  | _ => false

/-- Whether a line is code. -/
def isCode (raw : List Char) : Bool :=
  match Line.shape raw with
  | .code _ _ => true
  | _ => false

/-- A line of code that does not end in a string literal. -/
def Closed (raw : List Char) : Prop :=
  isCode raw = true ∧ Quoting.outside.after raw ≠ some .inside ∧ Quoting.outside.after raw ≠ some .escaped

instance (raw : List Char) : Decidable (Closed raw) :=
  inferInstanceAs (Decidable (_ ∧ _))

/-- Comments are added behind lines of code and between lines, neither in string literals nor in blocks of raw lines; `inside` says
    whether the lines so far end in such a block. -/
def Outside : Bool → List Markup → Prop
  | _, [] => True
  | true, .kept raw comment :: rest => comment = none ∧ Outside (trim raw ≠ tripleQuote) rest
  | false, .kept raw comment :: rest => (comment.isSome = true → Closed raw) ∧ Outside (opens raw) rest
  | inside, .added _ _ :: rest => inside = false ∧ Outside false rest

instance decidableOutside : (inside : Bool) → (m : List Markup) → Decidable (Outside inside m)
  | _, [] => .isTrue trivial
  | true, .kept raw comment :: rest =>
    have := decidableOutside (trim raw ≠ tripleQuote) rest
    inferInstanceAs (Decidable (comment = none ∧ Outside (trim raw ≠ tripleQuote) rest))
  | false, .kept raw comment :: rest =>
    have := decidableOutside (opens raw) rest
    inferInstanceAs (Decidable ((comment.isSome = true → Closed raw) ∧ Outside (opens raw) rest))
  | true, .added _ _ :: rest =>
    have := decidableOutside false rest
    inferInstanceAs (Decidable (true = false ∧ Outside false rest))
  | false, .added _ _ :: rest =>
    have := decidableOutside false rest
    inferInstanceAs (Decidable (false = false ∧ Outside false rest))

/-- The comment behind a line does not change what the line is. -/
theorem shape_commented {raw : List Char} {comment : Option (List Char)} (h : comment.isSome = true → Closed raw) :
    Line.shape (commented raw comment) = Line.shape raw := by
  cases comment with
  | none => rfl
  | some comment =>
    obtain ⟨hcode, hclosed⟩ := h rfl
    unfold isCode at hcode
    split at hcode
    · rename_i indent text hshape
      exact Line.shape_append_comment hshape hclosed
    · cases hcode

/-- Two readers of raw lines are outside of blocks, or in blocks that two lines open which differ in their numbers only. -/
inductive Alike : Option (Line × List (List Char)) → Option (Line × List (List Char)) → Prop where
  | outside : Alike none none
  | inside {line line' : Line} {block : List (List Char)} (same : line.unnumbered = line'.unnumbered) :
      Alike (some (line, block)) (some (line', block))

/-- The source with the comments has the same code lines, wherever it goes on from. -/
def Carried (m : List Markup) : Prop :=
  ∀ {opened opened' : Option (Line × List (List Char))} (number number' : Nat) (read : List Line), Alike opened opened' →
    Outside opened.isSome m → Line.ofRaw opened number (before m) = .ok read →
    ∃ read', Line.ofRaw opened' number' (after m) = .ok read' ∧ Parser.code read = Parser.code read'

variable {rest : List Markup} {number number' : Nat} {read : List Line}

theorem carried_nil : Carried [] := by
  intro opened opened' number number' read halike _ h
  cases halike with
  | outside =>
    cases h
    exact ⟨[], rfl, rfl⟩
  | inside => cases h

/-- A comment line is read over between lines. -/
theorem carried_added (indent : Nat) (comment : List Char) (ih : Carried rest) : Carried (.added indent comment :: rest) := by
  intro opened opened' number number' read halike hm h
  cases halike with
  | inside => exact absurd hm.1 Bool.true_eq_false.mp
  | outside =>
    obtain ⟨read', hread', hsame⟩ := ih number (number' + 1) read .outside hm.2 h
    have hshape := Line.shape_indented (c := '#') rfl indent comment
    rw [if_pos rfl] at hshape
    refine ⟨⟨number', indent, trimEnd ('#' :: comment), true, none⟩ :: read', ?_, hsame.trans (Parser.code_comment rfl).symm⟩
    rw [after, Line.ofRaw, hshape]
    exact bind_eq_ok.2 ⟨read', hread', rfl⟩

/-- Two lines that are alike go before lines with the same code. -/
theorem cons_alike {line line' : Line} {x x' : Except Error (List Line)} (h : (do return line :: (← x)) = Except.ok read)
    (hline : line.unnumbered = line'.unnumbered)
    (hrest : ∀ read, x = .ok read → ∃ read', x' = .ok read' ∧ Parser.code read = Parser.code read') :
    ∃ read', (do return line' :: (← x')) = Except.ok read' ∧ Parser.code read = Parser.code read' := by
  obtain ⟨more, hmore, hread⟩ := bind_eq_ok.1 h
  obtain ⟨more', hmore', hsame⟩ := hrest more hmore
  cases hread
  have hcomment : line.isComment = line'.isComment := by
    cases line
    cases line'
    cases hline
    rfl
  refine ⟨line' :: more', bind_eq_ok.2 ⟨more', hmore', rfl⟩, ?_⟩
  cases hcode : line'.isComment with
  | true => rw [Parser.code_comment (hcomment.trans hcode), Parser.code_comment hcode, hsame]
  | false => rw [Parser.code_cons (hcomment.trans hcode), Parser.code_cons hcode, hline, hsame]

/-- A line between blocks is what it was without the comment behind it. -/
theorem kept_outside (raw : List Char) (comment : Option (List Char)) (ih : Carried rest)
    (hm : Outside false (.kept raw comment :: rest)) (h : Line.ofRaw none number (before (.kept raw comment :: rest)) = .ok read) :
    ∃ read', Line.ofRaw none number' (after (.kept raw comment :: rest)) = .ok read' ∧
      Parser.code read = Parser.code read' := by
  obtain ⟨hclosed, hrest⟩ := hm
  rw [opens] at hrest
  rw [before, Line.ofRaw] at h
  rw [after, Line.ofRaw, shape_commented hclosed]
  cases hshape : Line.shape raw with
  | blank =>
    rw [hshape] at h hrest
    exact ih _ _ _ .outside hrest h
  | tab =>
    rw [hshape] at h
    cases h
  | comment indent text =>
    rw [hshape] at h hrest
    exact cons_alike h rfl fun read => ih _ _ read .outside hrest
  | code indent text =>
    rw [hshape] at h hrest
    simp only at h hrest ⊢
    cases hopens : opensBlock text with
    | true =>
      rw [hopens] at hrest
      rw [hopens, if_pos rfl] at h
      rw [if_pos rfl]
      refine ih _ _ _ (.inside ?_) hrest h
      rfl
    | false =>
      rw [hopens] at hrest
      rw [hopens, if_neg Bool.false_ne_true] at h
      rw [if_neg Bool.false_ne_true]
      exact cons_alike h rfl fun read => ih _ _ read .outside hrest

/-- A line in a block stays as it is, and so does the line that ends the block. -/
theorem kept_inside {line line' : Line} {block : List (List Char)} (hline : line.unnumbered = line'.unnumbered) (raw : List Char)
    (comment : Option (List Char)) (ih : Carried rest) (hm : Outside true (.kept raw comment :: rest))
    (h : Line.ofRaw (some (line, block)) number (before (.kept raw comment :: rest)) = .ok read) :
    ∃ read', Line.ofRaw (some (line', block)) number' (after (.kept raw comment :: rest)) = .ok read' ∧
      Parser.code read = Parser.code read' := by
  obtain ⟨rfl, hrest⟩ := hm
  rw [before, Line.ofRaw] at h
  rw [after, commented, Line.ofRaw]
  by_cases hends : trim raw = tripleQuote
  · rw [if_pos hends] at h ⊢
    rw [decide_eq_false (not_not_intro hends)] at hrest
    exact cons_alike h (congrArg (fun l : Line => { l with block := some block.reverse }) hline) fun read =>
      ih _ _ read .outside hrest
  · rw [if_neg hends] at h ⊢
    rw [decide_eq_true hends] at hrest
    exact ih _ _ _ (.inside hline) hrest h

theorem carried (m : List Markup) : Carried m := by
  induction m with
  | nil => exact carried_nil
  | cons first rest ih =>
    cases first with
    | added indent comment => exact carried_added indent comment ih
    | kept raw comment =>
      intro opened opened' number number' read halike hm h
      cases halike with
      | outside => exact kept_outside raw comment ih hm h
      | inside same => exact kept_inside same raw comment ih hm h

end Markup

namespace Parser

variable {lines lines' : List Line}

theorem code_dropWhile (lines : List Line) : code (lines.dropWhile (·.isComment)) = code lines := by
  rw [code, codeLines_dropWhile, code]

theorem length_dropWhile_lt (lines : List Line) : (lines.dropWhile (·.isComment)).length < lines.length + 1 :=
  Nat.lt_succ_of_le (List.dropWhile_sublist _).length_le

theorem Fits.dropWhile (h : Fits lines) : Fits (lines.dropWhile (·.isComment)) := by
  rw [← List.takeWhile_append_dropWhile (p := (·.isComment)) (l := lines)] at h
  exact h.of_append

/-- A program is read from lines with the same code if and only if the comments among them fit, and it is the same one but for the
    comments. -/
theorem top_iff_fits {agents : Agents} {stmts : List Stmt} (hsame : code lines = code lines')
    (h : top (lines.length + 1) [] (lines.dropWhile (·.isComment)) = .ok (agents, stmts)) :
    ((∃ result, top (lines'.length + 1) [] (lines'.dropWhile (·.isComment)) = .ok result) ↔ Fits lines') ∧
      ∀ agents' stmts', top (lines'.length + 1) [] (lines'.dropWhile (·.isComment)) = .ok (agents', stmts') →
        agents' = agents ∧ Stmt.uncommentedAll stmts' = Stmt.uncommentedAll stmts := by
  have hcode : code (lines.dropWhile (·.isComment)) = code (lines'.dropWhile (·.isComment)) := by
    rw [code_dropWhile, code_dropWhile, hsame]
  have hfits {agents' : Agents} {stmts' : List Stmt}
      (hread : top (lines'.length + 1) [] (lines'.dropWhile (·.isComment)) = .ok (agents', stmts')) : Fits lines' :=
    fits_header (top_fits (length_dropWhile_lt lines') hread) fun _ _ hnext =>
      (top_next (length_dropWhile_lt lines') hread hnext).1
  have htracks (hfits : Fits lines') :=
    top_tracks (length_dropWhile_lt lines) (length_dropWhile_lt lines') hcode hfits.dropWhile h
  refine ⟨⟨fun ⟨_, hread⟩ => hfits hread, fun h => ?_⟩, fun agents' stmts' hread => ?_⟩
  · obtain ⟨stmts', hread, -⟩ := htracks h
    exact ⟨_, hread⟩
  · obtain ⟨stmts'', hread', hstmts⟩ := htracks (hfits hread)
    rw [hread] at hread'
    cases hread'
    exact ⟨rfl, hstmts⟩

end Parser

/-! ## Statement -/

/-- **Comments change nothing where they fit.** When comments are added to a source that can be read, outside of string literals and
    of blocks of raw lines, the source can still be read if and only if no comment line stands to the left of the next code line,
    or only before a clause of a `try`. It then has the same agents and, without comments, the same statements. -/
theorem comments_transparent {source commented : String} {m : List Markup} {p : Program}
    (hbefore : lines source.toList = Markup.before m) (hafter : lines commented.toList = Markup.after m)
    (houtside : Markup.Outside false m) (h : parse source = .ok p) :
    ∃ read, Line.ofSource commented = .ok read ∧ ((∃ q, parse commented = .ok q) ↔ Parser.Fits read) ∧
      ∀ q, parse commented = .ok q →
        q.agents = p.agents ∧ Stmt.uncommentedAll q.statements = Stmt.uncommentedAll p.statements := by
  obtain ⟨before, hlines, htop, -⟩ := parse_eq_ok_iff.1 h
  rw [Line.ofSource, hbefore] at hlines
  obtain ⟨read, hread, hsame⟩ := Markup.carried m 1 1 before .outside houtside hlines
  rw [← hafter] at hread
  obtain ⟨hiff, hprogram⟩ := Parser.top_iff_fits hsame htop
  refine ⟨read, hread, ?_, fun q hq => ?_⟩
  · rw [← hiff]
    constructor
    · rintro ⟨q, hq⟩
      obtain ⟨found, hfound, htop', -⟩ := parse_eq_ok_iff.1 hq
      cases hread.symm.trans hfound
      exact ⟨_, htop'⟩
    · rintro ⟨⟨agents, statements⟩, htop'⟩
      exact ⟨⟨_, agents, statements⟩, parse_eq_ok_iff.2 ⟨read, hread, htop', rfl⟩⟩
  · obtain ⟨found, hfound, htop', -⟩ := parse_eq_ok_iff.1 hq
    cases hread.symm.trans hfound
    exact hprogram _ _ htop'

/-- A loop over two sessions. -/
def twice : String :=
  "repeat 2:\n  session \"A\"\n  session \"B\"\n"

/-- A loop over two sessions with two comments, one of which stands on a line of its own. -/
def noted (indent : Nat) : String :=
  "repeat 2: # twice\n  session \"A\"\n" ++ String.ofList (List.replicate indent ' ') ++ "# note\n  session \"B\"\n"

/-- The comments that are added. -/
def notes (indent : Nat) : List Markup :=
  [.kept "repeat 2:".toList (some " twice".toList), .kept "  session \"A\"".toList none, .added indent " note".toList,
    .kept "  session \"B\"".toList none]

/-- The comment may stand as deep as the line behind it, but not to the left of it. -/
theorem comments_transparent_twice :
    ∃ p, parse twice = .ok p ∧
      (∃ q, parse (noted 2) = .ok q ∧ Stmt.uncommentedAll q.statements = Stmt.uncommentedAll p.statements) ∧
      ¬∃ q, parse (noted 0) = .ok q := by
  have hread : (parse twice).toOption.isSome = true := by
    decide +kernel
  cases hparse : parse twice with
  | error e =>
    rw [hparse] at hread
    cases hread
  | ok p =>
    have hlines : lines twice.toList = Markup.before (notes 0) := by
      decide +kernel
    obtain ⟨read, hdeep, hiff, hsame⟩ :=
      comments_transparent (m := notes 2) hlines (show lines (noted 2).toList = _ by decide +kernel) (by decide +kernel) hparse
    obtain ⟨stray, hstray, hiff', -⟩ :=
      comments_transparent (m := notes 0) hlines (show lines (noted 0).toList = _ by decide +kernel) (by decide +kernel) hparse
    have hfits : (Line.ofSource (noted 2)).toOption.map (fun read => decide (Parser.Fits read)) = some true ∧
        (Line.ofSource (noted 0)).toOption.map (fun read => decide (Parser.Fits read)) = some false := by
      decide +kernel
    rw [hdeep, hstray] at hfits
    obtain ⟨q, hq⟩ := hiff.2 (of_decide_eq_true (Option.some.inj hfits.1))
    refine ⟨p, rfl, ⟨q, hq, (hsame q hq).2⟩, ?_⟩
    rw [hiff']
    exact of_decide_eq_false (Option.some.inj hfits.2)

end Playbook.Program
