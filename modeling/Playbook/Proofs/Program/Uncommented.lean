import Playbook.Proofs.Program.Accepting
import Playbook.Proofs.Program.Layout

/-!
# `Proofs.Program.Uncommented` — lines that differ in comments only are read alike

Two lists of lines with the same code, numbers aside, are followed step by step: what the first pair of readers has accepted, the
second pair accepts, with the same result but for comments, and both leave the same code. Only the lines of the second list may
hinder that. A comment to the left of a block ends the block, even if the next code line goes on with it; so each comment has to
stand as deep as the code line behind it, at least. Clauses of a `try` are looked for behind all comments, so that these may stand
anywhere before one.

Where the first readers stop, comments can be left over that the second list has in another place. Therefore two readers are
compared by the code that they leave, and a statement about a block is one about the next code line behind the comments.

## Contents
- **Programs without comments.** `Stmt.uncommentedAll` and its like.
- **Code.** `code`; `Leaves` says that two readers leave the same code.
- **Comments that fit.** `Fits`; statements, branches and properties are no clauses.
- **Statements.** `Tracks`; `body_tracks`, `clause_tracks`, `statement_tracks`, `branch_tracks`.
- **Blocks.** `block_next` and `branches_next` for the next code line; `tracks_block`, by induction on the bound.
- **Programs.** `properties_track`, `top_next`, `top_tracks`.
-/

namespace Playbook

/-! ## Programs without comments -/

mutual

/-- A statement without the comments in it. -/
def Stmt.uncommented : Stmt → Stmt
  | .attempt body name handler final =>
    .attempt (Stmt.uncommentedAll body) name (Stmt.uncommentedClause handler) (Stmt.uncommentedClause final)
  | .parallel policy branches => .parallel policy (Branch.uncommentedAll branches)
  | .loop count body => .loop count (Stmt.uncommentedAll body)
  | s => s

/-- Statements in a row without comments, at every depth. -/
def Stmt.uncommentedAll : List Stmt → List Stmt
  | [] => []
  | s :: rest => if s.isComment then Stmt.uncommentedAll rest else s.uncommented :: Stmt.uncommentedAll rest

/-- A clause of a `try` without comments, if there is one. -/
def Stmt.uncommentedClause : Option (List Stmt) → Option (List Stmt)
  | none => none
  | some body => some (Stmt.uncommentedAll body)

/-- Branches in a row without comments. -/
def Branch.uncommentedAll : List Branch → List Branch
  | [] => []
  | .mk name s :: rest => .mk name s.uncommented :: Branch.uncommentedAll rest

end

/-- A branch without the comments in it. -/
def Branch.uncommented (b : Branch) : Branch :=
  .mk b.name b.stmt.uncommented

theorem Stmt.uncommentedAll_comment {s : Stmt} (h : s.isComment = true) (rest : List Stmt) :
    uncommentedAll (s :: rest) = uncommentedAll rest := by
  rw [uncommentedAll, if_pos h]

theorem Stmt.uncommentedAll_cons {s : Stmt} (h : s.isComment = false) (rest : List Stmt) :
    uncommentedAll (s :: rest) = s.uncommented :: uncommentedAll rest := by
  rw [uncommentedAll, h, if_neg Bool.false_ne_true]

theorem Branch.uncommentedAll_cons (b : Branch) (rest : List Branch) :
    uncommentedAll (b :: rest) = b.uncommented :: uncommentedAll rest := by
  cases b
  rw [uncommentedAll]
  rfl

theorem Stmt.uncommentedClause_eq_none_iff {clause : Option (List Stmt)} : uncommentedClause clause = none ↔ clause = none := by
  cases clause <;> simp [uncommentedClause]

namespace Program

open Text

/-- A line without its number. -/
def Line.unnumbered (l : Line) : Line :=
  { l with number := 0 }

namespace Parser

variable {r r' : Readers} {line line' l l' : Line} {lines lines' rest rest' left left' : List Line}

/-! ## Code -/

/-- The code lines among some lines, without their numbers. -/
def code (lines : List Line) : List Line :=
  (codeLines lines).map (·.unnumbered)

theorem code_comment (h : l.isComment = true) : code (l :: rest) = code rest := by
  rw [code, codeLines_cons_comment h, code]

theorem code_cons (h : l.isComment = false) : code (l :: rest) = l.unnumbered :: code rest := by
  rw [code, codeLines_cons_code h, code, List.map_cons]

theorem code_append (lines more : List Line) : code (lines ++ more) = code lines ++ code more := by
  rw [code, codeLines_append, List.map_append, code, code]

theorem code_of_nextCode (h : nextCode lines = some (l, rest)) : code lines = l.unnumbered :: code rest := by
  obtain ⟨skipped, rfl, hskipped, hcode⟩ := nextCode_eq_some h
  rw [code_append, code_cons hcode, code, hskipped]
  rfl

theorem code_of_none (h : nextCode lines = none) : code lines = [] := by
  induction lines with
  | nil => rfl
  | cons l rest ih =>
    cases hcomment : l.isComment with
    | true =>
      rw [nextCode_cons_comment hcomment] at h
      rw [code_comment hcomment, ih h]
    | false =>
      rw [nextCode_cons_code hcomment] at h
      cases h

/-- If the code is the same, so is the next code line and the code behind it. -/
theorem next_of_code (hsame : code lines = code lines') (h : nextCode lines' = some (l', rest')) :
    ∃ l rest, nextCode lines = some (l, rest) ∧ l.unnumbered = l'.unnumbered ∧ code rest = code rest' := by
  rw [code_of_nextCode h] at hsame
  cases hnext : nextCode lines with
  | none =>
    rw [code_of_none hnext] at hsame
    cases hsame
  | some found =>
    obtain ⟨l, rest⟩ := found
    rw [code_of_nextCode hnext] at hsame
    obtain ⟨hline, hrest⟩ := List.cons.inj hsame
    exact ⟨l, rest, rfl, hline, hrest⟩

/-- Without its number a line has the same indentation, text and block. -/
theorem eq_of_unnumbered (h : l.unnumbered = l'.unnumbered) : l.indent = l'.indent ∧ l.text = l'.text ∧ l.block = l'.block := by
  cases l
  cases l'
  cases h
  exact ⟨rfl, rfl, rfl⟩

/-- Two readers leave the same code; `lines'` is what the second one was given. -/
structure Leaves (lines' left left' : List Line) : Prop where
  same : code left = code left'
  suffix : ∃ used, lines' = used ++ left'

namespace Leaves

variable {middle middle' : List Line}

theorem refl (hsame : code lines = code lines') : Leaves lines' lines lines' :=
  ⟨hsame, [], rfl⟩

theorem trans (h : Leaves lines' middle middle') (h' : Leaves middle' left left') : Leaves lines' left left' := by
  obtain ⟨used, hused⟩ := h.suffix
  obtain ⟨more, hmore⟩ := h'.suffix
  exact ⟨h'.same, used ++ more, by rw [hused, hmore, List.append_assoc]⟩

theorem cons (h : Leaves rest' left left') : Leaves (l' :: rest') left left' := by
  obtain ⟨used, hused⟩ := h.suffix
  exact ⟨h.same, l' :: used, by rw [hused]; rfl⟩

theorem next (hnext : nextCode lines' = some (l', rest')) (h : Leaves rest' left left') : Leaves lines' left left' := by
  obtain ⟨skipped, rfl, -⟩ := nextCode_eq_some hnext
  obtain ⟨used, rfl⟩ := h.suffix
  exact ⟨h.same, skipped ++ l' :: used, by rw [List.append_assoc]; rfl⟩

theorem length_le (h : Leaves lines' left left') : left'.length ≤ lines'.length := by
  obtain ⟨used, rfl⟩ := h.suffix
  rw [List.length_append]
  exact Nat.le_add_left _ _

end Leaves

theorem nextCode_of_code (hsame : code lines = code []) : nextCode lines = none := by
  cases hnext : nextCode lines with
  | none => rfl
  | some found =>
    obtain ⟨_, _, hnone, -⟩ := next_of_code hsame.symm hnext
    cases hnone

/-- Where no code is left, none stands deeper. -/
theorem not_deeper_of_code {indent : Nat} (hsame : code lines = code []) : ¬Deeper indent lines := by
  rintro ⟨next, others, hnext, -⟩
  rw [nextCode_of_code hsame] at hnext
  cases hnext

/-- The body of a statement that was not cut off was not cut off. -/
theorem not_deeper_step {indent : Nat} (h : ¬Deeper (indent + 1) lines) : ¬Deeper (indent + indentStep) lines :=
  fun hdeeper => h (hdeeper.of_le (by rw [indentStep]; omega))

/-! ## Comments that fit -/

/-- Whether a line opens a clause of a `try`. -/
def opensClause (text : List Char) : Bool :=
  (Phrase.catchName? text).isSome || text = "finally:".toList

/-- No comment stands to the left of the next code line, unless that opens a clause of a `try`. -/
def Fits : List Line → Prop
  | [] => True
  | l :: rest =>
    (l.isComment = true → ∀ next others, nextCode rest = some (next, others) →
      next.indent ≤ l.indent ∨ opensClause next.text = true) ∧ Fits rest

theorem Fits.of_append {used : List Line} (h : Fits (used ++ left)) : Fits left := by
  induction used with
  | nil => exact h
  | cons l rest ih => exact ih h.2

theorem Leaves.fits (h : Leaves lines' left left') (hfits : Fits lines') : Fits left' := by
  obtain ⟨used, rfl⟩ := h.suffix
  exact hfits.of_append

theorem headerName?_eq_some {keyword text : List Char} {name : String} (h : Phrase.headerName? keyword text = some name) :
    ∃ more, text = keyword ++ (more ++ [':']) ∧ Phrase.isName (trim more) = true := by
  obtain ⟨behind, hbehind, h⟩ := Option.bind_eq_some_iff.1 h
  obtain ⟨more, hmore, h⟩ := Option.bind_eq_some_iff.1 h
  obtain ⟨reversed, hreversed, rfl⟩ := Option.map_eq_some_iff.1 hmore
  have hcolon : behind = reversed.reverse ++ [':'] := by
    rw [← List.reverse_reverse behind, stripPrefix_eq_some_iff.1 hreversed]
    simp
  refine ⟨reversed.reverse, by rw [← hcolon]; exact stripPrefix_eq_some_iff.1 hbehind, ?_⟩
  simp only at h
  split at h
  · assumption
  · cases h

/-- What opens a clause begins with the word for it and has no equals sign. -/
theorem eq_of_opensClause {text : List Char} (h : opensClause text = true) :
    (startsWith text "catch".toList || text = "finally:".toList) = true ∧ '=' ∉ text := by
  rw [opensClause, Bool.or_eq_true, decide_eq_true_eq] at h
  rcases h with hcatch | rfl
  · obtain ⟨name, hname⟩ := Option.isSome_iff_exists.1 hcatch
    unfold Phrase.catchName? at hname
    split at hname
    · rename_i htext
      rw [htext]
      exact ⟨by decide, by decide⟩
    · obtain ⟨found, hfound, -⟩ := Option.map_eq_some_iff.1 hname
      obtain ⟨more, rfl, hmore⟩ := headerName?_eq_some hfound
      refine ⟨rfl, fun hmem => ?_⟩
      have hother : '=' ∉ "catch as ".toList ∧ '=' ∉ [':'] := by decide
      rcases List.mem_append.1 ((List.mem_append.1 hmem).resolve_left hother.1) with hmem | hmem
      · exact Printer.not_mem_of_isName hmore (by decide) (mem_trim hmem (by decide))
      · exact hother.2 hmem
  · exact ⟨by decide, by decide⟩

/-- A clause is no statement, no branch and no property. -/
theorem not_clause_of_statement {s : Stmt} (h : statement r line rest = .ok (s, left)) : opensClause line.text = false := by
  rw [← Bool.not_eq_true]
  intro hclause
  obtain ⟨hstray, -⟩ := eq_of_opensClause hclause
  have htry : line.text ≠ "try:".toList := by
    intro htry
    rw [htry] at hstray
    revert hstray
    decide
  rw [statement] at h
  simp only at h
  rw [if_neg htry, if_pos hstray] at h
  cases h

theorem not_clause_of_branch {b : Branch} (h : branch r line rest = .ok (b, left)) : opensClause line.text = false := by
  rcases branch_eq_ok_iff.1 h with ⟨name, value, hsplit, -⟩ | ⟨-, s, hstmt, -⟩
  · rw [← Bool.not_eq_true]
    intro hclause
    obtain ⟨⟨before, after⟩, hfirst, -⟩ := Option.bind_eq_some_iff.1 hsplit
    obtain ⟨htext, -⟩ := splitFirst_eq_some hfirst
    exact (eq_of_opensClause hclause).2 (htext ▸ List.mem_append_right _ List.mem_cons_self)
  · exact not_clause_of_statement hstmt

theorem not_clause_of_property {a a' : Agent} (h : setProperty a line = .ok a') : opensClause line.text = false := by
  rw [← Bool.not_eq_true]
  intro hclause
  -- The name of a property begins with neither of the letters that clauses begin with.
  have hhead : ∃ c more, line.text = c :: more ∧ (c = 'c' ∨ c = 'f') := by
    rcases (Bool.or_eq_true _ _).mp (eq_of_opensClause hclause).1 with hcatch | hfinal
    · obtain ⟨more, hmore⟩ := Option.isSome_iff_exists.1 hcatch
      exact ⟨'c', _, stripPrefix_eq_some_iff.1 hmore, .inl rfl⟩
    · exact ⟨'f', _, of_decide_eq_true hfinal, .inr rfl⟩
  obtain ⟨c, more, htext, hc⟩ := hhead
  have hblank : isBlank c = false := by
    rcases hc with rfl | rfl <;> rfl
  unfold setProperty at h
  split at h
  · cases h
  · rename_i key value hsplit
    obtain ⟨heq, -⟩ := splitFirst_eq_some hsplit
    have hkey : ∃ rest, trim key = c :: rest := by
      cases key with
      | nil =>
        rw [htext] at heq
        cases heq
        rcases hc with hc | hc <;> cases hc
      | cons d key =>
        rw [htext] at heq
        cases heq
        refine ⟨trimEnd key, ?_⟩
        rw [trim, trimStart_of_head (by rintro _ ⟨⟩; exact hblank), ← List.nil_append (c :: key), trimEnd_append_cons hblank]
        rfl
    obtain ⟨rest, hrest⟩ := hkey
    have hother (name : String) (hname : name.toList.head? ≠ some c) : String.ofList (trim key) ≠ name := by
      rintro rfl
      rw [String.toList_ofList, hrest] at hname
      exact hname rfl
    have hmodel : "model".toList.head? ≠ some c := by rcases hc with rfl | rfl <;> decide
    have hpersist : "persist".toList.head? ≠ some c := by rcases hc with rfl | rfl <;> decide
    have hprompt : "prompt".toList.head? ≠ some c := by rcases hc with rfl | rfl <;> decide
    simp only at h
    rw [if_neg (hother _ hmodel), if_neg (hother _ hpersist), if_neg (hother _ hprompt)] at h
    cases h

/-! ## Statements -/

/-- A second pair of readers accepts what the first one has accepted, on lines with the same code and with comments that fit: with the
    same result, comments aside, and with the same code left, unless the block was cut off. -/
structure Tracks (r r' : Readers) (bound : Nat) : Prop where
  block : ∀ {indent : Nat} {lines lines' left : List Line} {stmts : List Stmt}, code lines = code lines' → Fits lines' →
    lines'.length < bound → ¬Deeper indent left → r.block indent lines = .ok (stmts, left) →
    ∃ stmts' left', r'.block indent lines' = .ok (stmts', left') ∧
      Stmt.uncommentedAll stmts' = Stmt.uncommentedAll stmts ∧ Leaves lines' left left'
  branches : ∀ {indent : Nat} {lines lines' left : List Line} {bs : List Branch}, code lines = code lines' → Fits lines' →
    lines'.length < bound → ¬Deeper indent left → r.branches indent lines = .ok (bs, left) →
    ∃ bs' left', r'.branches indent lines' = .ok (bs', left') ∧
      Branch.uncommentedAll bs' = Branch.uncommentedAll bs ∧ Leaves lines' left left'

section

variable {bound : Nat}

theorem checkBody_tracks {missing missing' : Fault} (hline : line.unnumbered = line'.unnumbered)
    (hsame : code lines = code lines') (h : checkBody line missing lines = .ok ()) :
    checkBody line' missing' lines' = .ok () := by
  obtain ⟨next, others, hnext, hindent⟩ := checkBody_eq_ok_iff.1 h
  obtain ⟨next', others', hnext', hnexts, -⟩ := next_of_code hsame.symm hnext
  refine checkBody_eq_ok_iff.2 ⟨next', others', hnext', ?_⟩
  rw [(eq_of_unnumbered hnexts).1, hindent, (eq_of_unnumbered hline).1]

theorem body_tracks (hr : Tracks r r' bound) (hline : line.unnumbered = line'.unnumbered) (hsame : code lines = code lines')
    (hfits : Fits lines') (hbound : lines'.length < bound) (hleft : ¬Deeper (line.indent + 1) left) {stmts : List Stmt}
    (h : body r line lines = .ok (stmts, left)) :
    ∃ stmts' left', body r' line' lines' = .ok (stmts', left') ∧
      Stmt.uncommentedAll stmts' = Stmt.uncommentedAll stmts ∧ Leaves lines' left left' := by
  obtain ⟨⟨⟩, hcheck, hread⟩ := bind_eq_ok.1 h
  obtain ⟨stmts', left', hread', hstmts, hleaves⟩ := hr.block hsame hfits hbound (not_deeper_step hleft) hread
  rw [(eq_of_unnumbered hline).1] at hread'
  exact ⟨stmts', left', bind_eq_ok.2 ⟨(), checkBody_tracks hline hsame hcheck, hread'⟩, hstmts, hleaves⟩

/-- A clause follows where one follows, whatever comments stand before it. -/
theorem clause_tracks (hr : Tracks r r' bound) (hsame : code lines = code lines') (hfits : Fits lines')
    (hbound : lines'.length < bound) {stmts : List Stmt} (hnext : nextCode lines = some (l, rest))
    (hleft : ¬Deeper (l.indent + 1) left) (h : body r l rest = .ok (stmts, left)) :
    ∃ l' rest' stmts' left', nextCode lines' = some (l', rest') ∧ l'.unnumbered = l.unnumbered ∧
      body r' l' rest' = .ok (stmts', left') ∧
      Stmt.uncommentedClause (some stmts') = Stmt.uncommentedClause (some stmts) ∧ Leaves lines' left left' := by
  obtain ⟨l', rest', hnext', hline, hrest⟩ := next_of_code hsame.symm hnext
  have hskip : Leaves lines' rest rest' := (Leaves.refl hrest.symm).next hnext'
  obtain ⟨stmts', left', hread, hstmts, hleaves⟩ :=
    body_tracks hr hline.symm hrest.symm (hskip.fits hfits) (Nat.lt_of_le_of_lt hskip.length_le hbound) hleft h
  exact ⟨l', rest', stmts', left', hnext', hline, hread, congrArg some hstmts, hskip.trans hleaves⟩

theorem catchClause_tracks (hr : Tracks r r' bound) {indent : Nat} (hsame : code lines = code lines') (hfits : Fits lines')
    (hbound : lines'.length < bound) (hleft : ¬Deeper (indent + 1) left) {name : Option String}
    {handler : Option (List Stmt)} (h : catchClause r indent lines = .ok ((name, handler), left)) :
    ∃ handler' left', catchClause r' indent lines' = .ok ((name, handler'), left') ∧
      Stmt.uncommentedClause handler' = Stmt.uncommentedClause handler ∧ Leaves lines' left left' := by
  rcases catchClause_eq_ok_iff.1 h with ⟨l, rest, stmts, hnext, rfl, hopens, htells, hread, rfl⟩ | ⟨hnone, rfl, rfl, rfl⟩
  · obtain ⟨l', rest', stmts', left', hnext', hline, hread', hstmts, hleaves⟩ :=
      clause_tracks hr hsame hfits hbound hnext hleft hread
    obtain ⟨hindent, htext, -⟩ := eq_of_unnumbered hline
    exact ⟨some stmts', left', catchClause_eq_ok_iff.2 (.inl ⟨l', rest', stmts', hnext', hindent, htext ▸ hopens, htext ▸ htells,
      hread', rfl⟩), hstmts, hleaves⟩
  · refine ⟨none, lines', catchClause_eq_ok_iff.2 (.inr ⟨fun l' rest' hnext' => ?_, rfl, rfl, rfl⟩), rfl, .refl hsame⟩
    obtain ⟨l, rest, hnext, hline, -⟩ := next_of_code hsame hnext'
    obtain ⟨hindent, htext, -⟩ := eq_of_unnumbered hline
    rw [← hindent, ← htext]
    exact hnone l rest hnext

theorem finallyClause_tracks (hr : Tracks r r' bound) {indent : Nat} (hsame : code lines = code lines') (hfits : Fits lines')
    (hbound : lines'.length < bound) (hleft : ¬Deeper (indent + 1) left) {final : Option (List Stmt)}
    (h : finallyClause r indent lines = .ok (final, left)) :
    ∃ final' left', finallyClause r' indent lines' = .ok (final', left') ∧
      Stmt.uncommentedClause final' = Stmt.uncommentedClause final ∧ Leaves lines' left left' := by
  rcases finallyClause_eq_ok_iff.1 h with ⟨l, rest, stmts, hnext, rfl, htells, hread, rfl⟩ | ⟨hnone, rfl, rfl⟩
  · obtain ⟨l', rest', stmts', left', hnext', hline, hread', hstmts, hleaves⟩ :=
      clause_tracks hr hsame hfits hbound hnext hleft hread
    obtain ⟨hindent, htext, -⟩ := eq_of_unnumbered hline
    exact ⟨some stmts', left', finallyClause_eq_ok_iff.2 (.inl ⟨l', rest', stmts', hnext', hindent, htext ▸ htells, hread', rfl⟩),
      hstmts, hleaves⟩
  · refine ⟨none, lines', finallyClause_eq_ok_iff.2 (.inr ⟨fun l' rest' hnext' => ?_, rfl, rfl⟩), rfl, .refl hsame⟩
    obtain ⟨l, rest, hnext, hline, -⟩ := next_of_code hsame hnext'
    obtain ⟨hindent, htext, -⟩ := eq_of_unnumbered hline
    rw [← hindent, ← htext]
    exact hnone l rest hnext

/-- If a `try` was not cut off, neither its body nor its handler was: no clause can follow one that was. -/
theorem not_deeper_of_clauses {indent : Nat} {name : Option String} {handler final : Option (List Stmt)}
    {afterBody afterHandler : List Line} (hcatch : catchClause r indent afterBody = .ok ((name, handler), afterHandler))
    (hfinal : finallyClause r indent afterHandler = .ok (final, left)) (hleft : ¬Deeper (indent + 1) left) :
    ¬Deeper (indent + 1) afterBody ∧ ¬Deeper (indent + 1) afterHandler := by
  have hafterHandler : ¬Deeper (indent + 1) afterHandler := by
    intro hdeeper
    obtain ⟨-, heq⟩ := (closed hfinal).of_deeper hdeeper
    rw [heq] at hleft
    exact hleft hdeeper
  refine ⟨fun hdeeper => ?_, hafterHandler⟩
  obtain ⟨-, heq⟩ := (caught hcatch).of_deeper hdeeper
  rw [heq] at hafterHandler
  exact hafterHandler hdeeper

theorem attempt_tracks (hr : Tracks r r' bound) (hline : line.unnumbered = line'.unnumbered) (hsame : code lines = code lines')
    (hfits : Fits lines') (hbound : lines'.length < bound) (hleft : ¬Deeper (line.indent + 1) left) {s : Stmt}
    (h : attempt r line lines = .ok (s, left)) :
    ∃ s' left', attempt r' line' lines' = .ok (s', left') ∧ s'.uncommented = s.uncommented ∧ s'.isComment = false ∧
      Leaves lines' left left' := by
  obtain ⟨tried, afterBody, name, handler, afterHandler, final, hread, hcatch, hfinal, hclause, rfl⟩ := attempt_eq_ok_iff.1 h
  obtain ⟨hafterBody, hafterHandler⟩ := not_deeper_of_clauses hcatch hfinal hleft
  obtain ⟨tried', afterBody', hread', htried, hbody⟩ := body_tracks hr hline hsame hfits hbound hafterBody hread
  have hboundBody := Nat.lt_of_le_of_lt hbody.length_le hbound
  obtain ⟨handler', afterHandler', hcatch', hhandler, hmore⟩ :=
    catchClause_tracks hr hbody.same (hbody.fits hfits) hboundBody hafterHandler hcatch
  have hboundHandler := Nat.lt_of_le_of_lt hmore.length_le hboundBody
  obtain ⟨final', left', hfinal', hfinals, hleaves⟩ :=
    finallyClause_tracks hr hmore.same (hmore.fits (hbody.fits hfits)) hboundHandler hleft hfinal
  rw [(eq_of_unnumbered hline).1] at hcatch' hfinal'
  refine ⟨.attempt tried' name handler' final', left', attempt_eq_ok_iff.2 ⟨tried', afterBody', name, handler', afterHandler',
    final', hread', hcatch', hfinal', ?_, rfl⟩, ?_, rfl, hbody.trans (hmore.trans hleaves)⟩
  · rintro ⟨rfl, rfl⟩
    exact hclause ⟨Stmt.uncommentedClause_eq_none_iff.1 hhandler.symm, Stmt.uncommentedClause_eq_none_iff.1 hfinals.symm⟩
  · rw [Stmt.uncommented, Stmt.uncommented, htried, hhandler, hfinals]

/-- A reader of statements keeps track if the reader of lists under it does. -/
theorem statement_tracks (hr : Tracks r r' bound) (hline : line.unnumbered = line'.unnumbered) (hsame : code lines = code lines')
    (hfits : Fits lines') (hbound : lines'.length < bound) (hleft : ¬Deeper (line.indent + 1) left) {s : Stmt}
    (h : statement r line lines = .ok (s, left)) :
    ∃ s' left', statement r' line' lines' = .ok (s', left') ∧ s'.uncommented = s.uncommented ∧ s'.isComment = false ∧
      Leaves lines' left left' := by
  obtain ⟨hindent, htext, -⟩ := eq_of_unnumbered hline
  rcases statement_eq_ok_iff.1 h with ⟨htry, hread⟩ | ⟨policy, bs, hopens, htells, hcheck, hread, rfl⟩ |
    ⟨text, count, looped, hopens, htells, hread, rfl⟩ | ⟨htells, rfl⟩
  · obtain ⟨s', left', hread', hs, hcode, hleaves⟩ := attempt_tracks hr hline hsame hfits hbound hleft hread
    exact ⟨s', left', statement_eq_ok_iff.2 (.inl ⟨htext ▸ htry, hread'⟩), hs, hcode, hleaves⟩
  · obtain ⟨bs', left', hread', hbs, hleaves⟩ := hr.branches hsame hfits hbound (not_deeper_step hleft) hread
    rw [hindent] at hread'
    refine ⟨.parallel policy bs', left', statement_eq_ok_iff.2 (.inr (.inl ⟨policy, bs', htext ▸ hopens, htext ▸ htells,
      checkBody_tracks hline hsame hcheck, hread', rfl⟩)), ?_, rfl, hleaves⟩
    rw [Stmt.uncommented, Stmt.uncommented, hbs]
  · obtain ⟨looped', left', hread', hlooped, hleaves⟩ := body_tracks hr hline hsame hfits hbound hleft hread
    refine ⟨.loop count looped', left', statement_eq_ok_iff.2 (.inr (.inr (.inl ⟨text, count, looped', htext ▸ hopens, htells,
      hread', rfl⟩))), ?_, rfl, hleaves⟩
    rw [Stmt.uncommented, Stmt.uncommented, hlooped]
  · exact ⟨s, lines', statement_eq_ok_iff.2 (.inr (.inr (.inr ⟨htext ▸ htells, rfl⟩))), rfl,
      Stmt.isComment_of_isSimple (isSimple_of_simple htells), .refl hsame⟩

theorem branch_tracks (hr : Tracks r r' bound) (hline : line.unnumbered = line'.unnumbered) (hsame : code lines = code lines')
    (hfits : Fits lines') (hbound : lines'.length < bound) (hleft : ¬Deeper (line.indent + 1) left) {b : Branch}
    (h : branch r line lines = .ok (b, left)) :
    ∃ b' left', branch r' line' lines' = .ok (b', left') ∧ b'.uncommented = b.uncommented ∧ Leaves lines' left left' := by
  obtain ⟨-, htext, -⟩ := eq_of_unnumbered hline
  rcases branch_eq_ok_iff.1 h with ⟨name, value, hsplit, htells, rfl⟩ | ⟨hsplit, s, hread, rfl⟩
  · exact ⟨b, lines', branch_eq_ok_iff.2 (.inl ⟨name, value, htext ▸ hsplit, htells, rfl⟩), rfl, .refl hsame⟩
  · obtain ⟨s', left', hread', hs, -, hleaves⟩ := statement_tracks hr hline hsame hfits hbound hleft hread
    refine ⟨.mk none s', left', branch_eq_ok_iff.2 (.inr ⟨htext ▸ hsplit, s', hread', rfl⟩), ?_, hleaves⟩
    show Branch.mk none s'.uncommented = Branch.mk none s.uncommented
    rw [hs]

end

/-! ## Blocks -/

theorem isComment_of_statement {s : Stmt} (h : statement r line rest = .ok (s, left)) : s.isComment = false := by
  rcases statement_eq_ok_iff.1 h with ⟨-, hread⟩ | ⟨policy, bs, -, -, -, -, rfl⟩ | ⟨text, count, looped, -, -, -, rfl⟩ | ⟨htells, -⟩
  · obtain ⟨tried, _, name, handler, _, final, -, -, -, -, rfl⟩ := attempt_eq_ok_iff.1 hread
    rfl
  · rfl
  · rfl
  · exact Stmt.isComment_of_isSimple (isSimple_of_simple htells)

section

variable {depth indent : Nat} {stmts : List Stmt} {bs : List Branch}

/-- Where no code line stands deep enough, a block holds comments only. -/
theorem block_shallow (h : block depth indent lines = .ok (stmts, left)) (hshallow : ¬Deeper indent lines) :
    Stmt.uncommentedAll stmts = [] ∧ code lines = code left := by
  induction depth generalizing lines stmts with
  | zero =>
    rw [block] at h
    cases h
    exact ⟨rfl, rfl⟩
  | succ depth ih =>
    cases lines with
    | nil =>
      rw [block_nil] at h
      cases h
      exact ⟨rfl, rfl⟩
    | cons l rest =>
      rcases block_cons_eq_ok_iff.1 h with ⟨-, rfl, rfl⟩ | ⟨-, hcomment, more, hread, rfl⟩ | ⟨hstands, hcode, -⟩
      · exact ⟨rfl, rfl⟩
      · rw [deeper_comment hcomment] at hshallow
        obtain ⟨hmore, hleft⟩ := ih hread hshallow
        refine ⟨?_, (code_comment hcomment).trans hleft⟩
        split
        · rw [Stmt.uncommentedAll_comment rfl, hmore]
        · exact hmore
      · exact absurd ((deeper_code hcode).2 (Nat.le_of_eq hstands.symm)) hshallow

/-- Where the next code line stands deep enough, a block that was not cut off goes on with it. -/
theorem block_next (h : block depth indent lines = .ok (stmts, left)) (hleft : ¬Deeper indent left)
    (hnext : nextCode lines = some (l, rest)) (hdeep : indent ≤ l.indent) :
    l.indent = indent ∧ opensAgent l = false ∧ ∃ d s after more,
      statement ⟨block d, branches d⟩ l rest = .ok (s, after) ∧ block d indent after = .ok (more, left) ∧
      Stmt.uncommentedAll stmts = s.uncommented :: Stmt.uncommentedAll more := by
  induction depth generalizing lines stmts with
  | zero =>
    rw [block] at h
    cases h
    exact absurd ⟨l, rest, hnext, hdeep⟩ hleft
  | succ depth ih =>
    cases lines with
    | nil => cases hnext
    | cons first others =>
      rcases block_cons_eq_ok_iff.1 h with ⟨-, -, rfl⟩ | ⟨-, hcomment, more, hread, rfl⟩ |
        ⟨hstands, hcode, hagent, s, after, more, hstmt, hread, rfl⟩
      · exact absurd ⟨l, rest, hnext, hdeep⟩ hleft
      · rw [nextCode_cons_comment hcomment] at hnext
        obtain ⟨hstands, hagent, d, s, after, more', hstmt, hread', hmore⟩ := ih hread hnext
        refine ⟨hstands, hagent, d, s, after, more', hstmt, hread', ?_⟩
        split
        · rw [Stmt.uncommentedAll_comment rfl, hmore]
        · exact hmore
      · rw [nextCode_cons_code hcode] at hnext
        cases hnext
        exact ⟨hstands, hagent, depth, s, after, more, hstmt, hread, Stmt.uncommentedAll_cons (isComment_of_statement hstmt) more⟩

theorem branches_shallow (h : branches depth indent lines = .ok (bs, left)) (hshallow : ¬Deeper indent lines) :
    bs = [] ∧ code lines = code left := by
  induction depth generalizing lines bs with
  | zero =>
    rw [branches] at h
    cases h
    exact ⟨rfl, rfl⟩
  | succ depth ih =>
    cases lines with
    | nil =>
      rw [branches_nil] at h
      cases h
      exact ⟨rfl, rfl⟩
    | cons l rest =>
      rcases branches_cons_eq_ok_iff.1 h with ⟨-, rfl, rfl⟩ | ⟨-, hcomment, hread⟩ | ⟨hstands, hcode, -⟩
      · exact ⟨rfl, rfl⟩
      · rw [deeper_comment hcomment] at hshallow
        obtain ⟨hbs, hleft⟩ := ih hread hshallow
        exact ⟨hbs, (code_comment hcomment).trans hleft⟩
      · exact absurd ((deeper_code hcode).2 (Nat.le_of_eq hstands.symm)) hshallow

theorem branches_next (h : branches depth indent lines = .ok (bs, left)) (hleft : ¬Deeper indent left)
    (hnext : nextCode lines = some (l, rest)) (hdeep : indent ≤ l.indent) :
    l.indent = indent ∧ ∃ d b after more, branch ⟨block d, branches d⟩ l rest = .ok (b, after) ∧
      branches d indent after = .ok (more, left) ∧ bs = b :: more := by
  induction depth generalizing lines bs with
  | zero =>
    rw [branches] at h
    cases h
    exact absurd ⟨l, rest, hnext, hdeep⟩ hleft
  | succ depth ih =>
    cases lines with
    | nil => cases hnext
    | cons first others =>
      rcases branches_cons_eq_ok_iff.1 h with ⟨-, -, rfl⟩ | ⟨-, hcomment, hread⟩ |
        ⟨hstands, hcode, b, after, more, hbranch, hread, rfl⟩
      · exact absurd ⟨l, rest, hnext, hdeep⟩ hleft
      · rw [nextCode_cons_comment hcomment] at hnext
        exact ih hread hnext
      · rw [nextCode_cons_code hcode] at hnext
        cases hnext
        exact ⟨hstands, depth, b, after, more, hbranch, hread, rfl⟩

/-- A comment that fits does not end a block before a line that goes on with it. -/
theorem next_le_of_fits (hsame : code lines = code (l' :: rest')) (hfits : Fits (l' :: rest'))
    (hnext : nextCode lines = some (l, rest)) (hclause : opensClause l.text = false) : l.indent ≤ l'.indent := by
  obtain ⟨next', others', hnext', hline, -⟩ := next_of_code hsame.symm hnext
  obtain ⟨hindent, htext, -⟩ := eq_of_unnumbered hline
  cases hcomment : l'.isComment with
  | true =>
    rw [nextCode_cons_comment hcomment] at hnext'
    rcases hfits.1 hcomment next' others' hnext' with hle | hopens
    · omega
    · rw [htext, hclause] at hopens
      cases hopens
  | false =>
    rw [nextCode_cons_code hcomment] at hnext'
    cases hnext'
    omega

theorem block_tracks (ih : ∀ d, Tracks ⟨block d, branches d⟩ ⟨block depth, branches depth⟩ depth) {d : Nat}
    (hsame : code lines = code lines') (hfits : Fits lines') (hbound : lines'.length < depth + 1)
    (hleft : ¬Deeper indent left) (h : block d indent lines = .ok (stmts, left)) :
    ∃ stmts' left', block (depth + 1) indent lines' = .ok (stmts', left') ∧
      Stmt.uncommentedAll stmts' = Stmt.uncommentedAll stmts ∧ Leaves lines' left left' := by
  have hdone (hshallow : ¬Deeper indent lines) (hread : block (depth + 1) indent lines' = .ok ([], lines')) :
      ∃ stmts' left', block (depth + 1) indent lines' = .ok (stmts', left') ∧
        Stmt.uncommentedAll stmts' = Stmt.uncommentedAll stmts ∧ Leaves lines' left left' := by
    obtain ⟨hempty, hcode⟩ := block_shallow h hshallow
    exact ⟨[], lines', hread, hempty.symm, .refl (hcode.symm.trans hsame)⟩
  cases lines' with
  | nil =>
    exact hdone (not_deeper_of_code hsame) (block_nil _ _)
  | cons l' rest' =>
    rcases Nat.lt_or_ge l'.indent indent with hless | hle
    · refine hdone ?_ (block_cons_eq_ok_iff.2 (.inl ⟨hless, rfl, rfl⟩))
      -- What stands deeper behind a comment would be a statement of the block.
      rintro ⟨next, others, hnext, hdeep⟩
      obtain ⟨-, -, _, _, _, _, hstmt, -⟩ := block_next h hleft hnext hdeep
      have hnextle := next_le_of_fits hsame hfits hnext (not_clause_of_statement hstmt)
      omega
    cases hcomment : l'.isComment with
    | true =>
      obtain ⟨stmts', left', hread', hstmts, hleaves⟩ :=
        (ih d).block (hsame.trans (code_comment hcomment)) hfits.2 (Nat.lt_of_succ_lt_succ hbound) hleft h
      refine ⟨_, left', block_cons_eq_ok_iff.2 (.inr (.inl ⟨hle, hcomment, stmts', hread', rfl⟩)), ?_, hleaves.cons⟩
      split
      · rw [Stmt.uncommentedAll_comment rfl, hstmts]
      · exact hstmts
    | false =>
      obtain ⟨l, rest, hnext, hline, hrest⟩ := next_of_code hsame (nextCode_cons_code hcomment)
      obtain ⟨hindent, htext, -⟩ := eq_of_unnumbered hline
      obtain ⟨hstands, hagent, d, s, after, more, hstmt, hread, hstmts⟩ := block_next h hleft hnext (hindent ▸ hle)
      have hafter : ¬Deeper (l.indent + 1) after := by
        rw [hstands]
        exact not_deeper_of_block hread hleft
      obtain ⟨s', after', hstmt', hs, hcode, hleaves⟩ :=
        statement_tracks (ih d) hline hrest hfits.2 (Nat.lt_of_succ_lt_succ hbound) hafter hstmt
      obtain ⟨more', left', hread', hmore, hmoreLeaves⟩ := (ih d).block hleaves.same (hleaves.fits hfits.2)
        (Nat.lt_of_le_of_lt hleaves.length_le (Nat.lt_of_succ_lt_succ hbound)) hleft hread
      have hagent' : opensAgent l' = false := by
        rw [opensAgent, ← htext]
        exact hagent
      refine ⟨s' :: more', left', block_cons_eq_ok_iff.2 (.inr (.inr ⟨hindent ▸ hstands, hcomment, hagent', s', after', more',
        hstmt', hread', rfl⟩)), ?_, (hleaves.trans hmoreLeaves).cons⟩
      rw [hstmts, Stmt.uncommentedAll_cons hcode, hs, hmore]

theorem branches_track (ih : ∀ d, Tracks ⟨block d, branches d⟩ ⟨block depth, branches depth⟩ depth) {d : Nat}
    (hsame : code lines = code lines') (hfits : Fits lines') (hbound : lines'.length < depth + 1)
    (hleft : ¬Deeper indent left) (h : branches d indent lines = .ok (bs, left)) :
    ∃ bs' left', branches (depth + 1) indent lines' = .ok (bs', left') ∧
      Branch.uncommentedAll bs' = Branch.uncommentedAll bs ∧ Leaves lines' left left' := by
  have hdone (hshallow : ¬Deeper indent lines) (hread : branches (depth + 1) indent lines' = .ok ([], lines')) :
      ∃ bs' left', branches (depth + 1) indent lines' = .ok (bs', left') ∧
        Branch.uncommentedAll bs' = Branch.uncommentedAll bs ∧ Leaves lines' left left' := by
    obtain ⟨rfl, hcode⟩ := branches_shallow h hshallow
    exact ⟨[], lines', hread, rfl, .refl (hcode.symm.trans hsame)⟩
  cases lines' with
  | nil =>
    exact hdone (not_deeper_of_code hsame) (branches_nil _ _)
  | cons l' rest' =>
    rcases Nat.lt_or_ge l'.indent indent with hless | hle
    · refine hdone ?_ (branches_cons_eq_ok_iff.2 (.inl ⟨hless, rfl, rfl⟩))
      rintro ⟨next, others, hnext, hdeep⟩
      obtain ⟨-, _, _, _, _, hbranch, -⟩ := branches_next h hleft hnext hdeep
      have hnextle := next_le_of_fits hsame hfits hnext (not_clause_of_branch hbranch)
      omega
    cases hcomment : l'.isComment with
    | true =>
      obtain ⟨bs', left', hread', hbs, hleaves⟩ :=
        (ih d).branches (hsame.trans (code_comment hcomment)) hfits.2 (Nat.lt_of_succ_lt_succ hbound) hleft h
      exact ⟨bs', left', branches_cons_eq_ok_iff.2 (.inr (.inl ⟨hle, hcomment, hread'⟩)), hbs, hleaves.cons⟩
    | false =>
      obtain ⟨l, rest, hnext, hline, hrest⟩ := next_of_code hsame (nextCode_cons_code hcomment)
      obtain ⟨hindent, -, -⟩ := eq_of_unnumbered hline
      obtain ⟨hstands, d, b, after, more, hbranch, hread, rfl⟩ := branches_next h hleft hnext (hindent ▸ hle)
      have hafter : ¬Deeper (l.indent + 1) after := by
        rw [hstands]
        exact not_deeper_of_branches hread hleft
      obtain ⟨b', after', hbranch', hb, hleaves⟩ :=
        branch_tracks (ih d) hline hrest hfits.2 (Nat.lt_of_succ_lt_succ hbound) hafter hbranch
      obtain ⟨more', left', hread', hmore, hmoreLeaves⟩ := (ih d).branches hleaves.same (hleaves.fits hfits.2)
        (Nat.lt_of_le_of_lt hleaves.length_le (Nat.lt_of_succ_lt_succ hbound)) hleft hread
      refine ⟨b' :: more', left', branches_cons_eq_ok_iff.2 (.inr (.inr ⟨hindent ▸ hstands, hcomment, b', after', more',
        hbranch', hread', rfl⟩)), ?_, (hleaves.trans hmoreLeaves).cons⟩
      rw [Branch.uncommentedAll_cons, Branch.uncommentedAll_cons, hb, hmore]

end

/-- Readers of blocks track one another, whatever bounds the first ones, if the second ones are given lines enough. -/
theorem tracks_block (depth d : Nat) : Tracks ⟨block d, branches d⟩ ⟨block depth, branches depth⟩ depth := by
  induction depth generalizing d with
  | zero => exact ⟨fun _ _ hbound => absurd hbound (Nat.not_lt_zero _), fun _ _ hbound => absurd hbound (Nat.not_lt_zero _)⟩
  | succ depth ih => exact ⟨block_tracks ih, branches_track ih⟩

/-! ## Programs -/

section

variable {header depth : Nat} {a a' : Agent} {agents agents' : Agents} {stmts : List Stmt}

theorem properties_shallow (h : properties header a lines = .ok (a', left)) (hshallow : ¬Deeper (header + 1) lines) :
    a' = a ∧ code lines = code left := by
  induction lines with
  | nil =>
    rw [properties] at h
    cases h
    exact ⟨rfl, rfl⟩
  | cons l rest ih =>
    rcases properties_cons_eq_ok_iff.1 h with ⟨-, -, rfl, rfl⟩ | ⟨hcomment, -, hread⟩ | ⟨-, -, rfl, rfl⟩ | ⟨hcode, hstands, -⟩
    · exact ⟨rfl, rfl⟩
    · rw [deeper_comment hcomment] at hshallow
      obtain ⟨ha, hleft⟩ := ih hread hshallow
      exact ⟨ha, (code_comment hcomment).trans hleft⟩
    · exact ⟨rfl, rfl⟩
    · refine absurd ((deeper_code hcode).2 ?_) hshallow
      rw [hstands, indentStep]
      omega

theorem properties_next (h : properties header a lines = .ok (a', left)) (hleft : ¬Deeper (header + 1) left)
    (hnext : nextCode lines = some (l, rest)) (hdeep : header + 1 ≤ l.indent) :
    l.indent = header + indentStep ∧ ∃ b, setProperty a l = .ok b ∧ properties header b rest = .ok (a', left) := by
  induction lines with
  | nil => cases hnext
  | cons first others ih =>
    rcases properties_cons_eq_ok_iff.1 h with ⟨-, -, -, rfl⟩ | ⟨hcomment, -, hread⟩ | ⟨-, -, -, rfl⟩ | ⟨hcode, hstands, b, hset, hread⟩
    · exact absurd ⟨l, rest, hnext, hdeep⟩ hleft
    · rw [nextCode_cons_comment hcomment] at hnext
      exact ih hread hnext
    · exact absurd ⟨l, rest, hnext, hdeep⟩ hleft
    · rw [nextCode_cons_code hcode] at hnext
      cases hnext
      exact ⟨hstands, b, hset, hread⟩

theorem setProperty_unnumbered (hline : l.unnumbered = l'.unnumbered) (a : Agent) : setProperty a l = setProperty a l' := by
  obtain ⟨-, htext, hblock⟩ := eq_of_unnumbered hline
  unfold setProperty
  rw [htext, hblock]

/-- The properties of an agent are read alike. -/
theorem properties_track (hsame : code lines = code lines') (hfits : Fits lines') (hleft : ¬Deeper (header + 1) left)
    (h : properties header a lines = .ok (a', left)) :
    ∃ left', properties header a lines' = .ok (a', left') ∧ Leaves lines' left left' := by
  induction lines' generalizing lines a with
  | nil =>
    obtain ⟨rfl, hcode⟩ := properties_shallow h (not_deeper_of_code hsame)
    exact ⟨[], rfl, .refl (hcode.symm.trans hsame)⟩
  | cons l' rest' ih =>
    cases hcomment : l'.isComment with
    | true =>
      rcases Nat.lt_or_ge l'.indent (header + indentStep) with hless | hle
      · have hshallow : ¬Deeper (header + 1) lines := by
          rintro ⟨next, others, hnext, hdeep⟩
          obtain ⟨hstands, b, hset, -⟩ := properties_next h hleft hnext hdeep
          have hnextle := next_le_of_fits hsame hfits hnext (not_clause_of_property hset)
          omega
        obtain ⟨rfl, hcode⟩ := properties_shallow h hshallow
        exact ⟨l' :: rest', properties_cons_eq_ok_iff.2 (.inl ⟨hcomment, hless, rfl, rfl⟩), .refl (hcode.symm.trans hsame)⟩
      · obtain ⟨left', hread', hleaves⟩ := ih (hsame.trans (code_comment hcomment)) hfits.2 h
        exact ⟨left', properties_cons_eq_ok_iff.2 (.inr (.inl ⟨hcomment, hle, hread'⟩)), hleaves.cons⟩
    | false =>
      obtain ⟨l, rest, hnext, hline, hrest⟩ := next_of_code hsame (nextCode_cons_code hcomment)
      obtain ⟨hindent, -, -⟩ := eq_of_unnumbered hline
      rcases Nat.lt_or_ge header l'.indent with hdeep | hle
      · obtain ⟨hstands, b, hset, hread⟩ := properties_next h hleft hnext (hindent ▸ hdeep)
        obtain ⟨left', hread', hleaves⟩ := ih hrest hfits.2 hread
        rw [setProperty_unnumbered hline] at hset
        exact ⟨left', properties_cons_eq_ok_iff.2 (.inr (.inr (.inr ⟨hcomment, hindent ▸ hstands, b, hset, hread'⟩))), hleaves.cons⟩
      · have hshallow : ¬Deeper (header + 1) lines := by
          rintro ⟨next, others, hnext', hdeep⟩
          rw [hnext] at hnext'
          cases hnext'
          omega
        obtain ⟨rfl, hcode⟩ := properties_shallow h hshallow
        exact ⟨l' :: rest', properties_cons_eq_ok_iff.2 (.inr (.inr (.inl ⟨hcomment, hle, rfl, rfl⟩))), .refl (hcode.symm.trans hsame)⟩

theorem agent_tracks (hline : line.unnumbered = line'.unnumbered) (hsame : code lines = code lines') (hfits : Fits lines')
    (hleft : ¬Deeper (line.indent + 1) left) (h : agent agents line lines = .ok (agents', left)) :
    ∃ left', agent agents line' lines' = .ok (agents', left') ∧ Leaves lines' left left' := by
  obtain ⟨hindent, htext, -⟩ := eq_of_unnumbered hline
  obtain ⟨name, a, hname, hnew, hread, rfl⟩ := agent_eq_ok_iff.1 h
  obtain ⟨left', hread', hleaves⟩ := properties_track hsame hfits hleft hread
  rw [hindent] at hread'
  exact ⟨left', agent_eq_ok_iff.2 ⟨name, a, htext ▸ hname, hnew, hread', rfl⟩, hleaves⟩

/-- A statement at the top level uses its first line at least. -/
theorem length_of_statement (hcode : line.isComment = false) (hstands : line.indent = 0) {s : Stmt}
    (h : statement ⟨block depth, branches depth⟩ line rest = .ok (s, left)) : left.length ≤ rest.length := by
  obtain ⟨⟨used, hlines, hused⟩, -, hs⟩ := (stated h).sound (d := 0) (sound_block depth) hcode hstands
  have hsome : used ≠ [] := by
    rintro rfl
    exact Listing.ofStmt_ne_nil hs (List.forall₂_nil_left_iff.1 hused)
  have hlength := congrArg List.length hlines
  have hpos := List.length_pos_iff.2 hsome
  rw [List.length_append, List.length_cons] at hlength
  omega

theorem top_shallow (h : top depth agents lines = .ok (agents', stmts)) (hnone : nextCode lines = none) :
    agents' = agents ∧ Stmt.uncommentedAll stmts = [] := by
  induction depth generalizing lines stmts with
  | zero =>
    rw [top] at h
    cases h
    exact ⟨rfl, rfl⟩
  | succ depth ih =>
    cases lines with
    | nil =>
      rw [top_nil] at h
      cases h
      exact ⟨rfl, rfl⟩
    | cons l rest =>
      cases hcomment : l.isComment with
      | true =>
        rw [nextCode_cons_comment hcomment] at hnone
        rcases top_cons_eq_ok_iff.1 h with ⟨-, more, hread, rfl⟩ | ⟨hcode, -⟩ | ⟨hcode, -⟩
        · obtain ⟨hagents, hmore⟩ := ih hread hnone
          refine ⟨hagents, ?_⟩
          split
          · rw [Stmt.uncommentedAll_comment rfl, hmore]
          · exact hmore
        · rw [hcomment] at hcode
          cases hcode
        · rw [hcomment] at hcode
          cases hcode
      | false =>
        rw [nextCode_cons_code hcomment] at hnone
        cases hnone

/-- The next code line at the top level opens an agent or a statement. -/
inductive Opened (agents : Agents) (l : Line) (rest : List Line) (agents' : Agents) (stmts : List Stmt) : Prop where
  | agent {d : Nat} {agents'' : Agents} {after : List Line} {more : List Stmt} (opens : opensAgent l = true)
      (defined : agent agents l rest = .ok (agents'', after)) (read : top d agents'' after = .ok (agents', more))
      (bound : after.length < d) (same : Stmt.uncommentedAll stmts = Stmt.uncommentedAll more)
  | stmt {d : Nat} {s : Stmt} {after : List Line} {more : List Stmt} (opens : opensAgent l = false)
      (stated : statement ⟨block d, branches d⟩ l rest = .ok (s, after)) (read : top d agents after = .ok (agents', more))
      (bound : after.length < d) (same : Stmt.uncommentedAll stmts = s.uncommented :: Stmt.uncommentedAll more)

theorem top_next (hbound : lines.length < depth) (h : top depth agents lines = .ok (agents', stmts))
    (hnext : nextCode lines = some (l, rest)) : l.indent = 0 ∧ Opened agents l rest agents' stmts := by
  induction depth generalizing lines stmts with
  | zero => exact absurd hbound (Nat.not_lt_zero _)
  | succ depth ih =>
    cases lines with
    | nil => cases hnext
    | cons first others =>
      have hshort : others.length < depth := Nat.lt_of_succ_lt_succ hbound
      rcases top_cons_eq_ok_iff.1 h with ⟨hcomment, more, hread, rfl⟩ | ⟨hcode, hstands, hagent, agents'', after, hdefined, hread⟩ |
        ⟨hcode, hstands, hagent, s, after, more, hstmt, hread, rfl⟩
      · rw [nextCode_cons_comment hcomment] at hnext
        obtain ⟨hstands, hopened⟩ := ih hshort hread hnext
        have hkept : Stmt.uncommentedAll (if first.indent = 0 then .comment (commentText first.text) :: more else more) =
            Stmt.uncommentedAll more := by
          split
          · rw [Stmt.uncommentedAll_comment rfl]
          · rfl
        refine ⟨hstands, ?_⟩
        cases hopened with
        | agent opens defined read bound same => exact .agent opens defined read bound (hkept.trans same)
        | stmt opens stated read bound same => exact .stmt opens stated read bound (hkept.trans same)
      · rw [nextCode_cons_code hcode] at hnext
        cases hnext
        obtain ⟨used, rfl, -⟩ := agent_deeper hdefined
        rw [List.length_append] at hshort
        exact ⟨hstands, .agent hagent hdefined hread (by omega) rfl⟩
      · rw [nextCode_cons_code hcode] at hnext
        cases hnext
        exact ⟨hstands, .stmt hagent hstmt hread (Nat.lt_of_le_of_lt (length_of_statement hcode hstands hstmt) hshort)
          (Stmt.uncommentedAll_cons (isComment_of_statement hstmt) more)⟩

/-- Programs are read alike. -/
theorem top_tracks {depth' : Nat} (hbound : lines.length < depth) (hbound' : lines'.length < depth')
    (hsame : code lines = code lines') (hfits : Fits lines') (h : top depth agents lines = .ok (agents', stmts)) :
    ∃ stmts', top depth' agents lines' = .ok (agents', stmts') ∧
      Stmt.uncommentedAll stmts' = Stmt.uncommentedAll stmts := by
  induction depth' generalizing depth agents lines lines' stmts with
  | zero => exact absurd hbound' (Nat.not_lt_zero _)
  | succ depth' ih =>
    cases lines' with
    | nil =>
      obtain ⟨rfl, hstmts⟩ := top_shallow h (nextCode_of_code hsame)
      exact ⟨[], top_nil _ _, hstmts.symm⟩
    | cons l' rest' =>
      have hshort' : rest'.length < depth' := Nat.lt_of_succ_lt_succ hbound'
      cases hcomment : l'.isComment with
      | true =>
        obtain ⟨stmts', hread', hstmts⟩ := ih hbound hshort' (hsame.trans (code_comment hcomment)) hfits.2 h
        refine ⟨_, top_cons_eq_ok_iff.2 (.inl ⟨hcomment, stmts', hread', rfl⟩), ?_⟩
        split
        · rw [Stmt.uncommentedAll_comment rfl, hstmts]
        · exact hstmts
      | false =>
        obtain ⟨l, rest, hnext, hline, hrest⟩ := next_of_code hsame (nextCode_cons_code hcomment)
        obtain ⟨hindent, htext, -⟩ := eq_of_unnumbered hline
        obtain ⟨hstands, hopened⟩ := top_next hbound h hnext
        cases hopened with
        | agent opens defined read bound same =>
          have hafter := not_deeper_of_top bound read
          rw [← Nat.zero_add 1, ← hstands] at hafter
          obtain ⟨after', hdefined', hleaves⟩ := agent_tracks hline hrest hfits.2 hafter defined
          obtain ⟨stmts', hread', hstmts⟩ := ih bound (Nat.lt_of_le_of_lt hleaves.length_le hshort') hleaves.same
            (hleaves.fits hfits.2) read
          refine ⟨stmts', top_cons_eq_ok_iff.2 (.inr (.inl ⟨hcomment, hindent ▸ hstands, ?_, _, after', hdefined', hread'⟩)),
            hstmts.trans same.symm⟩
          rw [opensAgent, ← htext]
          exact opens
        | stmt opens stated read bound same =>
          have hafter := not_deeper_of_top bound read
          rw [← Nat.zero_add 1, ← hstands] at hafter
          obtain ⟨s', after', hstmt', hs, hcode, hleaves⟩ :=
            statement_tracks (tracks_block depth' _) hline hrest hfits.2 hshort' hafter stated
          obtain ⟨more', hread', hmore⟩ := ih bound (Nat.lt_of_le_of_lt hleaves.length_le hshort') hleaves.same
            (hleaves.fits hfits.2) read
          refine ⟨s' :: more', top_cons_eq_ok_iff.2 (.inr (.inr ⟨hcomment, hindent ▸ hstands, ?_, s', after', more', hstmt',
            hread', rfl⟩)), ?_⟩
          · rw [opensAgent, ← htext]
            exact opens
          · rw [same, Stmt.uncommentedAll_cons hcode, hs, hmore]

end

end Parser

end Program

end Playbook
