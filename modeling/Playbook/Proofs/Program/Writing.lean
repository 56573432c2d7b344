import Playbook.Proofs.Program.Literals

/-!
# `Proofs.Program.Writing` — lines are read back as they are written

A line of a printable program is a plain text, or a plain text with a literal at its end. So whatever strings the program holds,
the line has no comment to be cut off, opens no block of raw lines, and is not broken; and the lines that are read from a printed
program are those that were written, each at its indentation.

## Contents
- **Plain texts and literals.** `Plain`, `Worded`: such texts are neither cut (`Worded.strip`) nor taken for the opening of a block
  (`Worded.closed`) nor broken (`Worded.feed`).
- **Phrases.** `worded_expr`, `worded_stmt`.
- **Lines.** `Coded` texts; `printableMark`, and `coded_mark`.
- **Listings.** `coded_listing`, by induction over the syntax; `written_drafts`.
- **Reading lines.** `numbered` are the lines that are read; `shape_raw`, `ofRaw_raw`, `ofSource_print`.
-/

namespace Playbook.Program.Printer

open Text

/-! ## Plain texts and literals -/

/-- A text without quotes, comment marks and line feeds. -/
def Plain (text : List Char) : Prop :=
  ∀ c ∈ text, c ≠ '#' ∧ c ≠ '"' ∧ c ≠ '\n'

instance (text : List Char) : Decidable (Plain text) :=
  List.decidableBAll _ text

theorem Plain.append {text more : List Char} (h : Plain text) (hmore : Plain more) :
    Plain (text ++ more) := by
  intro c hc
  rcases List.mem_append.1 hc with hc | hc
  · exact h c hc
  · exact hmore c hc

theorem plain_of_isNameChar {text : List Char} (h : ∀ c ∈ text, isNameChar c = true) :
    Plain text := by
  intro c hc
  have hother : ∀ d : Char, isNameChar d = false → c ≠ d := by
    rintro d hd rfl
    rw [h c hc] at hd
    cases hd
  exact ⟨hother _ (by decide), hother _ (by decide), hother _ (by decide)⟩

theorem plain_of_isName {text : List Char} (h : Phrase.isName text = true) : Plain text :=
  plain_of_isNameChar (isNameChar_of_mem h)

/-- A plain text, or one with a literal at its end. -/
inductive Worded : List Char → Prop where
  | plain {text : List Char} (h : Plain text) : Worded text
  | quoted (before : List Char) (h : Plain before) (s : String) : Worded (before ++ literal s)

theorem Worded.append {before text : List Char} (hbefore : Plain before) (h : Worded text) :
    Worded (before ++ text) := by
  cases h with
  | plain h => exact .plain (hbefore.append h)
  | quoted more h s =>
    rw [← List.append_assoc]
    exact .quoted _ (hbefore.append h) s

theorem worded_literal (s : String) : Worded (literal s) :=
  .quoted [] nofun s

theorem stripFrom_plain {text : List Char} (h : Plain text) (rest : List Char) :
    stripFrom .outside (text ++ rest) = text ++ stripFrom .outside rest := by
  induction text with
  | nil => rfl
  | cons c text ih =>
    have hc := h c List.mem_cons_self
    rw [List.cons_append, stripFrom, if_neg hc.1, if_neg hc.2.1,
      ih fun d hd => h d (List.mem_cons_of_mem _ hd), List.cons_append]

/-- What is escaped can stand in a literal. -/
theorem quoted_escaped (s : List Char) : Quoted (s.flatMap escape) := by
  induction s with
  | nil => exact .nil
  | cons c s ih =>
    rw [List.flatMap_cons]
    have hescaped := escaped c
    generalize escape c = text at hescaped ⊢
    cases hescaped with
    | marked _ => exact .pair _ ih
    | itself hquote hbackslash _ => exact .plain hquote hbackslash ih

theorem stripFrom_literal (s : String) : stripFrom .outside (literal s) = literal s :=
  stripFrom_of_after (quoted_escaped s.toList).after_literal

/-- There is no comment to be cut off. -/
theorem Worded.strip {text : List Char} (h : Worded text) : stripComment text = text := by
  rw [stripComment]
  cases h with
  | plain h =>
    have hplain := stripFrom_plain h []
    rwa [List.append_nil, stripFrom, List.append_nil] at hplain
  | quoted before h s => rw [stripFrom_plain h, stripFrom_literal]

/-- A literal is not taken for the end of three quotes. -/
theorem endsWith_literal {before : List Char} (hbefore : '"' ∉ before) (s : String) :
    endsWith (before ++ literal s) tripleQuote = false :=
  (endsWith_append hbefore _).trans (quoted_escaped s.toList).endsWith_literal

/-- A worded text does not open a block. -/
theorem Worded.closed {text : List Char} (h : Worded text) : opensBlock text = false := by
  have hends : endsWith text tripleQuote = false := by
    cases h with
    | plain h =>
      rw [← Bool.not_eq_true]
      intro hends
      obtain ⟨front, rfl⟩ := eq_append_of_endsWith hends
      exact (h '"' (List.mem_append_right _ List.mem_cons_self)).2.1 rfl
    | quoted before h s => exact endsWith_literal (fun hmem => (h '"' hmem).2.1 rfl) s
  rw [opensBlock, hends]
  rfl

theorem feed_not_mem_escape (c : Char) : '\n' ∉ escape c := by
  have hescaped := escaped c
  generalize escape c = text at hescaped ⊢
  cases hescaped with
  | @marked d h =>
    have hd : ∀ e ∈ escapes, '\n' ∉ ['\\', e.2] := by decide
    exact hd (c, d) h
  | itself _ _ hfeed =>
    rw [List.mem_singleton]
    exact Ne.symm hfeed

/-- A worded text is not taken for a comment. -/
theorem Worded.head? {text : List Char} (h : Worded text) : text.head? ≠ some '#' := by
  intro hhead
  cases h with
  | plain h => exact (h '#' (List.mem_of_mem_head? hhead)).1 rfl
  | quoted before h s =>
    cases before with
    | nil => cases hhead
    | cons c before =>
      cases hhead
      exact (h '#' List.mem_cons_self).1 rfl

/-- A worded text is not broken into lines. -/
theorem Worded.feed {text : List Char} (h : Worded text) : '\n' ∉ text := by
  intro hmem
  cases h with
  | plain h => exact (h _ hmem).2.2 rfl
  | quoted before h s =>
    rcases List.mem_append.1 hmem with hmem | hmem
    · exact (h _ hmem).2.2 rfl
    rcases List.mem_cons.1 hmem with hquote | hmem
    · revert hquote
      decide
    rcases List.mem_append.1 hmem with hmem | hmem
    · obtain ⟨c, _, hc⟩ := List.mem_flatMap.1 hmem
      exact feed_not_mem_escape c hc
    · revert hmem
      decide

/-! ## Phrases -/

theorem worded_call (c : SessionCall) (h : c.agent.all isName = true) : Worded (call c) := by
  cases hagent : c.agent with
  | none =>
    rw [call_of_none hagent]
    exact .quoted [' '] (by decide) c.title
  | some agent =>
    rw [hagent] at h
    have hbefore : Plain ([':', ' '] ++ (agent.toList ++ [' '])) :=
      Plain.append (by decide) ((plain_of_isName h).append (by decide))
    have hworded := Worded.quoted _ hbefore c.title
    rw [List.append_assoc, List.append_assoc] at hworded
    rw [call_of_some hagent]
    exact hworded

theorem all_of_printableResume {c : SessionCall} (h : printableResume c = true) :
    c.agent.all isName = true := by
  obtain ⟨agent, title⟩ := c
  cases agent with
  | none => cases h
  | some agent => exact h

theorem worded_expr {value : Expr} (h : printableExpr value = true) : Worded (expr value) := by
  have hsession : Plain Phrase.sessionWord := by decide
  have hresume : Plain Phrase.resumeWord := by decide
  cases value with
  | str value => exact worded_literal value
  | var name => exact .plain (plain_of_isName h)
  | session c => exact (worded_call c h).append hsession
  | resume c => exact (worded_call c (all_of_printableResume h)).append hresume

theorem worded_assignment {name : String} (hname : isName name = true) {value : List Char}
    (h : Worded value) : Worded (assignment name value) := by
  have hbefore : Plain (name.toList ++ [' ', '=', ' ']) :=
    (plain_of_isName hname).append (by decide)
  have hworded := h.append hbefore
  rw [List.append_assoc] at hworded
  exact hworded

theorem worded_stmt {s : Stmt} (hsimple : s.isSimple = true) (h : printableStmt s = true) :
    Worded (stmt s) := by
  have hsession : Plain Phrase.sessionWord := by decide
  have hresume : Plain Phrase.resumeWord := by decide
  have hlet : Plain "let ".toList := by decide
  have houtput : Plain "output ".toList := by decide
  cases s with
  | session c =>
    rw [printableStmt] at h
    exact (worded_call c h).append hsession
  | resume c =>
    rw [printableStmt] at h
    exact (worded_call c (all_of_printableResume h)).append hresume
  | assign name value =>
    rw [printableStmt, Bool.and_eq_true] at h
    exact (worded_assignment h.1 (worded_expr h.2)).append hlet
  | output name value =>
    rw [printableStmt, Bool.and_eq_true] at h
    exact (worded_assignment h.1 (worded_expr h.2)).append houtput
  | _ => cases hsimple

/-! ## Lines -/

/-- A text that can stand on a code line. -/
structure Coded (text : List Char) : Prop where
  worded : Worded text
  solid : Solid text

/-- Whether the names in what a line says are names. -/
def printableMark : Mark → Bool
  | .handler name => name.all isName
  | .plain s => s.isSimple && printableStmt s
  | .branch b => b.stmt.isSimple && printableBranch b
  | _ => true

/-- A plain text with a colon behind it can stand on a line. -/
theorem coded_colon (front : List Char) (hplain : Plain front) {c : Char} {rest : List Char}
    (hfront : front = c :: rest) (hc : isBlank c = false) : Coded (front ++ [':']) := by
  refine ⟨.plain (hplain.append (by decide)), ⟨c, rest ++ [':'], ?_, hc⟩, ?_⟩
  · rw [hfront, List.cons_append]
  · exact ⟨front, ':', rfl, by decide⟩

theorem coded_header {keyword name : String} (hplain : Plain keyword.toList) {c : Char}
    {rest : List Char} (hkeyword : keyword.toList = c :: rest) (hc : isBlank c = false)
    (h : isName name = true) : Coded (header keyword name) := by
  have hfront : keyword.toList ++ name.toList = c :: (rest ++ name.toList) := by
    rw [hkeyword, List.cons_append]
  have hcoded := coded_colon _ (hplain.append (plain_of_isName h)) hfront hc
  rw [List.append_assoc] at hcoded
  exact hcoded

theorem isCall_isSimple {s : Stmt} (h : isCall s = true) : s.isSimple = true := by
  cases s with
  | session c => rfl
  | resume c => rfl
  | _ => cases h

theorem isName_of_isBranchName {name : String} (h : isBranchName name = true) :
    isName name = true := by
  rw [isBranchName, Bool.and_eq_true, Bool.and_eq_true] at h
  exact h.1.1

/-- What a branch without a body says can stand on a line. -/
theorem coded_branch {b : Branch} (hsimple : b.stmt.isSimple = true)
    (h : printableBranch b = true) : Coded (branch b) := by
  obtain ⟨name, s⟩ := b
  rw [printableBranch, Bool.and_eq_true] at h
  have hworded : Worded (stmt s) := worded_stmt hsimple h.1
  have hsolid : Solid (stmt s) := solid_stmt hsimple h.1
  cases name with
  | none => exact ⟨hworded, hsolid⟩
  | some name =>
    have hcall := h.2
    rw [Option.all_some, Bool.and_eq_true] at hcall
    have hname := isName_of_isBranchName hcall.1
    exact ⟨worded_assignment hname hworded,
      (solid_of_isName hname).append hsolid [' ', '=', ' ']⟩

theorem coded_parallel (policy : FailurePolicy) : Coded (mark (.parallel policy)) := by
  have hname : Plain (policy.name.toList ++ [')']) := by
    cases policy with
    | failFast => decide
    | proceed => decide
    | ignore => decide
  have hplain : Plain ("parallel(on-fail: ".toList ++ (policy.name.toList ++ [')'])) :=
    Plain.append (by decide) hname
  have hfront (rest : List Char) :
      "parallel(on-fail: ".toList ++ rest = 'p' :: ("arallel(on-fail: ".toList ++ rest) := rfl
  have hcoded := coded_colon _ hplain (hfront _) (by decide)
  rw [List.append_assoc, List.append_assoc] at hcoded
  exact hcoded

theorem coded_loop (count : UInt32) : Coded (mark (.loop count)) := by
  have hdigits : Plain (Nat.toDigits 10 count.toNat) :=
    plain_of_isNameChar fun c hc => isNameChar_of_isDigit (isDigit_of_mem hc)
  have hplain : Plain ("repeat ".toList ++ Nat.toDigits 10 count.toNat) :=
    Plain.append (by decide) hdigits
  have hfront (rest : List Char) : "repeat ".toList ++ rest = 'r' :: ("epeat ".toList ++ rest) :=
    rfl
  have hcoded := coded_colon _ hplain (hfront _) (by decide)
  rw [List.append_assoc] at hcoded
  exact hcoded

/-- What a mark says can stand on a line. -/
theorem coded_mark {m : Mark} (h : printableMark m = true) : Coded (mark m) := by
  cases m with
  | attempt => exact coded_colon "try".toList (by decide) rfl (by decide)
  | handler name =>
    cases name with
    | none => exact coded_colon "catch".toList (by decide) rfl (by decide)
    | some name => exact coded_header (by decide) rfl (by decide) h
  | final => exact coded_colon "finally".toList (by decide) rfl (by decide)
  | parallel policy => exact coded_parallel policy
  | loop count => exact coded_loop count
  | plain s =>
    rw [printableMark, Bool.and_eq_true] at h
    exact ⟨worded_stmt h.1 h.2, solid_stmt h.1 h.2⟩
  | branch b =>
    rw [printableMark, Bool.and_eq_true] at h
    exact coded_branch h.1 h.2

/-! ## Listings -/

/-- The names in a listing are names. -/
def PrintableListing (n : Listing) : Prop :=
  ∀ e ∈ n, printableMark e.2 = true

theorem PrintableListing.append {m n : Listing} (hm : PrintableListing m)
    (hn : PrintableListing n) : PrintableListing (m ++ n) := by
  intro e he
  rcases List.mem_append.1 he with he | he
  · exact hm e he
  · exact hn e he

theorem PrintableListing.cons {depth : Nat} {m : Mark} {n : Listing}
    (hm : printableMark m = true) (hn : PrintableListing n) :
    PrintableListing ((depth, m) :: n) := by
  intro e he
  rcases List.mem_cons.1 he with rfl | he
  · exact hm
  · exact hn e he

theorem printableListing_of_isSimple (depth : Nat) {s : Stmt} (hsimple : s.isSimple = true)
    (h : printableStmt s = true) : PrintableListing (Listing.ofStmt depth s) := by
  rw [Listing.ofStmt_of_isSimple hsimple]
  refine .cons ?_ nofun
  rw [printableMark, hsimple, h]
  rfl

/-- Only the header of a clause that is there has to be printable. -/
theorem printableMark_handler {name : Option String} {handler : Option (List Stmt)}
    (h : name.all (fun n => isName n && handler.isSome) = true) :
    printableMark (.handler name) = true := by
  cases name with
  | none => rfl
  | some name =>
    rw [Option.all_some, Bool.and_eq_true] at h
    exact h.1

theorem printableStmts_of_body {ss : List Stmt} (h : printableBody ss = true) :
    printableStmts ss = true := by
  cases ss with
  | nil => cases h
  | cons s rest =>
    rw [printableBody] at h
    rw [printableStmts, h]

mutual

theorem printableListing_ofStmt (depth : Nat) : ∀ s : Stmt, printableStmt s = true →
    PrintableListing (Listing.ofStmt depth s)
  | .session _, h => printableListing_of_isSimple depth rfl h
  | .resume _, h => printableListing_of_isSimple depth rfl h
  | .assign _ _, h => printableListing_of_isSimple depth rfl h
  | .output _ _, h => printableListing_of_isSimple depth rfl h
  | .attempt body name handler final, h => by
    simp only [printableStmt, Bool.and_eq_true] at h
    obtain ⟨⟨⟨⟨hbody, hname⟩, hhandler⟩, hfinal⟩, _⟩ := h
    rw [Listing.ofStmt]
    have hlisting := printableListing_ofStmts (depth + 1) body (printableStmts_of_body hbody)
    refine .cons rfl (hlisting.append (.append ?_ ?_))
    · exact printableListing_ofClause depth (printableMark_handler hname) handler hhandler
    · exact printableListing_ofClause depth rfl final hfinal
  | .parallel policy branches, h => by
    rw [printableStmt, Bool.and_eq_true] at h
    rw [Listing.ofStmt]
    exact .cons rfl (printableListing_ofBranches _ branches h.2)
  | .loop count body, h => by
    rw [printableStmt] at h
    rw [Listing.ofStmt]
    exact .cons rfl (printableListing_ofStmts _ body (printableStmts_of_body h))
  | .comment _, h => by
    rw [printableStmt] at h
    cases h

/-- The listing of printable statements can be written. -/
theorem printableListing_ofStmts (depth : Nat) : ∀ ss : List Stmt, printableStmts ss = true →
    PrintableListing (Listing.ofStmts depth ss)
  | [], _ => by
    rw [Listing.ofStmts]
    nofun
  | s :: rest, h => by
    rw [printableStmts, Bool.and_eq_true] at h
    rw [Listing.ofStmts]
    exact (printableListing_ofStmt depth s h.1).append (printableListing_ofStmts depth rest h.2)

theorem printableListing_ofClause (depth : Nat) {header : Mark}
    (hheader : printableMark header = true) : ∀ clause : Option (List Stmt),
    printableClause clause = true → PrintableListing (Listing.ofClause depth header clause)
  | none, _ => by
    rw [Listing.ofClause]
    nofun
  | some body, h => by
    rw [printableClause] at h
    rw [Listing.ofClause]
    exact .cons hheader (printableListing_ofStmts _ body (printableStmts_of_body h))

theorem printableListing_ofBranch (depth : Nat) : ∀ b : Branch, printableBranch b = true →
    PrintableListing (Listing.ofBranch depth b)
  | .mk name s, h => by
    cases hsimple : s.isSimple with
    | false =>
      rw [printableBranch, Bool.and_eq_true] at h
      rw [Listing.ofBranch_of_not_isSimple hsimple]
      exact printableListing_ofStmt depth s h.1
    | true =>
      rw [Listing.ofBranch_of_isSimple hsimple]
      refine .cons ?_ nofun
      rw [printableMark, h, Branch.stmt, hsimple]
      rfl

theorem printableListing_ofBranches (depth : Nat) : ∀ bs : List Branch,
    printableBranches bs = true → PrintableListing (Listing.ofBranches depth bs)
  | [], _ => by
    rw [Listing.ofBranches]
    nofun
  | b :: rest, h => by
    rw [printableBranches, Bool.and_eq_true] at h
    rw [Listing.ofBranches]
    exact (printableListing_ofBranch depth b h.1).append
      (printableListing_ofBranches depth rest h.2)

end

/-- A text that can stand on a line: a comment, or code. -/
inductive Written (text : List Char) : Prop where
  | comment (head : text.head? = some '#') (feed : '\n' ∉ text) (solid : Solid text)
  | code (h : Coded text)

theorem Written.feed {text : List Char} (h : Written text) : '\n' ∉ text := by
  cases h with
  | comment _ feed _ => exact feed
  | code h => exact h.worded.feed

theorem Written.solid {text : List Char} (h : Written text) : Solid text := by
  cases h with
  | comment _ _ solid => exact solid
  | code h => exact h.solid

theorem coded_property {key : String} (hplain : Plain key.toList) {c : Char} {rest : List Char}
    (hkey : key.toList = c :: rest) (hc : isBlank c = false) (value : String) :
    Coded (key.toList ++ ':' :: ' ' :: literal value) := by
  constructor
  · exact (Worded.quoted [':', ' '] (by decide) value).append hplain
  · have hends := (ends_literal value).append (key.toList ++ [':', ' '])
    rw [List.append_assoc] at hends
    have htext : key.toList ++ ([':', ' '] ++ literal value) =
        c :: (rest ++ ([':', ' '] ++ literal value)) := by
      rw [hkey, List.cons_append]
    exact hends.solid htext hc

theorem written_property {key : String} (hplain : Plain key.toList) {c : Char} {rest : List Char}
    (hkey : key.toList = c :: rest) (hc : isBlank c = false) (value : Option String) :
    ∀ d ∈ property key value, Written d.2 := by
  cases value with
  | none => nofun
  | some value =>
    intro d hd
    rw [List.mem_singleton.1 hd]
    exact .code (coded_property hplain hkey hc value)

theorem written_agent {a : Agent} (h : isName a.name = true) : ∀ d ∈ agent a, Written d.2 := by
  intro d hd
  rcases List.mem_cons.1 hd with rfl | hd
  · exact .code (coded_header (by decide) rfl (by decide) h)
  rcases List.mem_append.1 hd with hd | hd
  · rcases List.mem_append.1 hd with hd | hd
    · exact written_property (by decide) rfl (by decide) a.model d hd
    · exact written_property (by decide) rfl (by decide) a.persist d hd
  · exact written_property (by decide) rfl (by decide) a.prompt d hd

theorem written_header {l : String} (h : l.toList.head? = some '#' ∧ '\n' ∉ l.toList ∧
    trimEnd l.toList = l.toList) : Written l.toList := by
  obtain ⟨hhead, hfeed, htrim⟩ := h
  obtain ⟨rest, hrest⟩ := List.head?_eq_some_iff.1 hhead
  exact .comment hhead hfeed (.of_trimEnd hrest (by decide) htrim)

/-- All lines of a printable program can be written. -/
theorem written_drafts {p : Program} (h : Printable p) : ∀ d ∈ drafts p, Written d.2 := by
  intro d hd
  rcases List.mem_append.1 hd with hd | hd
  · obtain ⟨l, hl, rfl⟩ := List.mem_map.1 hd
    exact written_header (h.header l hl)
  rcases List.mem_append.1 hd with hd | hd
  · obtain ⟨e, he, hd⟩ := List.mem_flatMap.1 hd
    obtain ⟨hkey, hname⟩ := h.agents e he
    rw [hkey] at hname
    exact written_agent hname d hd
  · obtain ⟨e, he, rfl⟩ := List.mem_map.1 hd
    exact .code (coded_mark (printableListing_ofStmts 0 p.statements h.statements e he))

/-! ## Reading lines -/

/-- The line that is read from a draft. -/
def line (number : Nat) (d : Draft) : Line :=
  ⟨number, d.1, d.2, d.2.head? = some '#', none⟩

/-- The lines that are read from drafts, the first of which has the given number. -/
def numbered (number : Nat) : List Draft → List Line
  | [] => []
  | d :: rest => line number d :: numbered (number + 1) rest

theorem numbered_append (number : Nat) (ds es : List Draft) :
    numbered number (ds ++ es) = numbered number ds ++ numbered (number + ds.length) es := by
  induction ds generalizing number with
  | nil => rfl
  | cons d rest ih =>
    have hnumber : number + 1 + rest.length = number + (d :: rest).length := by
      rw [List.length_cons]
      omega
    rw [List.cons_append, numbered, numbered, ih, hnumber, List.cons_append]

theorem length_numbered (number : Nat) (ds : List Draft) :
    (numbered number ds).length = ds.length := by
  induction ds generalizing number with
  | nil => rfl
  | cons d rest ih => rw [numbered, List.length_cons, List.length_cons, ih]

/-- A line that was written is not broken. -/
theorem writable_raw {d : Draft} (h : Written d.2) : Writable (raw d) := by
  constructor
  · intro hmem
    rcases List.mem_append.1 hmem with hmem | hmem
    · cases List.eq_of_mem_replicate hmem
    · exact h.feed hmem
  · obtain ⟨rest, c, htext, hc⟩ := h.solid.last
    rw [raw, htext, ← List.append_assoc, List.getLast?_concat]
    intro heq
    cases heq
    revert hc
    decide

theorem leadingSpaces_raw {d : Draft} (h : Solid d.2) : leadingSpaces (raw d) = d.1 := by
  obtain ⟨c, rest, htext, hc⟩ := h.head
  have hspace : (c == ' ') = false := by
    rw [beq_eq_false_iff_ne]
    rintro rfl
    revert hc
    decide
  have hall : ∀ e ∈ List.replicate d.1 ' ', (e == ' ') = true := by
    intro e he
    rw [List.eq_of_mem_replicate he]
    rfl
  rw [leadingSpaces, raw, htext, List.takeWhile_append_of_pos hall, List.takeWhile_cons_of_neg,
    List.append_nil, List.length_replicate]
  rw [hspace]
  exact Bool.false_ne_true

/-- A line that was written is a comment or code, and has its text. -/
theorem shape_raw {d : Draft} (h : Written d.2) :
    Line.shape (raw d) = if d.2.head? = some '#' then .comment d.1 d.2 else .code d.1 d.2 := by
  obtain ⟨c, rest, htext, hc⟩ := h.solid.head
  have hstripped : trimEnd (raw d) = raw d := h.solid.trimEnd_append _
  have hsome : trim (raw d) ≠ [] := by
    have hmem : c ∈ raw d := by
      rw [raw, htext]
      exact List.mem_append_right _ List.mem_cons_self
    exact List.ne_nil_of_mem (mem_trim hmem hc)
  -- The text begins with no blank, so that the spaces before it are the indentation.
  have hdrop : (raw d).drop d.1 = d.2 := by
    have hlength : (List.replicate d.1 ' ').length = d.1 := List.length_replicate
    exact List.drop_left' hlength
  rw [Line.shape]
  simp only
  rw [hstripped, if_neg hsome, leadingSpaces_raw h.solid, hdrop]
  cases h with
  | comment head _ _ =>
    obtain ⟨rest, hrest⟩ := List.head?_eq_some_iff.1 head
    rw [if_pos head, hrest]
    rfl
  | code h =>
    rw [if_neg h.worded.head?]
    split
    · rename_i htab
      rw [htext] at htab
      cases htab
      cases hc
    · rename_i hcomment
      exact absurd (congrArg List.head? hcomment) h.worded.head?
    · rw [h.worded.strip, h.solid.trimEnd]

/-- The lines that were written are read back. -/
theorem ofRaw_raw {ds : List Draft} (h : ∀ d ∈ ds, Written d.2) (number : Nat) :
    Line.ofRaw none number (ds.map raw) = .ok (numbered number ds) := by
  induction ds generalizing number with
  | nil => rfl
  | cons d rest ih =>
    rw [List.forall_mem_cons] at h
    have hshape := shape_raw h.1
    rw [List.map_cons, Line.ofRaw, numbered]
    simp only
    cases h.1 with
    | comment head _ _ =>
      rw [if_pos head] at hshape
      rw [hshape, line, decide_eq_true head]
      simp only
      rw [ih h.2]
      rfl
    | code hcode =>
      rw [if_neg hcode.worded.head?] at hshape
      rw [hshape, line, decide_eq_false hcode.worded.head?]
      simp only
      rw [hcode.worded.closed, if_neg Bool.false_ne_true, ih h.2]
      rfl

/-- The lines of a printed program are those that were written. -/
theorem ofSource_print {p : Program} (h : Printable p) :
    Line.ofSource (print p) = .ok (numbered 1 (drafts p)) := by
  have hwritten := written_drafts h
  have hlines : ∀ l ∈ (drafts p).map raw, Writable l := by
    intro l hl
    obtain ⟨d, hd, rfl⟩ := List.mem_map.1 hl
    exact writable_raw (hwritten d hd)
  have hread := lines_flatMap hlines
  rw [List.flatMap_map] at hread
  rw [Line.ofSource, print, String.toList_ofList, hread, ofRaw_raw hwritten]

end Playbook.Program.Printer
