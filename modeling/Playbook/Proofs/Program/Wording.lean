import Playbook.Proofs.Program.Printer
import Playbook.Proofs.Text.Search
import Playbook.Proofs.Text.Trim

/-!
# `Proofs.Program.Wording` — phrases are read back as they are written

Whatever characters a string holds, its literal is read back as that string, and nothing in it is taken for the end of the
literal. So each phrase of a printable program is read back as what it says.

## Contents
- **Names.** `isNameChar`, and what names do not hold.
- **Literals.** `Escaped` characters; `literalFrom_escaped`, `wholeLiteral_literal`.
- **Calls and expressions.** `call_call`, `expr_expr`.
- **Statements.** `simple_stmt`.
- **Branches.** `namedBranch?_assignment`, `namedBranch_stmt`; other lines name no branch (`namedBranch?_stmt`).
- **Headers.** `headerName?_header`, `policy?_mark`, `repeatCount?_toDigits`.
-/

namespace Playbook.Program.Printer

open Text

/-! ## Names -/

/-- Whether a character can stand in a name. -/
def isNameChar (c : Char) : Bool :=
  c.isAlphanum || c == '_' || c == '-'

theorem isNameChar_of_mem {s : List Char} (h : Phrase.isName s = true) :
    ∀ c ∈ s, isNameChar c = true := by
  cases s with
  | nil => cases h
  | cons first rest =>
    rw [Phrase.isName, Bool.and_eq_true, List.all_eq_true] at h
    intro c hc
    rcases List.mem_cons.1 hc with rfl | hc
    · have hfirst := h.1
      simp only [isNameChar, Char.isAlphanum, Bool.or_eq_true] at hfirst ⊢
      exact hfirst.elim (fun ha => .inl (.inl (.inl ha))) fun hu => .inl (.inr hu)
    · exact h.2 c hc

/-- A name holds no other characters. -/
theorem not_mem_of_isName {s : List Char} (h : Phrase.isName s = true) {c : Char}
    (hc : isNameChar c = false) : c ∉ s := by
  intro hmem
  rw [isNameChar_of_mem h c hmem] at hc
  cases hc

/-- The characters of names are printed ASCII characters. -/
theorem toNat_of_isNameChar {c : Char} (h : isNameChar c = true) :
    0x2D ≤ c.toNat ∧ c.toNat < 0x7F := by
  have hbetween {low high : UInt32} (hc : low ≤ c.val ∧ c.val ≤ high) :
      low.toNat ≤ c.toNat ∧ c.toNat ≤ high.toNat :=
    ⟨UInt32.le_iff_toNat_le.1 hc.1, UInt32.le_iff_toNat_le.1 hc.2⟩
  have hcases : (c.isUpper || c.isLower || c.isDigit || c == '_' || c == '-') = true := h
  simp only [Bool.or_eq_true, beq_iff_eq] at hcases
  rcases hcases with ((((hupper | hlower) | hdigit) | rfl) | rfl)
  · have hrange : 65 ≤ c.toNat ∧ c.toNat ≤ 90 := hbetween (of_decide_eq_true hupper)
    omega
  · have hboth := (Bool.and_eq_true _ _).mp hlower
    have hrange : 97 ≤ c.toNat ∧ c.toNat ≤ 122 :=
      hbetween ⟨of_decide_eq_true hboth.1, of_decide_eq_true hboth.2⟩
    omega
  · have hrange : 48 ≤ c.toNat ∧ c.toNat ≤ 57 := Char.isDigit_iff_toNat.1 hdigit
    omega
  · decide
  · decide

theorem isBlank_of_isNameChar {c : Char} (h : isNameChar c = true) : isBlank c = false := by
  obtain ⟨hlow, hhigh⟩ := toNat_of_isNameChar h
  rw [← Bool.not_eq_true]
  intro hblank
  simp only [isBlank, blankRanges, List.any_cons, List.any_nil, Bool.or_eq_true,
    Bool.and_eq_true, decide_eq_true_eq, Bool.or_false] at hblank
  omega

theorem solid_of_isName {s : List Char} (h : Phrase.isName s = true) : Solid s := by
  have hchars := isNameChar_of_mem h
  have hne : s ≠ [] := by
    rintro rfl
    cases h
  constructor
  · obtain ⟨c, rest, rfl⟩ := List.exists_cons_of_ne_nil hne
    exact ⟨c, rest, rfl, isBlank_of_isNameChar (hchars c List.mem_cons_self)⟩
  · refine ⟨s.dropLast, s.getLast hne, (List.dropLast_concat_getLast hne).symm, ?_⟩
    exact isBlank_of_isNameChar (hchars _ (List.getLast_mem hne))

/-! ## Literals -/

/-- The characters that are escaped, each with the one that stands behind the backslash. -/
def escapes : List (Char × Char) :=
  [('"', '"'), ('\\', '\\'), ('\n', 'n'), ('\t', 't')]

/-- What a character can look like in a literal. -/
inductive Escaped : Char → List Char → Prop where
  | marked {c d : Char} (h : (c, d) ∈ escapes) : Escaped c ['\\', d]
  | itself {c : Char} (quote : c ≠ '"') (backslash : c ≠ '\\') (feed : c ≠ '\n') : Escaped c [c]

theorem escaped (c : Char) : Escaped c (escape c) := by
  rw [escape]
  split
  · rename_i hc
    rw [hc]
    exact .marked (by decide)
  · rename_i hquote
    split
    · rename_i hc
      rw [hc]
      exact .marked (by decide)
    · rename_i hbackslash
      split
      · rename_i hc
        rw [hc]
        exact .marked (by decide)
      · rename_i hfeed
        split
        · rename_i hc
          rw [hc]
          exact .marked (by decide)
        · exact .itself hquote hbackslash hfeed

theorem literalFrom_marked {value rest : List Char} {c d : Char} (h : (c, d) ∈ escapes) :
    Phrase.literalFrom value ('\\' :: d :: rest) = Phrase.literalFrom (c :: value) rest := by
  simp only [escapes, List.mem_cons, Prod.mk.injEq, List.not_mem_nil, or_false] at h
  rcases h with ⟨rfl, rfl⟩ | ⟨rfl, rfl⟩ | ⟨rfl, rfl⟩ | ⟨rfl, rfl⟩
  · rfl
  · rfl
  · rfl
  · rfl

theorem literalFrom_itself {value rest : List Char} {c : Char} (hquote : c ≠ '"')
    (hbackslash : c ≠ '\\') :
    Phrase.literalFrom value (c :: rest) = Phrase.literalFrom (c :: value) rest := by
  rw [Phrase.literalFrom]
  · exact hquote
  · intro _ _ h
    exact absurd h hbackslash
  · intro h
    exact absurd h hbackslash

/-- What is escaped is read back, up to the quote that closes the literal. -/
theorem literalFrom_escaped (s : List Char) (value rest : List Char) :
    Phrase.literalFrom value (s.flatMap escape ++ '"' :: rest) =
      .ok (String.ofList (value.reverse ++ s), rest) := by
  induction s generalizing value with
  | nil =>
    rw [List.flatMap_nil, List.nil_append, Phrase.literalFrom, List.append_nil]
  | cons c s ih =>
    have hnext := ih (c :: value)
    rw [List.reverse_cons, List.append_assoc, List.singleton_append] at hnext
    rw [List.flatMap_cons, List.append_assoc, ← hnext]
    have hescaped := escaped c
    generalize escape c = text at hescaped ⊢
    cases hescaped with
    | marked h => exact literalFrom_marked h
    | itself hquote hbackslash _ => exact literalFrom_itself hquote hbackslash

theorem wholeLiteral_literal (extra : Fault) (s : String) :
    Phrase.wholeLiteral extra (literal s) = .ok s := by
  have hread : Phrase.stringLiteral (literal s) = .ok (s, []) := by
    have hescaped := literalFrom_escaped s.toList [] []
    rw [List.reverse_nil, List.nil_append, String.ofList_toList] at hescaped
    exact hescaped
  rw [Phrase.wholeLiteral, hread]
  rfl

theorem title_literal (keyword : String) (s : String) :
    Phrase.title keyword (literal s) = .ok s :=
  wholeLiteral_literal _ s

/-- The last character of a text is no blank and no colon. -/
def Ends (text : List Char) : Prop :=
  ∃ rest c, text = rest ++ [c] ∧ isBlank c = false ∧ c ≠ ':'

theorem Ends.append {text : List Char} (h : Ends text) (before : List Char) :
    Ends (before ++ text) := by
  obtain ⟨rest, c, rfl, hc⟩ := h
  exact ⟨before ++ rest, c, (List.append_assoc _ _ _).symm, hc⟩

theorem ends_literal (s : String) : Ends (literal s) :=
  ⟨'"' :: s.toList.flatMap escape, '"', rfl, by decide, by decide⟩

theorem ends_name {s : List Char} (h : Phrase.isName s = true) : Ends s := by
  obtain ⟨rest, c, rfl, hc⟩ := (solid_of_isName h).last
  refine ⟨rest, c, rfl, hc, ?_⟩
  rintro rfl
  exact not_mem_of_isName h (by decide) (List.mem_append_right _ List.mem_cons_self)

theorem Ends.solid {text : List Char} (h : Ends text) {c : Char} {rest : List Char}
    (htext : text = c :: rest) (hc : isBlank c = false) : Solid text := by
  obtain ⟨before, d, hlast, hd, _⟩ := h
  exact ⟨⟨c, rest, htext, hc⟩, ⟨before, d, hlast, hd⟩⟩

theorem Ends.endsWith {text : List Char} (h : Ends text) : endsWith text [':'] = false := by
  obtain ⟨rest, c, rfl, _, hc⟩ := h
  exact endsWith_concat hc

/-! ## Calls and expressions -/

theorem call_of_none {c : SessionCall} (h : c.agent = none) : call c = ' ' :: literal c.title := by
  rw [call, h]

theorem call_of_some {c : SessionCall} {agent : String} (h : c.agent = some agent) :
    call c = ':' :: ' ' :: (agent.toList ++ ' ' :: literal c.title) := by
  rw [call, h]

theorem ends_call (c : SessionCall) : Ends (call c) := by
  cases hagent : c.agent with
  | none =>
    rw [call_of_none hagent]
    exact (ends_literal _).append [' ']
  | some agent =>
    rw [call_of_some hagent, ← List.singleton_append (x := ' ') (l := literal _),
      ← List.append_assoc]
    exact (ends_literal _).append (':' :: ' ' :: (agent.toList ++ [' ']))

/-- The first word ends at the first blank. -/
theorem firstWord_append {s rest : List Char} (h : Phrase.isName s = true) :
    Phrase.firstWord (s ++ ' ' :: rest) = (s, ' ' :: rest) := by
  have hkeep : ∀ c ∈ s, (!isBlank c) = true := by
    intro c hc
    rw [isBlank_of_isNameChar (isNameChar_of_mem h c hc)]
    rfl
  have hstop : (!isBlank ' ') = false := by decide
  rw [Phrase.firstWord, List.takeWhile_append_of_pos hkeep, List.dropWhile_append_of_pos hkeep]
  simp [hstop]

theorem trimStart_literal (s : String) : trimStart (' ' :: literal s) = literal s := by
  rw [trimStart_cons_blank (by decide)]
  refine trimStart_of_head fun d hd => ?_
  cases hd
  decide

/-- A call is read back behind its keyword. -/
theorem call_call (keyword : String) {needsAgent : Bool} {c : SessionCall}
    (hname : c.agent.all isName = true) (hneeds : needsAgent = true → c.agent.isSome = true) :
    Phrase.call keyword needsAgent (call c) = .ok c := by
  obtain ⟨agent, title⟩ := c
  cases agent with
  | none =>
    have hneeds : needsAgent = false := Bool.eq_false_iff.2 fun h => Bool.false_ne_true (hneeds h)
    have hquote : Phrase.call keyword false (' ' :: literal title) =
        Phrase.title keyword (literal title) >>= fun title => pure ⟨none, title⟩ := by
      rw [Phrase.call, trimStart_literal]
      rfl
    rw [call_of_none rfl, hneeds, hquote, title_literal]
    rfl
  | some agent =>
    have hname : Phrase.isName agent.toList = true := hname
    have hcolon : trimStart (':' :: ' ' :: (agent.toList ++ ' ' :: literal title)) =
        ':' :: ' ' :: (agent.toList ++ ' ' :: literal title) := by
      refine trimStart_of_head fun d hd => ?_
      cases hd
      decide
    rw [call_of_some rfl, Phrase.call, hcolon]
    simp only
    rw [trimStart_cons_blank (by decide), (solid_of_isName hname).trimStart_append,
      firstWord_append hname]
    simp only
    rw [if_pos hname, trimStart_literal, title_literal, String.ofList_toList]
    rfl

theorem sessionCall_call {c : SessionCall} (h : printableSession c = true) :
    Phrase.sessionCall (call c) = .ok c :=
  call_call "session" h nofun

theorem resumeCall_call {c : SessionCall} (h : printableResume c = true) :
    Phrase.resumeCall (call c) = .ok c := by
  obtain ⟨agent, title⟩ := c
  cases agent with
  | none => cases h
  | some agent => exact call_call "resume" h fun _ => rfl

theorem ends_expr {value : Expr} (h : printableExpr value = true) : Ends (expr value) := by
  cases value with
  | str value => exact ends_literal value
  | var name => exact ends_name h
  | session c => exact (ends_call c).append _
  | resume c => exact (ends_call c).append _

theorem solid_expr {value : Expr} (h : printableExpr value = true) : Solid (expr value) := by
  have hends := ends_expr h
  cases value with
  | str value => exact hends.solid rfl (by decide)
  | var name => exact solid_of_isName h
  | session c => exact hends.solid rfl (by decide)
  | resume c => exact hends.solid rfl (by decide)

/-- A name does not start like anything that holds another character. -/
theorem startsWith_of_isName {s : List Char} (h : Phrase.isName s = true) (pre : List Char) {c : Char}
    (hmem : c ∈ pre) (hc : isNameChar c = false) : startsWith s pre = false := by
  rw [← Bool.not_eq_true]
  intro hstarts
  obtain ⟨rest, hrest⟩ := Option.isSome_iff_exists.1 hstarts
  rw [stripPrefix_eq_some_iff] at hrest
  exact not_mem_of_isName h hc (hrest ▸ List.mem_append_left _ hmem)

/-- A call that is meant for the word before it starts with a blank or a colon. -/
theorem startsWith_call (word : List Char) (c : SessionCall) :
    (startsWith (word ++ call c) (word ++ [' ']) || startsWith (word ++ call c) (word ++ [':'])) =
      true := by
  have hstarts (mark : Char) (rest : List Char) (hcall : call c = mark :: rest) :
      startsWith (word ++ call c) (word ++ [mark]) = true := by
    have happend := startsWith_append (word ++ [mark]) rest
    rwa [List.append_assoc, List.singleton_append, ← hcall] at happend
  rw [Bool.or_eq_true]
  cases hagent : c.agent with
  | none => exact .inl (hstarts _ _ (call_of_none hagent))
  | some agent => exact .inr (hstarts _ _ (call_of_some hagent))

theorem startsWith_resume {c : SessionCall} (h : printableResume c = true) :
    startsWith (Phrase.resumeWord ++ call c) (Phrase.resumeWord ++ [':']) = true := by
  cases hagent : c.agent with
  | none =>
    rw [printableResume, hagent] at h
    cases h
  | some agent =>
    have happend := startsWith_append (Phrase.resumeWord ++ [':'])
      (' ' :: (agent.toList ++ ' ' :: literal c.title))
    rwa [List.append_assoc, List.singleton_append, ← call_of_some hagent] at happend

/-- An expression is read back. -/
theorem expr_expr {value : Expr} (h : printableExpr value = true) :
    Phrase.expr (expr value) = .ok value := by
  cases value with
  | str value =>
    have hquote : startsWith (literal value) ['"'] = true := rfl
    rw [expr, Phrase.expr, if_pos hquote, wholeLiteral_literal]
    rfl
  | var name =>
    have hname : Phrase.isName name.toList = true := h
    rw [expr, Phrase.expr,
      startsWith_of_isName hname ['"'] List.mem_cons_self (by decide),
      startsWith_of_isName hname (Phrase.sessionWord ++ [' ']) (c := ' ') (by decide)
        (by decide),
      startsWith_of_isName hname (Phrase.sessionWord ++ [':']) (c := ':') (by decide)
        (by decide),
      startsWith_of_isName hname (Phrase.resumeWord ++ [':']) (c := ':') (by decide)
        (by decide), hname, String.ofList_toList]
    rfl
  | session c =>
    have hdrop : (Phrase.sessionWord ++ call c).drop Phrase.sessionWord.length = call c :=
      List.drop_left
    have hquote : startsWith (Phrase.sessionWord ++ call c) ['"'] = false := rfl
    rw [expr, Phrase.expr, hquote, if_neg Bool.false_ne_true,
      if_pos (startsWith_call Phrase.sessionWord c), hdrop, sessionCall_call h]
    rfl
  | resume c =>
    have hdrop : (Phrase.resumeWord ++ call c).drop Phrase.resumeWord.length = call c :=
      List.drop_left
    have hquote : startsWith (Phrase.resumeWord ++ call c) ['"'] = false := rfl
    have hsession : (startsWith (Phrase.resumeWord ++ call c) (Phrase.sessionWord ++ [' ']) ||
        startsWith (Phrase.resumeWord ++ call c) (Phrase.sessionWord ++ [':'])) = false := rfl
    rw [expr, Phrase.expr, hquote, if_neg Bool.false_ne_true, hsession,
      if_neg Bool.false_ne_true, if_pos (startsWith_resume h), hdrop, resumeCall_call h]
    rfl

/-! ## Statements -/

/-- The first equals sign of an assignment is the one behind its name. -/
theorem splitFirst_assignment (before : List Char) (hbefore : '=' ∉ before) {name : String}
    (hname : isName name = true) (value : List Char) :
    splitFirst ['='] (before ++ assignment name value) =
      some (before ++ (name.toList ++ [' ']), ' ' :: value) := by
  have hnot : '=' ∉ before ++ (name.toList ++ [' ']) := by
    rw [List.mem_append, List.mem_append, not_or, not_or]
    exact ⟨hbefore, not_mem_of_isName hname (by decide), by decide⟩
  have happend := splitFirst_append hnot (' ' :: value)
  rwa [List.append_assoc, List.append_assoc, List.singleton_append] at happend

/-- A name and its value are read back. -/
theorem assignment_assignment {name : String} {value : Expr} (hname : isName name = true)
    (hvalue : printableExpr value = true) :
    Phrase.assignment (assignment name (expr value)) = .ok (name, value) := by
  have hsplit : splitFirst ['='] (assignment name (expr value)) =
      some (name.toList ++ [' '], ' ' :: expr value) :=
    splitFirst_assignment [] nofun hname (expr value)
  have hname' : Phrase.isName name.toList = true := hname
  rw [Phrase.assignment, hsplit]
  simp only
  rw [(solid_of_isName hname).trim_concat (by decide), (solid_expr hvalue).trim_cons (by decide),
    if_pos hname', expr_expr hvalue, String.ofList_toList]
  rfl

/-- A statement without a body is read back. -/
theorem simple_stmt {s : Stmt} (hsimple : s.isSimple = true) (h : printableStmt s = true) :
    Phrase.simple (stmt s) = .ok s := by
  cases s with
  | session c =>
    have hlet (rest : List Char) :
        stripPrefix "let ".toList (Phrase.sessionWord ++ rest) = none := rfl
    have houtput (rest : List Char) :
        stripPrefix "output ".toList (Phrase.sessionWord ++ rest) = none := rfl
    rw [printableStmt] at h
    show Phrase.simple (Phrase.sessionWord ++ call c) = .ok (.session c)
    rw [Phrase.simple, hlet, houtput, stripPrefix_append]
    simp only
    rw [sessionCall_call h]
    rfl
  | resume c =>
    have hlet (rest : List Char) :
        stripPrefix "let ".toList (Phrase.resumeWord ++ rest) = none := rfl
    have houtput (rest : List Char) :
        stripPrefix "output ".toList (Phrase.resumeWord ++ rest) = none := rfl
    have hsession (rest : List Char) :
        stripPrefix Phrase.sessionWord (Phrase.resumeWord ++ rest) = none := rfl
    rw [printableStmt] at h
    show Phrase.simple (Phrase.resumeWord ++ call c) = .ok (.resume c)
    rw [Phrase.simple, hlet, houtput, hsession, stripPrefix_append]
    simp only
    rw [resumeCall_call h]
    rfl
  | assign name value =>
    rw [printableStmt, Bool.and_eq_true] at h
    show Phrase.simple ("let ".toList ++ assignment name (expr value)) = .ok (.assign name value)
    rw [Phrase.simple, stripPrefix_append]
    simp only
    rw [assignment_assignment h.1 h.2]
    rfl
  | output name value =>
    have hlet (rest : List Char) :
        stripPrefix "let ".toList ("output ".toList ++ rest) = none := rfl
    rw [printableStmt, Bool.and_eq_true] at h
    show Phrase.simple ("output ".toList ++ assignment name (expr value)) = .ok (.output name value)
    rw [Phrase.simple, hlet, stripPrefix_append]
    simp only
    rw [assignment_assignment h.1 h.2]
    rfl
  | _ => cases hsimple

/-- A statement without a body begins with one of four words. -/
theorem stmt_eq_append {s : Stmt} (hsimple : s.isSimple = true) :
    ∃ word ∈ [Phrase.sessionWord, Phrase.resumeWord, "let ".toList, "output ".toList],
      ∃ rest, stmt s = word ++ rest := by
  cases s with
  | session c => exact ⟨Phrase.sessionWord, by decide, call c, rfl⟩
  | resume c => exact ⟨Phrase.resumeWord, by decide, call c, rfl⟩
  | assign name value => exact ⟨"let ".toList, by decide, assignment name (expr value), rfl⟩
  | output name value => exact ⟨"output ".toList, by decide, assignment name (expr value), rfl⟩
  | _ => cases hsimple

theorem ends_stmt {s : Stmt} (hsimple : s.isSimple = true) (h : printableStmt s = true) :
    Ends (stmt s) := by
  have hassign (word : List Char) {name : String} {value : Expr}
      (hvalue : printableExpr value = true) : Ends (word ++ assignment name (expr value)) := by
    have hends := (ends_expr hvalue).append (word ++ (name.toList ++ [' ', '=', ' ']))
    rw [List.append_assoc, List.append_assoc] at hends
    exact hends
  cases s with
  | session c => exact (ends_call c).append _
  | resume c => exact (ends_call c).append _
  | assign name value =>
    rw [printableStmt, Bool.and_eq_true] at h
    exact hassign _ h.2
  | output name value =>
    rw [printableStmt, Bool.and_eq_true] at h
    exact hassign _ h.2
  | _ => cases hsimple

theorem solid_stmt {s : Stmt} (hsimple : s.isSimple = true) (h : printableStmt s = true) :
    Solid (stmt s) := by
  have hends := ends_stmt hsimple h
  obtain ⟨word, hword, rest, hrest⟩ := stmt_eq_append hsimple
  have hhead : ∃ c more, word = c :: more ∧ isBlank c = false := by
    simp only [List.mem_cons, List.not_mem_nil, or_false] at hword
    rcases hword with rfl | rfl | rfl | rfl
    · exact ⟨_, _, rfl, by decide⟩
    · exact ⟨_, _, rfl, by decide⟩
    · exact ⟨_, _, rfl, by decide⟩
    · exact ⟨_, _, rfl, by decide⟩
  obtain ⟨c, more, rfl, hc⟩ := hhead
  exact hends.solid hrest hc

/-! ## Branches -/

/-- A branch that binds a name is read back. -/
theorem namedBranch?_assignment {name : String} {value : List Char}
    (hname : isBranchName name = true) (hvalue : Solid value) :
    Phrase.namedBranch? (assignment name value) = some (name, value) := by
  rw [isBranchName, Bool.and_eq_true, Bool.and_eq_true, decide_eq_true_eq, decide_eq_true_eq]
    at hname
  obtain ⟨⟨hname, hlet⟩, houtput⟩ := hname
  have hsplit : splitFirst ['='] (assignment name value) =
      some (name.toList ++ [' '], ' ' :: value) :=
    splitFirst_assignment [] nofun hname value
  have hname' : Phrase.isName name.toList = true := hname
  have hlet' : name.toList ≠ "let".toList := fun h => hlet (String.toList_injective h)
  have houtput' : name.toList ≠ "output".toList := fun h => houtput (String.toList_injective h)
  rw [Phrase.namedBranch?, hsplit]
  simp only [Option.bind_eq_bind, Option.bind_some]
  rw [(solid_of_isName hname).trim_concat (by decide), hvalue.trim_cons (by decide), hname',
    decide_eq_true hlet', decide_eq_true houtput', String.ofList_toList]
  rfl

theorem namedBranch_stmt {name : String} {s : Stmt} (hcall : isCall s = true)
    (h : printableStmt s = true) :
    Phrase.namedBranch name (stmt s) = .ok (.mk (some name) s) := by
  have hread : Phrase.simple (stmt s) = .ok s := by
    refine simple_stmt ?_ h
    cases s with
    | session c => rfl
    | resume c => rfl
    | _ => cases hcall
  have hstarts : (startsWith (stmt s) Phrase.sessionWord ||
      startsWith (stmt s) (Phrase.resumeWord ++ [':'])) = true := by
    rw [Bool.or_eq_true]
    cases s with
    | session c => exact .inl (startsWith_append _ _)
    | resume c =>
      rw [printableStmt] at h
      exact .inr (startsWith_resume h)
    | _ => cases hcall
  rw [Phrase.namedBranch, if_pos hstarts, hread]
  rfl

/-- What stands before an equals sign further behind is in the text before it. -/
theorem mem_of_append_eq {pre post before after : List Char} {c d : Char}
    (h : pre ++ c :: post = before ++ d :: after) (hpre : d ∉ pre) (hne : d ≠ c) :
    c ∈ before := by
  rcases List.append_eq_append_iff.1 h with ⟨more, rfl, hmore⟩ | ⟨more, rfl, hmore⟩
  · cases more with
    | nil =>
      cases hmore
      exact absurd rfl hne
    | cons e more =>
      cases hmore
      exact List.mem_append_right _ List.mem_cons_self
  · cases more with
    | nil =>
      cases hmore
      exact absurd rfl hne
    | cons e more =>
      cases hmore
      exact absurd (List.mem_append_right _ List.mem_cons_self) hpre

/-- A text that has a character which no name holds before its first equals sign binds no name. -/
theorem namedBranch?_of_mark {pre : List Char} {c : Char} (hpre : '=' ∉ pre) (hne : '=' ≠ c)
    (hblank : isBlank c = false) (hc : isNameChar c = false) (post : List Char) :
    Phrase.namedBranch? (pre ++ c :: post) = none := by
  cases hsplit : splitFirst ['='] (pre ++ c :: post) with
  | none =>
    rw [Phrase.namedBranch?, hsplit]
    rfl
  | some found =>
    obtain ⟨before, after⟩ := found
    obtain ⟨heq, _⟩ := splitFirst_eq_some hsplit
    have hmem : c ∈ trim before := mem_trim (mem_of_append_eq heq hpre hne) hblank
    have hnot : Phrase.isName (trim before) = false := by
      rw [← Bool.not_eq_true]
      intro hname
      exact not_mem_of_isName hname hc hmem
    rw [Phrase.namedBranch?, hsplit]
    simp only [Option.bind_eq_bind, Option.bind_some]
    rw [hnot]
    rfl

theorem namedBranch?_call {word : List Char} (hword : '=' ∉ word) (c : SessionCall) :
    Phrase.namedBranch? (word ++ call c) = none := by
  cases hagent : c.agent with
  | none =>
    have hblank : '=' ∉ word ++ [' '] := by
      rw [List.mem_append, not_or]
      exact ⟨hword, by decide⟩
    have hnone := namedBranch?_of_mark (c := '"') hblank (by decide) (by decide) (by decide)
      (c.title.toList.flatMap escape ++ ['"'])
    rwa [List.append_assoc, List.singleton_append, ← literal, ← call_of_none hagent] at hnone
  | some agent =>
    rw [call_of_some hagent]
    exact namedBranch?_of_mark hword (by decide) (by decide) (by decide) _

/-- The word before the name of a statement that binds it is not taken for a part of the name. -/
theorem namedBranch?_word {word : List Char} (hword : Solid word) (hnot : '=' ∉ word)
    {name : String} (hname : isName name = true) (value : List Char) :
    Phrase.namedBranch? (word ++ ' ' :: assignment name value) = none := by
  have hbefore : '=' ∉ word ++ [' '] := by
    rw [List.mem_append, not_or]
    exact ⟨hnot, by decide⟩
  have hsplit := splitFirst_assignment _ hbefore hname value
  rw [List.append_assoc, List.singleton_append] at hsplit
  have hsolid := hword.append (solid_of_isName hname) [' ']
  have htrim : trim (word ++ [' '] ++ (name.toList ++ [' '])) = word ++ ([' '] ++ name.toList) := by
    have hconcat := hsolid.trim_concat (c := ' ') (by decide)
    simpa [List.append_assoc] using hconcat
  have hblank : Phrase.isName (word ++ ([' '] ++ name.toList)) = false := by
    rw [← Bool.not_eq_true]
    intro h
    refine not_mem_of_isName (c := ' ') h (by decide) ?_
    exact List.mem_append_right _ (List.mem_append_left _ List.mem_cons_self)
  rw [Phrase.namedBranch?, hsplit]
  simp only [Option.bind_eq_bind, Option.bind_some]
  rw [htrim, hblank]
  rfl

/-- A statement is not taken for a branch that binds a name. -/
theorem namedBranch?_stmt {s : Stmt} (hsimple : s.isSimple = true) (h : printableStmt s = true) :
    Phrase.namedBranch? (stmt s) = none := by
  cases s with
  | session c => exact namedBranch?_call (by decide) c
  | resume c => exact namedBranch?_call (by decide) c
  | assign name value =>
    rw [printableStmt, Bool.and_eq_true] at h
    have hword : Solid "let".toList :=
      ⟨⟨_, _, rfl, by decide⟩, ⟨['l', 'e'], 't', rfl, by decide⟩⟩
    exact namedBranch?_word hword (by decide) h.1 _
  | output name value =>
    rw [printableStmt, Bool.and_eq_true] at h
    have hword : Solid "output".toList :=
      ⟨⟨_, _, rfl, by decide⟩, ⟨['o', 'u', 't', 'p', 'u'], 't', rfl, by decide⟩⟩
    exact namedBranch?_word hword (by decide) h.1 _
  | _ => cases hsimple

/-! ## Headers -/

/-- The name on a header line is read back. -/
theorem headerName?_header (keyword : String) {name : String} (h : isName name = true) :
    Phrase.headerName? keyword.toList (header keyword name) = some name := by
  have hname : Phrase.isName name.toList = true := h
  rw [Phrase.headerName?, header, stripPrefix_append]
  simp only [Option.bind_eq_bind, Option.bind_some]
  rw [stripSuffix_append]
  simp only [Option.bind_some]
  rw [(solid_of_isName h).trim, if_pos hname, String.ofList_toList]
  rfl

theorem catchName?_mark {name : Option String} (h : name.all isName = true) :
    Phrase.catchName? (mark (.handler name)) = some name := by
  cases name with
  | none => decide
  | some name =>
    have hother (rest : List Char) : "catch as ".toList ++ rest ≠ "catch:".toList := by
      intro heq
      have hsixth : some ' ' = some ':' := congrArg (fun text => text[5]?) heq
      cases hsixth
    have hread := headerName?_header "catch as " h
    show Phrase.catchName? (header "catch as " name) = some (some name)
    rw [Phrase.catchName?, hread, header, if_neg (hother _)]
    rfl

theorem policy?_mark (policy : FailurePolicy) :
    Phrase.policy? (mark (.parallel policy)) = some policy := by
  cases policy with
  | failFast => decide
  | proceed => decide
  | ignore => decide

theorem isNameChar_of_isDigit {c : Char} (h : c.isDigit = true) : isNameChar c = true := by
  rw [isNameChar, Char.isAlphanum, h, Bool.or_true]
  rfl

theorem isDigit_of_mem {n : Nat} {c : Char} (h : c ∈ Nat.toDigits 10 n) : c.isDigit = true :=
  Nat.isDigit_of_mem_toDigits (by decide) (by decide) h

/-- A text that does not begin with a plus sign is read as it stands. -/
theorem count?_of_head {text : List Char} (h : text.head? ≠ some '+') :
    Phrase.count? text =
      if text ≠ [] && text.all (·.isDigit) && Nat.ofDigitChars 10 text 0 < UInt32.size then
        some (UInt32.ofNat (Nat.ofDigitChars 10 text 0))
      else none := by
  have hfold : text.foldl (fun n c => n * 10 + (c.toNat - '0'.toNat)) 0 =
      Nat.ofDigitChars 10 text 0 := by
    rw [Nat.ofDigitChars_eq_foldl]
    simp only [Nat.mul_comm]
  rw [← hfold, Phrase.count?]
  rintro digits rfl
  exact h rfl

/-- A count is read back. -/
theorem count?_toDigits (count : UInt32) :
    Phrase.count? (Nat.toDigits 10 count.toNat) = some count := by
  have hdigits : ∀ c ∈ Nat.toDigits 10 count.toNat, c.isDigit = true := by
    intro c hc
    exact isDigit_of_mem hc
  have hhead : (Nat.toDigits 10 count.toNat).head? ≠ some '+' := by
    intro h
    have hdigit := hdigits '+' (List.mem_of_mem_head? h)
    revert hdigit
    decide
  have hall : (Nat.toDigits 10 count.toNat).all (·.isDigit) = true := List.all_eq_true.2 hdigits
  rw [count?_of_head hhead, Nat.ofDigitChars_ten_toDigits, hall,
    decide_eq_true (Nat.toDigits_ne_nil), decide_eq_true count.toNat_lt_size,
    UInt32.ofNat_toNat]
  rfl

theorem solid_toDigits (n : Nat) : Solid (Nat.toDigits 10 n) := by
  have hne : Nat.toDigits 10 n ≠ [] := Nat.toDigits_ne_nil
  have hchars : ∀ c ∈ Nat.toDigits 10 n, isBlank c = false := fun c hc =>
    isBlank_of_isNameChar (isNameChar_of_isDigit (isDigit_of_mem hc))
  constructor
  · obtain ⟨c, rest, hdigits⟩ := List.exists_cons_of_ne_nil hne
    exact ⟨c, rest, hdigits, hchars c (hdigits ▸ List.mem_cons_self)⟩
  · refine ⟨_, _, (List.dropLast_concat_getLast hne).symm, ?_⟩
    exact hchars _ (List.getLast_mem hne)

theorem repeatCount?_concat {text : List Char} (h : Solid text) :
    Phrase.repeatCount? (text ++ [':']) = Phrase.count? text := by
  rw [Phrase.repeatCount?, stripSuffix_append, Option.bind_some, h.trim]

theorem repeatCount?_toDigits (count : UInt32) :
    Phrase.repeatCount? (Nat.toDigits 10 count.toNat ++ [':']) = some count :=
  (repeatCount?_concat (solid_toDigits count.toNat)).trans (count?_toDigits count)

/-- The header of a block is not taken for a branch that binds a name. -/
theorem namedBranch?_loop (count : UInt32) : Phrase.namedBranch? (mark (.loop count)) = none := by
  have hnot : '=' ∉ mark (.loop count) := by
    have hword : '=' ∉ "repeat ".toList := by decide
    have hcolon : '=' ∉ [':'] := by decide
    intro hmem
    rcases List.mem_append.1 hmem with hmem | hmem
    · exact hword hmem
    rcases List.mem_append.1 hmem with hmem | hmem
    · have hdigit := isDigit_of_mem hmem
      revert hdigit
      decide
    · exact hcolon hmem
  rw [Phrase.namedBranch?, splitFirst_of_not_mem hnot]
  rfl

theorem namedBranch?_parallel (policy : FailurePolicy) :
    Phrase.namedBranch? (mark (.parallel policy)) = none := by
  cases policy with
  | failFast => decide
  | proceed => decide
  | ignore => decide

end Playbook.Program.Printer
