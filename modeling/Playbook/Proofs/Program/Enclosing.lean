import Playbook.Proofs.Program.Definitions
import Playbook.Proofs.Program.Literals
import Playbook.Proofs.Program.Sourcing

/-!
# `Proofs.Program.Enclosing` — what becomes of blocks

A line of code that ends in three quotes, and has an odd number of such threes, opens a block before it is known what the line says. No
statement, branch or header can end so, and of the properties only a prompt, which is the text of the block, and a bare value. The
bare value keeps its quotes, and the block behind it is lost.

## Contents
- **Texts that are shut.** `Shut` texts open no block; `quote_mem_of_literalFrom`: a literal takes no three quotes at its end.
- **Phrases.** `Phrase.shut_of_wholeLiteral`, up to `Phrase.shut_of_simple` and `Phrase.shut_of_namedBranch`.
- **Headers.** `Phrase.shut_of_headerName?`, `Phrase.shut_of_catchName?`, `Phrase.shut_of_repeatCount?`.
- **Lines.** `shut_of_mark`.
- **Properties.** `Parser.Uses` says what a property does with a block; `Parser.uses_of_setProperty`; `Parser.mem_definition`: other
  lines are shut.
- **Statement.** `blocks_enclosed`.
-/

namespace Playbook.Program

open Text

/-! ## Texts that are shut -/

/-- A text that does not end in three quotes. -/
def Shut (text : List Char) : Prop :=
  endsWith text tripleQuote = false

variable {text rest before : List Char}

theorem Shut.not_opensBlock (h : Shut text) : opensBlock text = false := by
  rw [opensBlock, h, Bool.false_and]

theorem shut_concat {c : Char} (hc : c ≠ '"') (s : List Char) : Shut (s ++ [c]) := by
  rw [Shut, ← Bool.not_eq_true]
  intro hends
  obtain ⟨front, hfront⟩ := eq_append_of_endsWith hends
  have hlast := congrArg List.getLast? hfront
  rw [List.getLast?_concat, List.getLast?_append] at hlast
  exact hc (Option.some.inj hlast)

theorem Shut.append (h : Shut text) (hbefore : '"' ∉ before) : Shut (before ++ text) :=
  (endsWith_append hbefore text).trans h

theorem shut_of_not_mem (h : '"' ∉ text) : Shut text := by
  rw [← List.append_nil text]
  exact Shut.append rfl h

theorem Shut.of_trimEnd (h : Shut (trimEnd text)) : Shut text := by
  obtain ⟨blanks, htext, hblanks⟩ := exists_blanks text
  rcases List.eq_nil_or_concat blanks with rfl | ⟨blanks, c, rfl⟩
  · rw [List.append_nil] at htext
    rwa [htext]
  · have hc : c ≠ '"' := by
      rintro rfl
      have hblank := hblanks '"' (by simp)
      cases hblank
    rw [htext, List.concat_eq_append, ← List.append_assoc]
    exact shut_concat hc _

/-- There is no quote among blanks. -/
theorem quote_not_mem (h : ∀ c ∈ text, isBlank c = true) : '"' ∉ text := by
  intro hmem
  cases h '"' hmem

theorem Shut.of_trimStart (h : Shut (trimStart text)) : Shut text := by
  have hsplit : text.takeWhile isBlank ++ trimStart text = text := List.takeWhile_append_dropWhile
  rw [← hsplit]
  refine h.append (quote_not_mem fun c hc => ?_)
  have hall := List.all_takeWhile (p := isBlank) (l := text)
  exact List.all_eq_true.1 hall c hc

theorem Shut.of_trim (h : Shut (trim text)) : Shut text :=
  .of_trimStart (.of_trimEnd h)

/-- Of three quotes at the end of a text, one is left over behind a literal. -/
theorem quote_mem_of_literalFrom {value s : List Char} {found : String}
    (h : Phrase.literalFrom value (s ++ tripleQuote) = .ok (found, rest)) : '"' ∈ rest := by
  obtain ⟨inner, ending, hsplit, hinner, hending⟩ := exists_quoted (s ++ tripleQuote)
  obtain ⟨next, hnext⟩ := hinner.literalFrom_append value
  rw [hsplit, hnext] at h
  cases hending with
  | missing | dangling => cases h
  | closed =>
    cases h
    rcases List.eq_nil_or_concat rest with rfl | ⟨front, c, rfl⟩
    · -- If the third one closed the literal, the second one would stand behind a backslash.
      have hthree : s ++ ['"'] ++ ['"'] ++ ['"'] = inner ++ ['"'] := by
        rw [List.append_assoc, List.append_assoc]
        exact hsplit
      rw [← List.append_cancel_right hthree] at hinner
      have hlast := hinner.getLast?_eq_backslash
      rw [List.getLast?_concat] at hlast
      cases hlast
    · have hlast := congrArg List.getLast? hsplit
      rw [List.concat_eq_append, ← List.cons_append, ← List.append_assoc, List.getLast?_concat, List.getLast?_append] at hlast
      cases hlast
      rw [List.concat_eq_append]
      exact List.mem_append_right _ List.mem_cons_self

namespace Phrase

/-- A text that is a literal and nothing more is shut. -/
theorem shut_of_wholeLiteral {extra : Fault} {value : String} (hquote : text.head? = some '"')
    (h : wholeLiteral extra text = .ok value) : Shut text := by
  rw [Shut, ← Bool.not_eq_true]
  intro hends
  obtain ⟨front, rfl⟩ := eq_append_of_endsWith hends
  obtain ⟨⟨found, rest⟩, hread, h⟩ := bind_eq_ok.1 h
  have hrest : '"' ∈ rest := by
    cases front with
    | nil =>
      cases hread
      exact List.mem_cons_self
    | cons c front => exact quote_mem_of_literalFrom hread
  simp only at h
  split at h
  · rename_i hblank
    have hmem := mem_trim hrest rfl
    rw [hblank] at hmem
    cases hmem
  · cases h

theorem shut_of_isName (h : isName text = true) : Shut text :=
  shut_of_not_mem (Printer.not_mem_of_isName h (by decide))

theorem shut_of_title {keyword value : String} (h : title keyword text = .ok value) : Shut text := by
  unfold title at h
  split at h
  · exact shut_of_wholeLiteral rfl h
  · cases h

theorem shut_of_call {keyword : String} {needsAgent : Bool} {c : SessionCall} (h : call keyword needsAgent text = .ok c) :
    Shut text := by
  refine .of_trimStart ?_
  unfold call at h
  split at h
  · rename_i rest htext
    rw [htext]
    simp only at h
    split at h
    · rename_i hname
      obtain ⟨value, htitle, -⟩ := bind_eq_ok.1 h
      have hword : (firstWord (trimStart rest)).1 ++ (firstWord (trimStart rest)).2 = trimStart rest :=
        List.takeWhile_append_dropWhile
      have hrest : Shut (trimStart rest) := by
        rw [← hword]
        exact (Shut.of_trimStart (shut_of_title htitle)).append (Printer.not_mem_of_isName hname (by decide))
      exact Shut.append (Shut.of_trimStart hrest) (show '"' ∉ [':'] by decide)
    · cases h
  · split at h
    · cases h
    · obtain ⟨value, htitle, -⟩ := bind_eq_ok.1 h
      exact shut_of_title htitle

theorem eq_append_drop {word more : List Char} (h : startsWith text (word ++ more) = true) :
    text = word ++ text.drop word.length := by
  obtain ⟨rest, hrest⟩ := Option.isSome_iff_exists.1 h
  rw [stripPrefix_eq_some_iff, List.append_assoc] at hrest
  rw [hrest, List.drop_left]

theorem shut_of_expr {value : Expr} (h : expr text = .ok value) : Shut text := by
  unfold expr at h
  split at h
  · rename_i hquote
    obtain ⟨v, hv, -⟩ := map_eq_ok.1 h
    obtain ⟨rest, hrest⟩ := Option.isSome_iff_exists.1 hquote
    rw [stripPrefix_eq_some_iff] at hrest
    exact shut_of_wholeLiteral (by rw [hrest]; rfl) hv
  · split at h
    · rename_i hword
      obtain ⟨c, hc, -⟩ := map_eq_ok.1 h
      have htext : text = sessionWord ++ text.drop sessionWord.length := by
        rcases Bool.or_eq_true_iff.1 hword with hword | hword
        · exact eq_append_drop hword
        · exact eq_append_drop hword
      rw [htext]
      exact (shut_of_call hc).append (by decide)
    · split at h
      · rename_i hword
        obtain ⟨c, hc, -⟩ := map_eq_ok.1 h
        rw [eq_append_drop hword]
        exact (shut_of_call hc).append (by decide)
      · split at h
        · rename_i hname
          exact shut_of_isName hname
        · cases h

/-- What stands behind a name and an equals sign decides. -/
theorem shut_of_binding {name value : List Char} (hsplit : splitFirst ['='] text = some (name, value))
    (hname : isName (trim name) = true) (h : Shut (trim value)) : Shut text := by
  obtain ⟨rfl, -⟩ := splitFirst_eq_some hsplit
  have hquote : '"' ∉ name := fun hmem => Printer.not_mem_of_isName hname (by decide) (mem_trim hmem rfl)
  exact (Shut.append h.of_trim (show '"' ∉ ['='] by decide)).append hquote

theorem shut_of_assignment {a : String × Expr} (h : assignment text = .ok a) : Shut text := by
  unfold assignment at h
  split at h
  · cases h
  · rename_i name value hsplit
    simp only at h
    split at h
    · rename_i hname
      obtain ⟨v, hv, -⟩ := bind_eq_ok.1 h
      exact shut_of_binding hsplit hname (shut_of_expr hv)
    · cases h

theorem shut_of_simple {s : Stmt} (h : simple text = .ok s) : Shut text := by
  unfold simple at h
  split at h
  · rename_i rest hrest
    obtain ⟨a, ha, -⟩ := map_eq_ok.1 h
    rw [stripPrefix_eq_some_iff.1 hrest]
    exact (shut_of_assignment ha).append (by decide)
  · split at h
    · rename_i rest hrest
      obtain ⟨a, ha, -⟩ := map_eq_ok.1 h
      rw [stripPrefix_eq_some_iff.1 hrest]
      exact (shut_of_assignment ha).append (by decide)
    · split at h
      · rename_i rest hrest
        obtain ⟨c, hc, -⟩ := map_eq_ok.1 h
        rw [stripPrefix_eq_some_iff.1 hrest]
        exact (shut_of_call hc).append (by decide)
      · split at h
        · rename_i rest hrest
          obtain ⟨c, hc, -⟩ := map_eq_ok.1 h
          rw [stripPrefix_eq_some_iff.1 hrest]
          exact (shut_of_call hc).append (by decide)
        · cases h

theorem shut_of_namedBranch {name : String} {value : List Char} {b : Branch}
    (hsplit : namedBranch? text = some (name, value)) (h : namedBranch name value = .ok b) : Shut text := by
  have hvalue : Shut value := by
    unfold namedBranch at h
    split at h
    · obtain ⟨s, hs, -⟩ := map_eq_ok.1 h
      exact shut_of_simple hs
    · obtain ⟨v, hv, -⟩ := map_eq_ok.1 h
      exact shut_of_expr hv
  unfold namedBranch? at hsplit
  obtain ⟨⟨before, after⟩, hfound, hsplit⟩ := Option.bind_eq_some_iff.1 hsplit
  simp only at hsplit
  split at hsplit
  · rename_i hname
    cases hsplit
    simp only [Bool.and_eq_true] at hname
    exact shut_of_binding hfound hname.1.1 hvalue
  · cases hsplit

/-! ## Headers -/

theorem shut_of_stripSuffix (h : stripSuffix [':'] text = some rest) : Shut text := by
  obtain ⟨front, rfl⟩ := eq_append_of_endsWith (show endsWith text [':'] = true by rw [endsWith, h]; rfl)
  exact shut_concat (by decide) front

theorem shut_of_headerName? {keyword : List Char} {name : String} (h : headerName? keyword text = some name)
    (hkeyword : '"' ∉ keyword) : Shut text := by
  unfold headerName? at h
  obtain ⟨rest, hrest, h⟩ := Option.bind_eq_some_iff.1 h
  obtain ⟨more, hmore, -⟩ := Option.bind_eq_some_iff.1 h
  rw [stripPrefix_eq_some_iff.1 hrest]
  exact (shut_of_stripSuffix hmore).append hkeyword

theorem shut_of_catchName? {name : Option String} (h : catchName? text = some name) : Shut text := by
  unfold catchName? at h
  split at h
  · rename_i htext
    rw [htext]
    exact shut_of_not_mem (by decide)
  · obtain ⟨v, hv, -⟩ := Option.map_eq_some_iff.1 h
    exact shut_of_headerName? hv (by decide)

theorem shut_of_repeatCount? {count : UInt32} (h : repeatCount? text = some count) : Shut text := by
  unfold repeatCount? at h
  obtain ⟨rest, hrest, -⟩ := Option.bind_eq_some_iff.1 h
  exact shut_of_stripSuffix hrest

end Phrase

/-! ## Lines -/

/-- A line that belongs to no agent opens no block. -/
theorem shut_of_mark {mark : Mark} (h : mark.Says text) : Shut text := by
  cases h with
  | attempt => exact shut_of_not_mem (by decide)
  | handler opens tells => exact Phrase.shut_of_catchName? tells
  | final => exact shut_of_not_mem (by decide)
  | parallel opens tells =>
    obtain ⟨front, rfl⟩ := eq_append_of_endsWith opens.2
    exact shut_concat (by decide) front
  | loop opens tells =>
    rw [stripPrefix_eq_some_iff.1 opens]
    exact (Phrase.shut_of_repeatCount? tells).append (by decide)
  | plain tells => exact Phrase.shut_of_simple tells
  | named splits tells => exact Phrase.shut_of_namedBranch splits tells
  | bare splits tells => exact Phrase.shut_of_simple tells

/-! ## Properties -/

namespace Parser

variable {a b : Agent} {line : Line} {block : List (List Char)}

/-- What a property does with the block that its line opens. -/
inductive Uses (line : Line) (block : List (List Char)) : Prop where
  /-- The block is the text of a prompt. -/
  | prompt (property : line.property? = some ("prompt".toList, tripleQuote))
      (sets : ∀ a, setProperty a line = .ok { a with prompt := some (String.ofList (dedent block)) })
  /-- A bare value ends in quotes, and is the same with any block. -/
  | lost {key value : List Char} (property : line.property? = some (key, value))
      (scalar : key = "model".toList ∨ key = "persist".toList) (bare : value.head? ≠ some '"')
      (quotes : endsWith value tripleQuote = true)
      (sets : ∀ a other, setProperty a { line with block := other } =
        .ok (if key = "model".toList then { a with model := some (String.ofList value) }
          else { a with persist := some (String.ofList value) }))

/-- The value on a line ends as the line does. -/
theorem shut_of_property {key value : List Char} (h : line.property? = some (key, value)) (hkey : '"' ∉ key)
    (hvalue : Shut value) : Shut line.text := by
  obtain ⟨⟨before, after⟩, hsplit, hfound⟩ := Option.map_eq_some_iff.1 h
  cases hfound
  obtain ⟨htext, -⟩ := splitFirst_eq_some hsplit
  have hquote : '"' ∉ before := fun hmem => hkey (mem_trim hmem rfl)
  rw [htext]
  exact (Shut.append hvalue.of_trim (show '"' ∉ [':'] by decide)).append hquote

/-- A scalar that ends in three quotes is bare, and is taken as it is. -/
theorem scalar_of_open {value : List Char} {v : String} (h : Phrase.scalar value = .ok v) (hopen : ¬Shut value) :
    value.head? ≠ some '"' ∧ Phrase.scalar value = .ok (String.ofList value) := by
  unfold Phrase.scalar at h ⊢
  split at h
  · exact absurd (Phrase.shut_of_wholeLiteral rfl h) hopen
  · cases h
  · rename_i hquote hsome
    refine ⟨fun hhead => ?_, rfl⟩
    obtain ⟨rest, hrest⟩ := List.head?_eq_some_iff.1 hhead
    exact hquote rest hrest

/-- A property `model` or `persist` whose value is a bare scalar that opens a block loses the block, whatever the block says. -/
theorem uses_of_scalar {key value : List Char} {v : String} (hproperty : line.property? = some (key, value))
    (hkey : key = "model".toList ∨ key = "persist".toList) (hv : Phrase.scalar value = .ok v) (hopen : ¬Shut value) :
    Uses line block := by
  obtain ⟨hbare, hscalar⟩ := scalar_of_open hv hopen
  refine .lost hproperty hkey hbare (eq_true_of_ne_false hopen) fun a other => ?_
  have hother : Line.property? { line with block := other } = some (key, value) := hproperty
  rw [setProperty_eq hother, hscalar]
  rcases hkey with rfl | rfl
  · rfl
  · rfl

theorem uses_of_setProperty (h : setProperty a line = .ok b) (hblock : line.block = some block) (hopen : ¬Shut line.text) :
    Uses line block := by
  obtain ⟨value, v, ⟨hproperty, hv, -⟩ | ⟨hproperty, hv, -⟩ | ⟨hproperty, hv, -⟩⟩ := setProperty_eq_ok h
  · exact uses_of_scalar hproperty (.inl rfl) hv fun hvalue => hopen (shut_of_property hproperty (by decide) hvalue)
  · exact uses_of_scalar hproperty (.inr rfl) hv fun hvalue => hopen (shut_of_property hproperty (by decide) hvalue)
  · rw [hblock, Phrase.prompt] at hv
    split at hv
    · rename_i htriple
      rw [htriple] at hproperty
      refine .prompt hproperty fun a => ?_
      rw [setProperty_eq hproperty, hblock]
      rfl
    · cases hv

/-- All lines of a definition set properties. -/
theorem setProperty_of_foldlM {lines : List Line} (h : lines.foldlM setProperty a = .ok b) (hline : line ∈ lines) :
    ∃ a' b', setProperty a' line = .ok b' := by
  induction lines generalizing a with
  | nil => cases hline
  | cons first lines ih =>
    rw [List.foldlM_cons] at h
    obtain ⟨a', hset, hrest⟩ := bind_eq_ok.1 h
    rcases List.mem_cons.1 hline with rfl | hline
    · exact ⟨a, a', hset⟩
    · exact ih hrest hline

/-- A line of code that is not shut is in an agent's definition. -/
theorem mem_definition {depth : Nat} {agents : Agents} {stmts : List Stmt} {read : List Line}
    (htop : top depth [] (read.dropWhile (·.isComment)) = .ok (agents, stmts)) (hbound : read.length < depth)
    (hline : line ∈ codeLines read) (hopen : ¬Shut line.text) :
    ∃ definition ∈ definitions (codeLines read), Defined agents definition ∧ line ∈ definition.2 := by
  have hbound := Nat.lt_of_le_of_lt (List.dropWhile_sublist (fun l : Line => l.isComment)).length_le hbound
  have hshown := (top_sound hbound htop).1
  have hdefined := (top_defines hbound htop).2
  rw [outsideAgents, codeLines_dropWhile] at hshown
  rw [codeLines_dropWhile] at hdefined
  cases stands false hline with
  | outside mem =>
    obtain ⟨e, -, hshows⟩ := exists_shows hshown mem
    exact absurd (shut_of_mark hshows.2) hopen
  | header stands opens =>
    obtain ⟨front, rest, hsplit⟩ := List.append_of_mem hline
    obtain ⟨name, a, hname, -⟩ := hdefined _ (hsplit ▸ mem_definitions front stands opens)
    exact absurd (Phrase.shut_of_headerName? hname (by decide)) hopen
  | property defined mem => exact ⟨_, defined, hdefined _ defined, mem⟩
  | left inside => cases inside

/-- A line with a block is code that is not shut. -/
theorem open_of_block {first : Nat} {raws : List (List Char)} (h : Line.Sourced first raws line)
    (hblock : line.block = some block) : line.isComment = false ∧ ¬Shut line.text := by
  cases h with
  | comment => cases hblock
  | code => cases hblock
  | block front split shaped opens =>
    refine ⟨rfl, fun hshut => ?_⟩
    rw [hshut.not_opensBlock] at opens
    cases opens

end Parser

/-! ## Statement -/

/-- **Only properties open blocks.** In a source that can be read, every block belongs to a property of an agent: it is the text of a
    prompt, or it stands behind a bare value that ends in quotes, and is lost. -/
theorem blocks_enclosed {source : String} {p : Program} (h : parse source = .ok p) :
    ∃ read, Line.ofSource source = .ok read ∧ ∀ line ∈ read, ∀ block, line.block = some block →
      Line.Sourced 1 (lines source.toList) line ∧
        ∃ definition ∈ Parser.definitions (Parser.codeLines read), Parser.Defined p.agents definition ∧
          line ∈ definition.2 ∧ Parser.Uses line block := by
  obtain ⟨read, hread, htop, -⟩ := parse_eq_ok_iff.1 h
  refine ⟨read, hread, fun line hline block hblock => ?_⟩
  have htraced := (Line.reads 1 (lines source.toList)).traced
  rw [show Line.ofRaw none 1 (lines source.toList) = .ok read from hread] at htraced
  cases htraced with
  | read sourced =>
    obtain ⟨hcode, hopen⟩ := Parser.open_of_block (sourced line hline) hblock
    have hmem : line ∈ Parser.codeLines read := List.mem_filter.2 ⟨hline, by rw [hcode]; rfl⟩
    obtain ⟨definition, hdefinition, hdefined, hin⟩ := Parser.mem_definition htop (Nat.lt_succ_self _) hmem hopen
    obtain ⟨name, a, -, hfold, -⟩ := id hdefined
    obtain ⟨a', b', hset⟩ := Parser.setProperty_of_foldlM hfold hin
    exact ⟨sourced line hline, definition, hdefinition, hdefined, hin, Parser.uses_of_setProperty hset hblock hopen⟩

/-- An agent whose model ends in quotes, with a block behind it. -/
def lossy : String :=
  "agent a:\n  model: x\"\"\"\n    lost\n  \"\"\"\n"

theorem blocks_enclosed_lossy : ∃ p read line, parse lossy = .ok p ∧ Line.ofSource lossy = .ok read ∧ line ∈ read ∧
    line.block = some ["    lost".toList] ∧ Parser.Uses line ["    lost".toList] ∧
      p.agents = [("a", { Agent.named "a" with model := some "x\"\"\"" })] := by
  have hagents : (parse lossy).toOption.map (·.agents) = some [("a", { Agent.named "a" with model := some "x\"\"\"" })] := by
    decide +kernel
  cases hparse : parse lossy with
  | error e =>
    rw [hparse] at hagents
    cases hagents
  | ok p =>
    rw [hparse] at hagents
    obtain ⟨read, hread, huses⟩ := blocks_enclosed hparse
    have hlines : Line.ofSource lossy = .ok [⟨1, 0, "agent a:".toList, false, none⟩,
        ⟨2, 2, "model: x\"\"\"".toList, false, some ["    lost".toList]⟩] := by
      decide +kernel
    cases hlines.symm.trans hread
    have hmem : (⟨2, 2, "model: x\"\"\"".toList, false, some ["    lost".toList]⟩ : Line) ∈
        [⟨1, 0, "agent a:".toList, false, none⟩, ⟨2, 2, "model: x\"\"\"".toList, false, some ["    lost".toList]⟩] :=
      List.mem_cons_of_mem _ List.mem_cons_self
    obtain ⟨-, -, -, -, -, huse⟩ := huses _ hmem _ rfl
    exact ⟨p, _, _, rfl, hlines, hmem, rfl, huse, Option.some.inj hagents⟩

end Playbook.Program
