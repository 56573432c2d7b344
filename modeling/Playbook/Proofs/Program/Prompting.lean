import Playbook.Proofs.Program.Definitions
import Playbook.Proofs.Program.Roundtrip
import Playbook.Proofs.Program.Spacing

/-!
# `Proofs.Program.Prompting` — prompts that are written as blocks

A prompt of many lines can be written as a block of raw lines or as one literal. The block may be indented as one likes: the spaces
that all of its lines have in common are cut off, and nothing else is, so that marks of comments, quotes and blank lines in it stay.
The two programs are the same, and so are the errors, except that the lines behind the block have greater numbers.

## Contents
- **Blocks.** `PromptText` says which texts can be written as a block, `blockLines` writes them, `dedent_blockLines`.
- **Properties.** `SetsPrompt`, `Defined.prompt`: the last line that sets the prompt decides.
- **Places.** `InDefinition`, `LastPrompt`, and `placeBehind` for the numbers of lines.
- **Prompts.** `promptLine` and `opening`, which set the same prompt; `matched_prompt`, `prompt_of_top`.
- **Statement.** `parse_block_prompt`.
-/

namespace Playbook.Program

open Text

/-! ## Blocks -/

/-- A text that can be written as a block: its lines end in no blanks, none looks like the end of the block, the first and the last one
    are not empty, and not all of them begin with a space. -/
structure PromptText (text : String) : Prop where
  trimmed : ∀ l ∈ splitOn '\n' text.toList, trimEnd l = l
  inside : ∀ l ∈ splitOn '\n' text.toList, trim l ≠ tripleQuote
  first : (splitOn '\n' text.toList).head? ≠ some []
  last : (splitOn '\n' text.toList).getLast? ≠ some []
  flush : ∃ c rest, c :: rest ∈ splitOn '\n' text.toList ∧ c ≠ ' '

/-- A line behind spaces, unless it is empty. -/
def indented (width : Nat) (l : List Char) : List Char :=
  if l = [] then [] else List.replicate width ' ' ++ l

/-- The lines of a block that holds a text. -/
def blockLines (width : Nat) (text : String) : List (List Char) :=
  (splitOn '\n' text.toList).map (indented width)

variable {width : Nat} {l : List Char} {text : String}

theorem indented_nil (width : Nat) : indented width [] = [] :=
  if_pos rfl

theorem indented_cons (width : Nat) (c : Char) (l : List Char) :
    indented width (c :: l) = List.replicate width ' ' ++ c :: l :=
  if_neg (List.cons_ne_nil _ _)

theorem leadingSpaces_indented (width : Nat) (l : List Char) :
    leadingSpaces (List.replicate width ' ' ++ l) = width + leadingSpaces l := by
  rw [leadingSpaces, List.takeWhile_append_of_pos, List.length_append, List.length_replicate, leadingSpaces]
  intro c hc
  rw [List.eq_of_mem_replicate hc]
  rfl

theorem trimEnd_indented (h : trimEnd l = l) : trimEnd (indented width l) = indented width l := by
  cases l with
  | nil =>
    rw [indented_nil]
    rfl
  | cons c l =>
    rw [indented_cons]
    refine trimEnd_of_getLast fun d hd => ?_
    rw [List.getLast?_append_of_ne_nil _ (List.cons_ne_nil _ _), ← h] at hd
    exact getLast?_trimEnd d hd

theorem trim_indented (width : Nat) (l : List Char) : trim (indented width l) = trim l := by
  cases l with
  | nil => rw [indented_nil]
  | cons c l =>
    rw [indented_cons, trim, trim, trimStart, List.dropWhile_append_of_pos]
    · rfl
    · intro d hd
      rw [List.eq_of_mem_replicate hd]
      rfl

/-- The spaces that are cut off are those that were put before the line. -/
theorem drop_indented (width : Nat) (l : List Char) :
    (indented width l).drop (min (leadingSpaces (indented width l)) width) = l := by
  cases l with
  | nil => rw [indented_nil, List.drop_nil]
  | cons c l =>
    rw [indented_cons, leadingSpaces_indented, Nat.min_eq_right (Nat.le_add_right _ _)]
    exact List.drop_left' List.length_replicate

theorem least_eq {n : Nat} {ns : List Nat} (hmem : n ∈ ns) (hle : ∀ m ∈ ns, n ≤ m) : least ns = n := by
  cases ns with
  | nil => cases hmem
  | cons m ns =>
    rw [least]
    induction ns generalizing m with
    | nil => exact (List.mem_singleton.1 hmem).symm
    | cons k ns ih =>
      rw [List.forall_mem_cons, List.forall_mem_cons] at hle
      obtain ⟨hm, hk, hns⟩ := hle
      rw [List.foldl_cons]
      refine ih (min m k) ?_ (List.forall_mem_cons.2 ⟨Nat.le_min.2 ⟨hm, hk⟩, hns⟩)
      rcases List.mem_cons.1 hmem with rfl | hmem
      · rw [Nat.min_eq_left hk]
        exact List.mem_cons_self
      · rcases List.mem_cons.1 hmem with rfl | hmem
        · rw [Nat.min_eq_right hm]
          exact List.mem_cons_self
        · exact List.mem_cons_of_mem _ hmem

/-- A text whose first and last lines are not empty has no line feeds at its ends. -/
theorem PromptText.trimOf_eq (h : PromptText text) : trimOf '\n' text.toList = text.toList := by
  have hstart : text.toList.dropWhile (· == '\n') = text.toList := by
    cases htext : text.toList with
    | nil => rfl
    | cons c rest =>
      refine List.dropWhile_cons_of_neg fun hc => h.first ?_
      rw [htext, beq_iff_eq.1 hc, ← List.nil_append ('\n' :: rest), splitOn_append]
      rfl
  rw [trimOf, hstart]
  refine dropEndWhile_of_getLast fun c hc => ?_
  by_contra hfeed
  have hfeed : c = '\n' := by simpa using hfeed
  obtain ⟨front, htext⟩ := List.getLast?_eq_some_iff.1 hc
  refine h.last ?_
  rw [htext, hfeed, splitOn_append, List.getLast?_append]
  rfl

/-- The spaces that all lines of a block have in common are those that were put before them. -/
theorem margin_blockLines (h : PromptText text) (width : Nat) :
    least (((blockLines width text).filter fun l => trim l ≠ []).map leadingSpaces) = width := by
  refine least_eq ?_ fun n hn => ?_
  · obtain ⟨c, rest, hmem, hc⟩ := h.flush
    refine List.mem_map.2 ⟨indented width (c :: rest), List.mem_filter.2 ⟨List.mem_map_of_mem hmem, ?_⟩, ?_⟩
    · rw [decide_eq_true_eq, trim_indented]
      intro hblank
      have hempty := trimEnd_of_blanks (trim_eq_nil_iff.1 hblank)
      rw [h.trimmed _ hmem] at hempty
      cases hempty
    · rw [indented_cons, leadingSpaces_indented, leadingSpaces, List.takeWhile_cons_of_neg]
      · rfl
      · simpa using hc
  · obtain ⟨l, hl, rfl⟩ := List.mem_map.1 hn
    obtain ⟨hl, hsome⟩ := List.mem_filter.1 hl
    obtain ⟨l, -, rfl⟩ := List.mem_map.1 hl
    cases l with
    | nil => exact absurd (by rw [indented_nil]; rfl) (of_decide_eq_true hsome)
    | cons c rest =>
      rw [indented_cons, leadingSpaces_indented]
      exact Nat.le_add_right _ _

/-- A block that holds a text is read as the text. -/
theorem dedent_blockLines (h : PromptText text) (width : Nat) : dedent (blockLines width text) = text.toList := by
  have hlines : (blockLines width text).map (fun l => l.drop (min (leadingSpaces l) width)) = splitOn '\n' text.toList := by
    rw [blockLines, List.map_map]
    exact List.map_id'' (drop_indented width) _
  rw [dedent, margin_blockLines h, hlines, joinWith_splitOn, h.trimOf_eq]

/-! ## Properties -/

namespace Parser

variable {a b : Agent} {line : Line} {lines : List Line}

/-- Whether a line sets the prompt. -/
def SetsPrompt (line : Line) : Prop :=
  ∃ value, line.property? = some ("prompt".toList, value)

/-- Another property leaves the prompt as it is. -/
theorem setProperty_keeps_prompt (hother : ¬SetsPrompt line) (h : setProperty a line = .ok b) : b.prompt = a.prompt := by
  obtain ⟨value, v, ⟨-, -, rfl⟩ | ⟨-, -, rfl⟩ | ⟨hprompt, -⟩⟩ := setProperty_eq_ok h
  · rfl
  · rfl
  · exact absurd ⟨value, hprompt⟩ hother

theorem foldlM_keeps_prompt (hothers : ∀ l ∈ lines, ¬SetsPrompt l) (h : lines.foldlM setProperty a = .ok b) :
    b.prompt = a.prompt := by
  induction lines generalizing a with
  | nil =>
    cases h
    rfl
  | cons l lines ih =>
    rw [List.forall_mem_cons] at hothers
    rw [List.foldlM_cons] at h
    obtain ⟨a', hset, hrest⟩ := bind_eq_ok.1 h
    exact (ih hothers.2 hrest).trans (setProperty_keeps_prompt hothers.1 hset)

/-- The last line of a definition that sets the prompt decides. -/
theorem Defined.prompt {agents : Agents} {header : Line} {props later : List Line} {name text : String}
    (h : Defined agents (header, props ++ line :: later)) (hname : Phrase.agentName? header.text = some name)
    (hset : ∀ a, setProperty a line = .ok { a with prompt := some text })
    (hlater : ∀ l ∈ later, ¬SetsPrompt l) : ∃ a, agents.get? name = some a ∧ a.prompt = some text := by
  obtain ⟨name', a, hname', hfold, hget⟩ := h
  obtain rfl : name' = name := Option.some.inj (hname'.symm.trans hname)
  rw [List.foldlM_append] at hfold
  obtain ⟨a', -, hfold⟩ := bind_eq_ok.1 hfold
  rw [List.foldlM_cons, hset] at hfold
  exact ⟨a, hget, foldlM_keeps_prompt hlater hfold⟩

/-- A header with a name opens an agent's definition. -/
theorem opensAgent_of_agentName? {name : String} (h : Phrase.agentName? line.text = some name) : opensAgent line = true := by
  unfold Phrase.agentName? Phrase.headerName? at h
  obtain ⟨rest, hrest, -⟩ := Option.bind_eq_some_iff.1 h
  rw [opensAgent, startsWith, hrest]
  rfl

theorem foldl_defines_codeLines (inside : Bool) (lines : List Line) :
    lines.foldl defines inside = (codeLines lines).foldl defines inside := by
  induction lines generalizing inside with
  | nil => rfl
  | cons l lines ih =>
    cases hcomment : l.isComment with
    | true => rw [codeLines_cons_comment hcomment, List.foldl_cons, defines_comment hcomment, ih]
    | false => rw [codeLines_cons_code hcomment, List.foldl_cons, List.foldl_cons, ih]

theorem foldl_defines_deeper (h : ∀ l ∈ lines, 0 < l.indent) (inside : Bool) : lines.foldl defines inside = inside := by
  induction lines with
  | nil => rfl
  | cons l lines ih =>
    rw [List.forall_mem_cons] at h
    rw [List.foldl_cons, defines_deeper h.1, ih h.2]

end Parser

/-! ## Places -/

/-- Lines that end in the definition of an agent: the last line of code at the top level is its header. -/
def Parser.EndInside (name : String) (lines : List Line) : Prop :=
  ∃ front header props, Parser.codeLines lines = front ++ header :: props ∧ header.indent = 0 ∧
    Phrase.agentName? header.text = some name ∧ ∀ l ∈ props, 0 < l.indent

/-- Raw lines that can be read and end so. -/
def InDefinition (name : String) (before : List (List Char)) : Prop :=
  ∃ read, Line.ofRaw none 1 before = .ok read ∧ Parser.EndInside name read

/-- No line sets the prompt in what is left of a definition. -/
def LastPrompt (number : Nat) (after : List (List Char)) : Prop :=
  ∀ read, Line.ofRaw none number after = .ok read →
    ∀ l ∈ (Parser.codeLines read).takeWhile (0 < ·.indent), ¬Parser.SetsPrompt l

/-- The number of a line, when lines are added behind one. -/
def placeBehind (last added number : Nat) : Nat :=
  if number ≤ last then number else number + added

theorem Parser.EndInside.foldl_defines {name : String} {lines : List Line} (h : Parser.EndInside name lines) :
    lines.foldl Parser.defines false = true := by
  obtain ⟨front, header, props, hcode, hstands, hname, hprops⟩ := h
  have hheader : header.isComment = false := by
    have hmem : header ∈ Parser.codeLines lines := hcode ▸ List.mem_append_right _ List.mem_cons_self
    simpa using (List.mem_filter.1 hmem).2
  rw [Parser.foldl_defines_codeLines, hcode, List.foldl_append, List.foldl_cons, Parser.foldl_defines_deeper hprops,
    Parser.defines_outer hheader hstands, Parser.opensAgent_of_agentName? hname]

theorem placeBehind_of_le {last added number : Nat} (h : number ≤ last) : placeBehind last added number = number :=
  if_pos h

section

variable {name : String} {before after : List (List Char)} {closing : List Char} {read more : List Line} {added : Nat}

/-- Behind lines that can be read the reader goes on as at the start. -/
theorem ofRaw_behind (hread : Line.ofRaw none 1 before = .ok read) (more : List (List Char)) :
    Line.ofRaw none 1 (before ++ more) = (Line.ofRaw none (before.length + 1) more).map (read ++ ·) := by
  have hreads := Line.reads 1 before
  rw [hread] at hreads
  rw [hreads.append nofun more, Nat.add_comm]
  rfl

/-- Lines before the place at which lines are added keep their numbers. -/
theorem moved_before (hread : Line.ofRaw none 1 before = .ok read) (added : Nat) :
    read.map (·.moved (placeBehind (before.length + 1) added)) = read := by
  have htraced := (Line.reads 1 before).traced
  rw [hread] at htraced
  cases htraced with
  | read sourced =>
    conv_rhs => rw [← List.map_id read]
    refine List.map_congr_left fun l hl => ?_
    have hlast := (sourced l hl).number_lt
    rw [Line.moved, placeBehind_of_le (by omega)]
    rfl

/-- The lines behind them get greater ones. -/
theorem agrees_behind (last added : Nat) (after : List (List Char)) :
    Agrees (placeBehind last added) (Spacing.Same (placeBehind last added)) (Line.ofRaw none (last + 1) after)
      (Line.ofRaw none (last + 1 + added) after) := by
  refine Spacing.agrees_still after fun m => ?_
  rw [placeBehind, if_neg (by omega)]
  omega

/-! ## Prompts -/

/-- A line with the prompt as a literal. -/
def promptLine (number : Nat) (text : String) : Line :=
  Printer.line number (2, "prompt".toList ++ ':' :: ' ' :: Printer.literal text)

/-- A line that opens a block for the prompt. -/
def opening (number : Nat) (block : List (List Char)) : Line :=
  ⟨number, 2, "prompt: \"\"\"".toList, false, some block⟩

theorem setProperty_promptLine (a : Agent) (number : Nat) (text : String) :
    Parser.setProperty a (promptLine number text) = .ok { a with prompt := some text } :=
  Printer.setProperty_prompt a text number

/-- The property with the prompt as a block sets the same prompt as the one with the literal. -/
theorem setProperty_opening (htext : PromptText text) (a : Agent) (number : Nat) :
    Parser.setProperty a (opening number (blockLines width text)) = .ok { a with prompt := some text } := by
  have hdedent : Parser.setProperty a (opening number (blockLines width text)) =
      .ok { a with prompt := some (String.ofList (dedent (blockLines width text))) } := rfl
  rw [hdedent, dedent_blockLines htext, String.ofList_toList]

theorem ofRaw_promptLine (number : Nat) (text : String) (after : List (List Char)) :
    Line.ofRaw none number (("  prompt: ".toList ++ Printer.literal text) :: after) =
      (Line.ofRaw none (number + 1) after).map (promptLine number text :: ·) := by
  have hcoded : Printer.Coded ("prompt".toList ++ ':' :: ' ' :: Printer.literal text) :=
    Printer.coded_property (by decide) rfl (by decide) text
  have hshape := Printer.shape_raw (d := (2, "prompt".toList ++ ':' :: ' ' :: Printer.literal text)) (.code hcoded)
  rw [if_neg hcoded.worded.head?] at hshape
  have hraw : Printer.raw (2, "prompt".toList ++ ':' :: ' ' :: Printer.literal text) =
    "  prompt: ".toList ++ Printer.literal text := rfl
  rw [hraw] at hshape
  simp only [Line.ofRaw_eq, hshape, hcoded.worded.closed, if_neg Bool.false_ne_true, promptLine, Printer.line,
    decide_eq_false hcoded.worded.head?]

theorem ofRaw_opening (htext : PromptText text) (hclosing : trim closing = tripleQuote) (number : Nat) :
    Line.ofRaw none number ("  prompt: \"\"\"".toList :: (blockLines width text ++ closing :: after)) =
      (Line.ofRaw none (number + 1 + ((blockLines width text).length + 1)) after).map
        (opening number (blockLines width text) :: ·) := by
  have hshape : Line.shape "  prompt: \"\"\"".toList = .code 2 "prompt: \"\"\"".toList := by decide +kernel
  have hopens : opensBlock "prompt: \"\"\"".toList = true := by decide +kernel
  have hinside : ∀ raw ∈ blockLines width text, trim raw ≠ tripleQuote := by
    intro raw hraw
    obtain ⟨l, hl, rfl⟩ := List.mem_map.1 hraw
    rw [trim_indented]
    exact htext.inside l hl
  have htrimmed : (blockLines width text).map trimEnd = blockLines width text := by
    rw [blockLines, List.map_map]
    exact List.map_congr_left fun l hl => trimEnd_indented (htext.trimmed l hl)
  simp only [Line.ofRaw_eq, hshape, hopens, if_true]
  rw [Line.ofRaw_block hinside hclosing, htrimmed]
  rfl

/-- In an agent's definition it does not matter which of the two sets the prompt. -/
theorem matched_prompt (htext : PromptText text) (hread : Line.ofRaw none 1 before = .ok read)
    (hinside : Parser.EndInside name read) (added : Nat) (more : List Line) :
    Parser.Matched (placeBehind (before.length + 1) added) false (read ++ promptLine (before.length + 1) text :: more)
      (read ++ opening (before.length + 1) (blockLines width text) ::
        more.map (·.moved (placeBehind (before.length + 1) added))) := by
  have hmatched : Parser.Matched (placeBehind (before.length + 1) added) (read.foldl Parser.defines false)
      (promptLine (before.length + 1) text :: more) (opening (before.length + 1) (blockLines width text) ::
        more.map (·.moved (placeBehind (before.length + 1) added))) := by
    rw [hinside.foldl_defines]
    refine .property rfl rfl rfl (show 0 < 2 by decide) (placeBehind_of_le (Nat.le_refl _)).symm (fun a => ?_) (.moved true more)
    rw [setProperty_promptLine, setProperty_opening htext]
  have happend := hmatched.append
  rw [moved_before hread] at happend
  exact happend

/-- The prompt that is set is the agent's, unless another line of the definition sets it later. -/
theorem prompt_of_top {depth number : Nat} {agents : Parser.Agents} {stmts : List Stmt} (hinside : Parser.EndInside name read)
    (hbound : (read ++ promptLine number text :: more).length < depth)
    (htop : Parser.top depth [] ((read ++ promptLine number text :: more).dropWhile (·.isComment)) = .ok (agents, stmts))
    (hlast : ∀ l ∈ (Parser.codeLines more).takeWhile (0 < ·.indent), ¬Parser.SetsPrompt l) :
    ∃ a, agents.get? name = some a ∧ a.prompt = some text := by
  obtain ⟨front, header, props, hcode, hstands, hname, hprops⟩ := hinside
  have hdefined := (Parser.top_defines (Nat.lt_of_le_of_lt (List.dropWhile_sublist _).length_le hbound) htop).2
  rw [Parser.codeLines_dropWhile, Parser.codeLines_append, hcode, List.append_assoc, List.cons_append] at hdefined
  have hdefinition := hdefined _ (Parser.mem_definitions front hstands (Parser.opensAgent_of_agentName? hname))
  rw [List.takeWhile_append_of_pos fun l hl => decide_eq_true (hprops l hl), Parser.codeLines_cons_code rfl,
    List.takeWhile_cons_of_pos rfl] at hdefinition
  exact hdefinition.prompt hname (fun a => setProperty_promptLine a number text) hlast

end

/-! ## Statement -/

variable {quoted blocked name : String} {before after : List (List Char)} {closing : List Char}

/-- **A prompt can be written as a block or as a literal.** Where a text is the prompt of an agent, the programs are the same, and so
    are the errors but for the numbers of the lines behind the prompt. The text is the agent's prompt, unless the agent sets another
    one later. -/
theorem parse_block_prompt (htext : PromptText text) (hbefore : InDefinition name before) (hclosing : trim closing = tripleQuote)
    (hquoted : splitOn '\n' quoted.toList = before ++ ("  prompt: ".toList ++ Printer.literal text) :: after)
    (hblocked : splitOn '\n' blocked.toList =
      before ++ "  prompt: \"\"\"".toList :: (blockLines width text ++ closing :: after)) :
    (∃ p, parse quoted = .ok p ∧ parse blocked = .ok p ∧
      (LastPrompt (before.length + 2) after → ∃ a, p.agents.get? name = some a ∧ a.prompt = some text)) ∨
    ∃ number fault, parse quoted = .error (unreadable number fault) ∧
      parse blocked = .error
        (unreadable (placeBehind (before.length + 1) ((blockLines width text).length + 1) number) fault) := by
  obtain ⟨read, hread, hinside⟩ := hbefore
  have hlines : Line.ofSource quoted = (Line.ofRaw none (before.length + 1 + 1) after).map
      fun more => read ++ promptLine (before.length + 1) text :: more := by
    rw [Line.ofSource, Line.ofRaw_lines, hquoted, ofRaw_behind hread, ofRaw_promptLine, map_map]
  have hsame : parse? blocked =
      (parse? quoted).mapError (·.moved (placeBehind (before.length + 1) ((blockLines width text).length + 1))) := by
    rw [parse?, parse?, hlines, Line.ofSource, Line.ofRaw_lines, hblocked, ofRaw_behind hread, ofRaw_opening htext hclosing,
      map_map, map_bind, map_bind]
    refine ((agrees_behind _ _ after).bind fun more more' hmore => ?_).eq
    rw [hmore]
    exact Parser.program_agrees (matched_prompt htext hread hinside _ more)
  cases hparse : parse? quoted with
  | error e =>
    rw [hparse] at hsame
    have hfailed := parse_of_error
      (e := e.moved (placeBehind (before.length + 1) ((blockLines width text).length + 1))) hsame
    exact .inr ⟨e.line, e.fault, parse_of_error hparse, hfailed⟩
  | ok p =>
    rw [hparse] at hsame
    refine .inl ⟨p, parse_of_ok hparse, parse_of_ok hsame, fun hlast => ?_⟩
    obtain ⟨lines, hread', htop, -⟩ := parse_eq_ok_iff.1 (parse_of_ok hparse)
    rw [hlines] at hread'
    obtain ⟨more, hmore, rfl⟩ := map_eq_ok.1 hread'
    exact prompt_of_top hinside (Nat.lt_succ_self _) htop (hlast more hmore)

/-- A prompt with a quote, a mark of comments, a blank line, a deeper line and a line that begins with a blank that is no space. -/
def briefing : String :=
  "Say \"hi\" # twice\n\n  - once\n\u00a0- again"

/-- An agent with the prompt as a literal, and a session. -/
def briefed : String :=
  "agent a:\n  model: m\n  prompt: \"Say \\\"hi\\\" # twice\\n\\n  - once\\n\u00a0- again\"\nsession: a \"Go\"\n"

/-- An agent with the prompt of `briefed` as a block, and a session. -/
def briefedAtLength : String :=
  "agent a:\n  model: m\n  prompt: \"\"\"\n     Say \"hi\" # twice\n\n       - once\n     \u00a0- again\n\t\"\"\"\n" ++
    "session: a \"Go\"\n"

theorem promptText_briefing : PromptText briefing where
  trimmed := by decide +kernel
  inside := by decide +kernel
  first := by decide +kernel
  last := by decide +kernel
  flush := ⟨'S', "ay \"hi\" # twice".toList, by decide +kernel, by decide⟩

theorem parse_block_prompt_briefing : ∃ p a, parse briefed = .ok p ∧ parse briefedAtLength = .ok p ∧
    p.agents.get? "a" = some a ∧ a.prompt = some briefing := by
  have hread : (parse briefed).toOption.isSome = true := by
    decide +kernel
  have hinside : InDefinition "a" ["agent a:".toList, "  model: m".toList] := by
    refine ⟨[⟨1, 0, "agent a:".toList, false, none⟩, ⟨2, 2, "model: m".toList, false, none⟩], by decide +kernel, [],
      ⟨1, 0, "agent a:".toList, false, none⟩, [⟨2, 2, "model: m".toList, false, none⟩], rfl, rfl, by decide +kernel,
      by decide⟩
  have hquoted : splitOn '\n' briefed.toList = ["agent a:".toList, "  model: m".toList] ++
      ("  prompt: ".toList ++ Printer.literal briefing) :: ["session: a \"Go\"".toList, []] := by
    decide +kernel
  have hblocked : splitOn '\n' briefedAtLength.toList = ["agent a:".toList, "  model: m".toList] ++
      "  prompt: \"\"\"".toList :: (blockLines 5 briefing ++ "\t\"\"\"".toList :: ["session: a \"Go\"".toList, []]) := by
    decide +kernel
  have hlast : LastPrompt 4 ["session: a \"Go\"".toList, []] := by
    intro read h
    have hlines : Line.ofRaw none 4 ["session: a \"Go\"".toList, []] =
        .ok [⟨4, 0, "session: a \"Go\"".toList, false, none⟩] := by
      decide +kernel
    cases hlines.symm.trans h
    exact nofun
  rcases parse_block_prompt promptText_briefing hinside (by decide +kernel) hquoted hblocked with
    ⟨p, hp, hp', hprompt⟩ | ⟨number, fault, hfailed, -⟩
  · obtain ⟨a, ha, htext⟩ := hprompt hlast
    exact ⟨p, a, hp, hp', ha, htext⟩
  · rw [hfailed] at hread
    cases hread

end Playbook.Program
