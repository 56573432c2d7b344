import Playbook.Proofs.Program.Rereading

/-!
# `Proofs.Program.Roundtrip` — a printed program is read back as itself

Reading is a left inverse of printing, for all printable programs: whatever their strings hold, however deep their blocks lie, and
whatever counts they repeat bodies for.

## Contents
- **Properties.** `setProperty_literal`, `properties_property`.
- **Agents.** `agent_agent`; `top_agents`, by induction over the agents.
- **Statements.** `top_linesOf`, by induction over the statements.
- **Statement.** `parse_print`.
-/

namespace Playbook.Program.Printer

open Text Program.Parser

variable {rest : List Line}

/-! ## Properties -/

theorem scalar_literal (s : String) : Phrase.scalar (literal s) = .ok s :=
  wholeLiteral_literal _ s

/-- A literal is not taken for a text between three quotes. -/
theorem stripPrefix_literal (s : String) : stripPrefix tripleQuote (literal s) = none := by
  rw [literal]
  cases s.toList with
  | nil => rfl
  | cons c more =>
    rw [List.flatMap_cons]
    have hescaped := escaped c
    generalize escape c = text at hescaped ⊢
    cases hescaped with
    | marked _ => rfl
    | itself hquote _ _ =>
      have hsecond (text : List Char) : stripPrefix ['"', '"'] (c :: text) = none := by
        rw [stripPrefix, if_neg (Ne.symm hquote)]
      exact hsecond _

theorem prompt_literal (s : String) : Phrase.prompt none (literal s) = .ok s := by
  rw [Phrase.prompt, stripPrefix_literal]
  exact scalar_literal s

/-- A property is set to what its literal holds. -/
theorem setProperty_literal (a : Agent) {key : String} (hcolon : ':' ∉ key.toList)
    (hsolid : Solid key.toList) (value : String) (number : Nat) :
    setProperty a (line number (2, key.toList ++ ':' :: ' ' :: literal value)) =
      if key = "model" then .ok { a with model := some value }
      else if key = "persist" then .ok { a with persist := some value }
      else if key = "prompt" then .ok { a with prompt := some value }
      else .error (.unknownProperty key) := by
  have hsplit : splitFirst [':'] (line number (2, key.toList ++ ':' :: ' ' :: literal value)).text =
      some (key.toList, ' ' :: literal value) := splitFirst_append hcolon _
  have hliteral : trim (' ' :: literal value) = literal value :=
    ((ends_literal value).solid rfl (by decide)).trim_cons (by decide)
  rw [setProperty, hsplit]
  simp only
  rw [hliteral, hsolid.trim, String.ofList_toList, scalar_literal]
  show (if key = "model" then _ else if key = "persist" then _ else if key = "prompt" then
    (Phrase.prompt none (literal value)).map _ else _) = _
  rw [prompt_literal]
  rfl

/-- A property is read back, if it is there. -/
theorem properties_property (put : Option String → Agent) {key : String}
    (hplain : Plain key.toList) {c : Char} {more : List Char}
    (hkey : key.toList = c :: more) (hc : isBlank c = false)
    (hput : ∀ value number, setProperty (put none)
      (line number (2, key.toList ++ ':' :: ' ' :: literal value)) = .ok (put (some value)))
    (value : Option String) (number : Nat) (rest : List Line) :
    Parser.properties 0 (put none) (numbered number (property key value) ++ rest) =
      Parser.properties 0 (put value) rest := by
  cases value with
  | none => rfl
  | some value =>
    have hcoded := coded_property hplain hkey hc value
    have hcode : (line number (2, key.toList ++ ':' :: ' ' :: literal value)).isComment = false :=
      decide_eq_false hcoded.worded.head?
    have hindent : (line number (2, key.toList ++ ':' :: ' ' :: literal value)).indent = 2 := rfl
    rw [property, numbered, numbered, List.singleton_append, Parser.properties, hcode,
      if_neg Bool.false_ne_true, hindent, if_neg (by decide), if_neg (by decide), hput]
    rfl

theorem setProperty_model (a : Agent) (value : String) (number : Nat) :
    setProperty a (line number (2, "model".toList ++ ':' :: ' ' :: literal value)) =
      .ok { a with model := some value } := by
  rw [setProperty_literal a (by decide) (solid_of_isName (by decide)), if_pos rfl]

theorem setProperty_persist (a : Agent) (value : String) (number : Nat) :
    setProperty a (line number (2, "persist".toList ++ ':' :: ' ' :: literal value)) =
      .ok { a with persist := some value } := by
  rw [setProperty_literal a (by decide) (solid_of_isName (by decide)), if_neg (by decide),
    if_pos rfl]

theorem setProperty_prompt (a : Agent) (value : String) (number : Nat) :
    setProperty a (line number (2, "prompt".toList ++ ':' :: ' ' :: literal value)) =
      .ok { a with prompt := some value } := by
  rw [setProperty_literal a (by decide) (solid_of_isName (by decide)), if_neg (by decide),
    if_neg (by decide), if_pos rfl]

/-- An agent's properties end where its definition does. -/
theorem properties_of_over (h : Over 1 rest) (a : Agent) :
    Parser.properties 0 a rest = .ok (a, rest) := by
  cases rest with
  | nil => rfl
  | cons l rest =>
    obtain ⟨hcode, hless⟩ := h l rfl
    rw [Parser.properties, hcode, if_neg Bool.false_ne_true, if_pos (Nat.le_of_lt_succ hless)]

/-- All properties of an agent are read back. -/
theorem properties_properties (a : Agent) (h : Over 1 rest) (number : Nat) :
    Parser.properties 0 (.named a.name) (numbered number (properties a) ++ rest) = .ok (a, rest) := by
  rw [properties, numbered_append, numbered_append, List.append_assoc, List.append_assoc]
  calc
    _ = Parser.properties 0 ⟨a.name, a.model, none, none⟩ _ :=
      properties_property (fun value => ⟨a.name, value, none, none⟩) (by decide) rfl (by decide)
        (fun value => setProperty_model _ value) a.model _ _
    _ = Parser.properties 0 ⟨a.name, a.model, none, a.persist⟩ _ :=
      properties_property (fun value => ⟨a.name, a.model, none, value⟩) (by decide) rfl (by decide)
        (fun value => setProperty_persist _ value) a.persist _ _
    _ = Parser.properties 0 ⟨a.name, a.model, a.prompt, a.persist⟩ _ :=
      properties_property (fun value => ⟨a.name, a.model, value, a.persist⟩) (by decide) rfl
        (by decide) (fun value => setProperty_prompt _ value) a.prompt _ _
    _ = .ok (a, rest) := properties_of_over h a

/-! ## Agents -/

/-- The lines of agents. -/
def agentLines (number : Nat) (agents : KeyMap Agent) : List Line :=
  numbered number (agents.flatMap fun e => agent e.2)

/-- An agent's definition is read back. -/
theorem agent_agent {agents : KeyMap Agent} {a : Agent} (h : isName a.name = true)
    (hnew : agents.get? a.name = none) (hrest : Over 1 rest) (number number' : Nat) :
    Parser.agent agents (line number (0, header "agent " a.name))
      (numbered number' (properties a) ++ rest) = .ok (agents.insert a.name a, rest) := by
  have hname : Phrase.agentName? (line number (0, header "agent " a.name)).text = some a.name :=
    headerName?_header "agent " h
  have hindent : (line number (0, header "agent " a.name)).indent = 0 := rfl
  rw [Parser.agent, hname]
  simp only
  rw [hnew, hindent, properties_properties a hrest]
  rfl

theorem isComment_agent {name : String} (h : isName name = true) (number : Nat) :
    (line number (0, header "agent " name)).isComment = false := by
  have hcoded : Coded (header "agent " name) := coded_header (by decide) rfl (by decide) h
  exact decide_eq_false hcoded.worded.head?

theorem opensAgent_agent (name : String) (number : Nat) :
    opensAgent (line number (0, header "agent " name)) = true :=
  startsWith_append "agent ".toList _

theorem agentLines_cons (number : Nat) (e : String × Agent) (es : KeyMap Agent) :
    agentLines number (e :: es) = line number (0, header "agent " e.2.name) ::
      (numbered (number + 1) (properties e.2) ++ agentLines (number + (agent e.2).length) es) := by
  rw [agentLines, List.flatMap_cons, numbered_append]
  rfl

/-- An agent's definition ends where the next one begins. -/
theorem over_agentLines {es : KeyMap Agent} (h : ∀ e ∈ es, e.1 = e.2.name ∧ isName e.1 = true)
    (hrest : Over 1 rest) (number : Nat) : Over 1 (agentLines number es ++ rest) := by
  cases es with
  | nil => exact hrest
  | cons e more =>
    obtain ⟨hkey, hname⟩ := h e List.mem_cons_self
    rw [hkey] at hname
    rw [agentLines_cons]
    intro l hl
    cases hl
    exact ⟨isComment_agent hname number, Nat.one_pos⟩

/-- Agents whose names rise are read back. -/
theorem top_agents {m es : KeyMap Agent} (hsorted : KeyMap.Sorted (m ++ es))
    (h : ∀ e ∈ es, e.1 = e.2.name ∧ isName e.1 = true) (hrest : Over 1 rest) (depth number : Nat) :
    top (depth + es.length) m (agentLines number es ++ rest) = top depth (m ++ es) rest := by
  induction es generalizing m number with
  | nil =>
    rw [List.append_nil]
    rfl
  | cons e more ih =>
    obtain ⟨key, a⟩ := e
    rw [List.forall_mem_cons] at h
    obtain ⟨⟨hkey, hname⟩, hmore⟩ := h
    simp only at hkey
    subst hkey
    -- The names rise, so that the agent is new, and goes to the end of those before it.
    have hless : ∀ x ∈ m, x.1 < a.name := by
      intro x hx
      rw [KeyMap.Sorted, List.map_append, List.pairwise_append] at hsorted
      exact hsorted.2.2 x.1 (List.mem_map_of_mem hx) a.name List.mem_cons_self
    have hnew : m.get? a.name = none := by
      refine KeyMap.get?_eq_none fun hmem => ?_
      obtain ⟨x, hx, hxname⟩ := List.mem_map.1 hmem
      exact String.lt_irrefl _ (hxname ▸ hless x hx)
    have hindent : (line number (0, header "agent " a.name)).indent = 0 := rfl
    rw [List.append_cons] at hsorted ⊢
    rw [← ih hsorted hmore (number + (agent a).length), agentLines_cons, List.cons_append,
      List.append_assoc, List.length_cons, ← Nat.add_assoc, top,
      isComment_agent hname, if_neg Bool.false_ne_true, hindent, if_neg (Nat.lt_irrefl 0),
      opensAgent_agent, if_pos rfl,
      agent_agent hname hnew (over_agentLines hmore hrest _), KeyMap.insert_of_last hless]
    rfl

/-! ## Statements -/

/-- Statements are read back at the top level. -/
theorem top_linesOf {ss : List Stmt} (h : printableStmts ss = true) {depth : Nat}
    (hbound : (Listing.ofStmts 0 ss).length < depth) (agents : KeyMap Agent) (number : Nat) :
    top depth agents (linesOf number (Listing.ofStmts 0 ss)) = .ok (agents, ss) := by
  induction ss generalizing depth number with
  | nil =>
    rw [Listing.ofStmts]
    exact top_nil depth agents
  | cons s more ih =>
    obtain ⟨depth, rfl⟩ := Nat.exists_eq_succ_of_ne_zero (Nat.ne_zero_of_lt hbound)
    rw [printableStmts, Bool.and_eq_true] at h
    rw [Listing.ofStmts, List.length_append] at hbound
    obtain ⟨l, used, hused, hcode, hindent, hagent⟩ := linesOf_ofStmt number 0 h.1
    have hshort : (Listing.ofStmts 0 more).length < depth := by
      have hpos := length_pos_of_linesOf hused
      omega
    have hend : Over (2 * 0) [] := nofun
    have hafter := after_ofStmts h.2 hend (number + (Listing.ofStmt 0 s).length)
    rw [List.append_nil] at hafter
    have hstmt := statement_linesOf (rereads_block depth) h.1 (by omega) hafter hused
    rw [Listing.ofStmts, linesOf_append, hused, List.cons_append, top, hcode,
      if_neg Bool.false_ne_true, hindent, if_neg (Nat.lt_irrefl 0), hagent,
      if_neg Bool.false_ne_true, hstmt]
    show (top depth agents _ >>= _) = _
    rw [ih h.2 hshort]
    rfl

/-- Nothing of what follows the agents belongs to them. -/
theorem over_linesOf {ss : List Stmt} (h : printableStmts ss = true) (number : Nat) :
    Over 1 (linesOf number (Listing.ofStmts 0 ss)) := by
  have hend : Over (2 * 0) [] := nofun
  have hafter := after_ofStmts h hend number
  rw [List.append_nil] at hafter
  exact hafter.over Nat.one_pos

/-! ## Statement -/

/-- The lines of a header are comments, and their texts are the header. -/
theorem comments_header {hs : List String} (h : ∀ l ∈ hs, l.toList.head? = some '#')
    (number : Nat) :
    (∀ l ∈ numbered number (hs.map fun l => (0, l.toList)), l.isComment = true) ∧
      (numbered number (hs.map fun l => (0, l.toList))).map (fun l => String.ofList l.text) = hs := by
  induction hs generalizing number with
  | nil => exact ⟨nofun, rfl⟩
  | cons first more ih =>
    rw [List.forall_mem_cons] at h
    obtain ⟨hcomments, htexts⟩ := ih h.2 (number + 1)
    rw [List.map_cons, numbered, List.forall_mem_cons, List.map_cons, htexts]
    refine ⟨⟨decide_eq_true h.1, hcomments⟩, ?_⟩
    rw [line, String.ofList_toList]

theorem takeWhile_of_over (h : Over 1 rest) : rest.takeWhile (·.isComment) = [] := by
  cases rest with
  | nil => rfl
  | cons l rest =>
    rw [List.takeWhile_cons_of_neg]
    rw [(h l rfl).1]
    exact Bool.false_ne_true

theorem dropWhile_of_over (h : Over 1 rest) : rest.dropWhile (·.isComment) = rest := by
  cases rest with
  | nil => rfl
  | cons l rest =>
    rw [List.dropWhile_cons_of_neg]
    rw [(h l rfl).1]
    exact Bool.false_ne_true

theorem length_le_agentLines (number : Nat) (es : KeyMap Agent) :
    es.length ≤ (agentLines number es).length := by
  induction es generalizing number with
  | nil => exact Nat.zero_le _
  | cons e more ih =>
    have hmore := ih (number + (agent e.2).length)
    rw [agentLines_cons, List.length_cons, List.length_cons, List.length_append]
    omega

/-- Agents and statements are read back, if the bound is greater than the number of their lines. -/
theorem top_written {agents : KeyMap Agent} {ss : List Stmt} (hsorted : KeyMap.Sorted agents)
    (hagents : ∀ e ∈ agents, e.1 = e.2.name ∧ isName e.1 = true) (hss : printableStmts ss = true)
    (number number' : Nat) {bound : Nat}
    (hbound : (agentLines number agents ++ linesOf number' (Listing.ofStmts 0 ss)).length < bound) :
    top bound [] (agentLines number agents ++ linesOf number' (Listing.ofStmts 0 ss)) =
      .ok (agents, ss) := by
  rw [List.length_append, length_linesOf] at hbound
  have hless := length_le_agentLines number agents
  obtain ⟨depth, rfl⟩ := Nat.exists_eq_add_of_le' (Nat.le_trans hless (by omega : _ ≤ bound))
  rw [top_agents (m := []) hsorted hagents (over_linesOf hss number'), List.nil_append]
  exact top_linesOf hss (by omega) agents number'

/-- A program is read back from its lines. -/
theorem program_drafts {p : Program} (h : Printable p) :
    Parser.program (numbered 1 (drafts p)) = .ok p := by
  obtain ⟨hs, agents, ss⟩ := p
  obtain ⟨hheader, hsorted, hagents, hss⟩ := h
  simp only at hheader hsorted hagents hss
  obtain ⟨hcomments, htexts⟩ := comments_header (fun l hl => (hheader l hl).1) 1
  have hover (k k' : Nat) := over_agentLines hagents (over_linesOf hss k') k
  rw [drafts, numbered_append, numbered_append]
  show Parser.program (_ ++ (agentLines _ agents ++ linesOf _ (Listing.ofStmts 0 ss))) = _
  rw [Parser.program]
  simp only
  rw [List.takeWhile_append_of_pos hcomments, List.dropWhile_append_of_pos hcomments,
    takeWhile_of_over (hover _ _), dropWhile_of_over (hover _ _), List.append_nil, htexts,
    top_written hsorted hagents hss]
  · rfl
  · exact Nat.lt_succ_of_le (List.sublist_append_right _ _).length_le

/-- **Reading undoes printing**: a printable program is read back as itself. -/
theorem parse_print {p : Program} (h : Printable p) : parse (print p) = .ok p := by
  have hread : parse? (print p) = .ok p := by
    rw [parse?, ofSource_print h]
    exact program_drafts h
  rw [parse, hread]

/-- A program whose strings hold what stands for something elsewhere on a line. -/
def quoted : Program where
  header := ["# Notes"]
  agents := [("editor", ⟨"editor", none, some "a: # \"\"\"", none⟩),
    ("writer", ⟨"writer", some "m", none, some "no"⟩)]
  statements := [
    .attempt [.assign "x" (.resume ⟨some "writer", "y = 1  # no\ncomment"⟩)] (some "e")
      (some [.loop 3 [.session ⟨none, "\\try:\""⟩]]) none,
    .parallel .ignore [.mk (some "repeat") (.session ⟨some "editor", "ü\t"⟩),
      .mk none (.output "z" (.var "x"))]]

example : (drafts quoted).map raw = [
    "# Notes",
    "agent editor:",
    "  prompt: \"a: # \\\"\\\"\\\"\"",
    "agent writer:",
    "  model: \"m\"",
    "  persist: \"no\"",
    "try:",
    "  let x = resume: writer \"y = 1  # no\\ncomment\"",
    "catch as e:",
    "  repeat 3:",
    "    session \"\\\\try:\\\"\"",
    "parallel(on-fail: ignore):",
    "  repeat = session: editor \"ü\\t\"",
    "  output z = x"].map String.toList := by
  decide +kernel

theorem parse_print_quoted : Printable quoted ∧ parse (print quoted) = .ok quoted := by
  have h : Printable quoted := by
    constructor
    · decide
    · decide
    · decide
    · decide
  exact ⟨h, parse_print h⟩

end Playbook.Program.Printer
