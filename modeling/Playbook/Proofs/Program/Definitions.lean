import Playbook.Proofs.Program.Agents
import Playbook.Proofs.Program.Uncommented

/-!
# `Proofs.Program.Definitions` — the agents that a source defines

An agent is what the lines behind its header make of it: they set its properties one after another, and the last one that sets a
property decides. Later definitions are of other agents, so that each one stays what its own lines have made of it.

## Contents
- **Lines of definitions.** `definitions`, and `mem_definitions`; `stands`: a code line stands outside of definitions, heads one or is
  in one.
- **Properties.** `Line.property?`, `setProperty_eq_ok`; `properties_fold`: the properties of an agent are set line by line.
- **Programs.** `top_defines`.
-/

namespace Playbook.Program

open Text

/-- The name and the value of the property on a line. -/
def Line.property? (line : Line) : Option (List Char × List Char) :=
  (splitFirst [':'] line.text).map fun found => (trim found.1, trim found.2)

namespace Parser

/-! ## Lines of definitions -/

/-- The definitions of agents in code lines: each header at the top level, and the deeper lines that follow it. -/
def definitions : List Line → List (Line × List Line)
  | [] => []
  | l :: rest =>
    if l.indent = 0 ∧ opensAgent l = true then (l, rest.takeWhile (0 < ·.indent)) :: definitions rest else definitions rest

variable {header line l : Line} {lines rest left front : List Line}

theorem definitions_header (hstands : l.indent = 0) (hopens : opensAgent l = true) :
    definitions (l :: rest) = (l, rest.takeWhile (0 < ·.indent)) :: definitions rest :=
  if_pos ⟨hstands, hopens⟩

theorem definitions_other (h : ¬(l.indent = 0 ∧ opensAgent l = true)) : definitions (l :: rest) = definitions rest :=
  if_neg h

/-- Lines that are no headers define nothing. -/
theorem definitions_append (h : ∀ l ∈ front, l.indent = 0 → opensAgent l = false) :
    definitions (front ++ rest) = definitions rest := by
  induction front with
  | nil => rfl
  | cons l front ih =>
    rw [List.forall_mem_cons] at h
    rw [List.cons_append, definitions_other, ih h.2]
    rintro ⟨hstands, hopens⟩
    rw [h.1 hstands] at hopens
    cases hopens

theorem mem_definitions (front : List Line) (hstands : header.indent = 0) (hopens : opensAgent header = true) :
    (header, rest.takeWhile (0 < ·.indent)) ∈ definitions (front ++ header :: rest) := by
  induction front with
  | nil =>
    rw [List.nil_append, definitions_header hstands hopens]
    exact List.mem_cons_self
  | cons l front ih =>
    rw [List.cons_append, definitions]
    split
    · exact List.mem_cons_of_mem _ ih
    · exact ih

theorem definitions_subset (l : Line) (rest : List Line) : definitions rest ⊆ definitions (l :: rest) := by
  rw [definitions]
  split
  · exact List.subset_cons_self _ _
  · exact List.Subset.refl _

/-- Where a code line stands; `inside` says whether the lines before these end in a definition. -/
inductive Stands (inside : Bool) (lines : List Line) (l : Line) : Prop where
  | outside (mem : l ∈ outsideFrom inside lines)
  | header (stands : l.indent = 0) (opens : opensAgent l = true)
  | property {definition : Line × List Line} (defined : definition ∈ definitions lines) (mem : l ∈ definition.2)
  | left (inside : inside = true) (mem : l ∈ lines.takeWhile (0 < ·.indent))

/-- A line that stands somewhere among lines stands there with another line before them. -/
theorem Stands.behind {inside inside' : Bool} (h : Stands inside' rest l)
    (houtside : outsideFrom inside' rest ⊆ outsideFrom inside (header :: rest))
    (hleft : inside' = true → l ∈ rest.takeWhile (0 < ·.indent) → Stands inside (header :: rest) l) :
    Stands inside (header :: rest) l := by
  cases h with
  | outside mem => exact .outside (houtside mem)
  | header stands opens => exact .header stands opens
  | property defined mem => exact .property (definitions_subset header rest defined) mem
  | left inside mem => exact hleft inside mem

/-- Each code line stands outside of definitions, heads one or is in one. -/
theorem stands (inside : Bool) (h : l ∈ lines) : Stands inside lines l := by
  induction lines generalizing inside with
  | nil => cases h
  | cons first rest ih =>
    by_cases hstands : first.indent = 0
    · cases hopens : opensAgent first with
      | true =>
        rcases List.mem_cons.1 h with rfl | h
        · exact .header hstands hopens
        · refine (ih true h).behind ?_ fun _ hmem => ?_
          · rw [outsideFrom, if_pos hstands, if_pos hopens]
            exact List.Subset.refl _
          · exact .property (definitions_header hstands hopens ▸ List.mem_cons_self) hmem
      | false =>
        have houtside : outsideFrom inside (first :: rest) = first :: outsideFrom false rest := by
          rw [outsideFrom, if_pos hstands, hopens, if_neg Bool.false_ne_true]
        rcases List.mem_cons.1 h with rfl | h
        · exact .outside (houtside ▸ List.mem_cons_self)
        · exact (ih false h).behind (houtside ▸ List.subset_cons_self _ _) fun hfalse => absurd hfalse Bool.false_ne_true
    · have hdeeper : (first :: rest).takeWhile (0 < ·.indent) = first :: rest.takeWhile (0 < ·.indent) :=
        List.takeWhile_cons_of_pos (decide_eq_true (Nat.pos_of_ne_zero hstands))
      cases inside with
      | true =>
        rcases List.mem_cons.1 h with rfl | h
        · exact .left rfl (hdeeper ▸ List.mem_cons_self)
        · refine (ih true h).behind ?_ fun _ hmem => .left rfl (hdeeper ▸ List.mem_cons_of_mem _ hmem)
          rw [outsideFrom, if_neg hstands, if_pos rfl]
          exact List.Subset.refl _
      | false =>
        have houtside : outsideFrom false (first :: rest) = first :: outsideFrom false rest := by
          rw [outsideFrom, if_neg hstands, if_neg Bool.false_ne_true]
        rcases List.mem_cons.1 h with rfl | h
        · exact .outside (houtside ▸ List.mem_cons_self)
        · exact (ih false h).behind (houtside ▸ List.subset_cons_self _ _) fun hfalse => absurd hfalse Bool.false_ne_true

/-! ## Properties -/

/-- The name on a line says which property it sets. -/
theorem setProperty_eq {key value : List Char} (h : line.property? = some (key, value)) (a : Agent) :
    setProperty a line =
      if key = "model".toList then (Phrase.scalar value).map fun v => { a with model := some v }
      else if key = "persist".toList then (Phrase.scalar value).map fun v => { a with persist := some v }
      else if key = "prompt".toList then (Phrase.prompt line.block value).map fun v => { a with prompt := some v }
      else .error (.unknownProperty (String.ofList key)) := by
  obtain ⟨⟨before, after⟩, hsplit, hfound⟩ := Option.map_eq_some_iff.1 h
  cases hfound
  have hname (name : String) : String.ofList (trim before) = name ↔ trim before = name.toList :=
    ⟨fun heq => by rw [← heq, String.toList_ofList], fun heq => by rw [heq, String.ofList_toList]⟩
  rw [setProperty, hsplit]
  simp only [hname]
  rfl

/-- There are three properties. -/
theorem setProperty_eq_ok {a b : Agent} (h : setProperty a line = .ok b) :
    ∃ value v,
      (line.property? = some ("model".toList, value) ∧ Phrase.scalar value = .ok v ∧ b = { a with model := some v }) ∨
      (line.property? = some ("persist".toList, value) ∧ Phrase.scalar value = .ok v ∧ b = { a with persist := some v }) ∨
      (line.property? = some ("prompt".toList, value) ∧ Phrase.prompt line.block value = .ok v ∧
        b = { a with prompt := some v }) := by
  cases hproperty : line.property? with
  | none =>
    rw [setProperty, Option.map_eq_none_iff.1 hproperty] at h
    cases h
  | some found =>
    obtain ⟨key, value⟩ := found
    rw [setProperty_eq hproperty] at h
    split at h
    · rename_i hkey
      obtain ⟨v, hv, rfl⟩ := map_eq_ok.1 h
      exact ⟨value, v, .inl ⟨hkey ▸ rfl, hv, rfl⟩⟩
    · split at h
      · rename_i hkey
        obtain ⟨v, hv, rfl⟩ := map_eq_ok.1 h
        exact ⟨value, v, .inr (.inl ⟨hkey ▸ rfl, hv, rfl⟩)⟩
      · split at h
        · rename_i hkey
          obtain ⟨v, hv, rfl⟩ := map_eq_ok.1 h
          exact ⟨value, v, .inr (.inr ⟨hkey ▸ rfl, hv, rfl⟩)⟩
        · cases h

/-- An agent is what its properties make of it, one after another. -/
theorem properties_fold {a a' : Agent} (h : properties 0 a lines = .ok (a', left)) :
    ∃ used, lines = used ++ left ∧ (∀ l ∈ codeLines used, 0 < l.indent) ∧
      (codeLines used).foldlM setProperty a = .ok a' := by
  induction lines generalizing a with
  | nil =>
    cases h
    exact ⟨[], rfl, nofun, rfl⟩
  | cons l rest ih =>
    rcases properties_cons_eq_ok_iff.1 h with ⟨-, -, rfl, rfl⟩ | ⟨hcomment, -, hread⟩ | ⟨-, -, rfl, rfl⟩ |
      ⟨hcode, hstands, b, hset, hread⟩
    · exact ⟨[], rfl, nofun, rfl⟩
    · obtain ⟨used, rfl, hused, hfold⟩ := ih hread
      refine ⟨l :: used, rfl, ?_⟩
      rw [codeLines_cons_comment hcomment]
      exact ⟨hused, hfold⟩
    · exact ⟨[], rfl, nofun, rfl⟩
    · obtain ⟨used, rfl, hused, hfold⟩ := ih hread
      refine ⟨l :: used, rfl, ?_⟩
      rw [codeLines_cons_code hcode, List.forall_mem_cons, List.foldlM_cons, hset]
      exact ⟨⟨by rw [hstands, indentStep]; omega, hused⟩, hfold⟩

/-- The lines of an agent's definition end at the next line of the top level. -/
theorem takeWhile_deeper {used : List Line} (hused : ∀ l ∈ codeLines used, 0 < l.indent) (hleft : ¬Deeper 1 left) :
    (codeLines (used ++ left)).takeWhile (0 < ·.indent) = codeLines used := by
  rw [codeLines_append, List.takeWhile_append_of_pos fun l hl => decide_eq_true (hused l hl)]
  cases hnext : nextCode left with
  | none => rw [codeLines_of_none hnext, List.takeWhile_nil, List.append_nil]
  | some found =>
    obtain ⟨l, rest⟩ := found
    have hl : ¬0 < l.indent := fun hdeeper => hleft ⟨l, rest, hnext, hdeeper⟩
    rw [codeLines_of_nextCode hnext, List.takeWhile_cons_of_neg (by rw [decide_eq_true_eq]; exact hl), List.append_nil]

/-! ## Programs -/

/-- What a definition says is what its agent is. -/
def Defined (agents : Agents) (definition : Line × List Line) : Prop :=
  ∃ name a, Phrase.agentName? definition.1.text = some name ∧ definition.2.foldlM setProperty (.named name) = .ok a ∧
    agents.get? name = some a

/-- At the top level agents are added, and those that are there stay as they are. -/
theorem top_defines {depth : Nat} {agents agents' : Agents} {stmts : List Stmt} (hbound : lines.length < depth)
    (h : top depth agents lines = .ok (agents', stmts)) :
    (∀ name a, agents.get? name = some a → agents'.get? name = some a) ∧
      ∀ d ∈ definitions (codeLines lines), Defined agents' d := by
  induction depth generalizing agents lines stmts with
  | zero => exact absurd hbound (Nat.not_lt_zero _)
  | succ depth ih =>
    cases lines with
    | nil =>
      rw [top_nil] at h
      cases h
      exact ⟨fun _ _ ha => ha, nofun⟩
    | cons l rest =>
      have hshort : rest.length < depth := Nat.lt_of_succ_lt_succ hbound
      rcases top_cons_eq_ok_iff.1 h with ⟨hcomment, more, hread, -⟩ |
        ⟨hcode, hstands, hopens, agents'', after, hdefined, hread⟩ |
        ⟨hcode, hstands, hopens, s, after, more, hstmt, hread, -⟩
      · rw [codeLines_cons_comment hcomment]
        exact ih hshort hread
      · obtain ⟨name, a, hname, hnew, hproperties, rfl⟩ := agent_eq_ok_iff.1 hdefined
        have hown : a.name = name := properties_name hproperties
        rw [hstands] at hproperties
        obtain ⟨used, rfl, hused, hfold⟩ := properties_fold hproperties
        rw [List.length_append] at hshort
        have hafter := not_deeper_of_top (by omega) hread
        obtain ⟨hkept, hmore⟩ := ih (by omega) hread
        rw [hown] at hkept hread
        have hself : (agents.insert name a).get? name = some a := KeyMap.get?_insert_self ..
        refine ⟨fun other b hb => hkept other b ?_, ?_⟩
        · have hother : other ≠ name := by
            rintro rfl
            rw [hb] at hnew
            cases hnew
          rw [KeyMap.get?_insert_of_ne hother]
          exact hb
        · rw [codeLines_cons_code hcode, definitions_header hstands hopens, takeWhile_deeper hused hafter, List.forall_mem_cons,
            codeLines_append, definitions_append fun m hm hzero => absurd (hused m hm) (by omega)]
          exact ⟨⟨name, a, hname, hfold, hkept name a hself⟩, hmore⟩
      · obtain ⟨⟨used, hlines, hshows⟩, -, -⟩ := (stated hstmt).sound (d := 0) (sound_block depth) hcode hstands
        have hafterShort := Nat.lt_of_le_of_lt (length_of_statement hcode hstands hstmt) hshort
        rw [hlines, codeLines_append, definitions_append (not_opensAgent_of_shows (Listing.under_ofStmt 0 s) hshows)]
        exact ih hafterShort hread

end Parser

end Playbook.Program
