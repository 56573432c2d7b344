import Playbook.Proofs.KeyMap
import Playbook.Proofs.Program.Reading
import Playbook.Run.Session

/-!
# `Proofs.Program.Agents` — the agents of a program that was read

The reader puts an agent under the name on its header line, which is the agent's own, and the properties that follow do not change
it. So in a program that was read every agent is found under its own name, and the agents stand in order.

## Contents
- **Maps of agents.** `Named`, which an insertion keeps.
- **Agents.** `setProperty_name`, `properties_name`, `agent_insert`.
- **Programs.** `top_keeps`, `parse_keeps`: what insertions keep holds of the agents that are read; `parse_named`, `parse_sorted`;
  `agentFor_cases`, for whom a call of such a program is.
-/

namespace Playbook.Program

open Text

namespace Parser

variable {agents agents' : Agents} {a a' : Agent} {line : Line} {lines left : List Line}

/-! ## Maps of agents -/

/-- Each agent stands under its own name, and that is a name by the rules for names. -/
def Named (agents : Agents) : Prop :=
  ∀ name a, agents.get? name = some a → a.name = name ∧ Phrase.isName name.toList

theorem named_nil : Named [] := by
  intro name a h
  cases h

theorem Named.insert (h : Named agents) (hname : Phrase.isName a.name.toList) :
    Named (agents.insert a.name a) := by
  intro name b hb
  by_cases heq : name = a.name
  · subst heq
    rw [KeyMap.get?_insert_self, Option.some.injEq] at hb
    exact ⟨hb ▸ rfl, hname⟩
  · rw [KeyMap.get?_insert_of_ne heq] at hb
    exact h name b hb

/-! ## Agents -/

theorem setProperty_name (h : setProperty a line = .ok a') : a'.name = a.name := by
  unfold setProperty at h
  split at h
  · cases h
  · simp only at h
    split at h
    · obtain ⟨_, _, rfl⟩ := map_eq_ok.1 h
      rfl
    · split at h
      · obtain ⟨_, _, rfl⟩ := map_eq_ok.1 h
        rfl
      · split at h
        · obtain ⟨_, _, rfl⟩ := map_eq_ok.1 h
          rfl
        · cases h

theorem properties_name {header : Nat} (h : properties header a lines = .ok (a', left)) :
    a'.name = a.name := by
  induction lines generalizing a with
  | nil =>
    rw [properties] at h
    cases h
    rfl
  | cons l rest ih =>
    rw [properties] at h
    split at h
    · split at h
      · cases h
        rfl
      · exact ih h
    · split at h
      · cases h
        rfl
      · split at h
        · cases h
        · split at h
          · rename_i hset
            exact (ih h).trans (setProperty_name (at_eq_ok_iff.1 hset))
          · cases h

theorem isName_of_agentName? {text : List Char} {name : String}
    (h : Phrase.agentName? text = some name) : Phrase.isName name.toList := by
  unfold Phrase.agentName? Phrase.headerName? at h
  simp only [Option.bind_eq_bind, Option.bind_eq_some_iff] at h
  obtain ⟨_, _, _, _, h⟩ := h
  split at h
  · rename_i hname
    cases h
    rw [String.toList_ofList]
    exact hname
  · cases h

/-- What stands at an agent's header puts one agent under its own name. -/
theorem agent_insert (h : agent agents line lines = .ok (agents', left)) :
    ∃ a : Agent, Phrase.isName a.name.toList ∧ agents' = agents.insert a.name a := by
  unfold agent at h
  split at h
  · cases h
  · rename_i name hname
    split at h
    · cases h
    · obtain ⟨⟨a, left'⟩, hread, h⟩ := bind_eq_ok.1 h
      cases h
      have hown : a.name = name := properties_name hread
      exact ⟨a, hown ▸ isName_of_agentName? hname, hown ▸ rfl⟩

/-! ## Programs -/

/-- What holds of a map of agents holds of those that are read at the top level, if putting an agent under its own name keeps it. -/
theorem top_keeps {P : Agents → Prop}
    (hinsert : ∀ agents (a : Agent), P agents → Phrase.isName a.name.toList → P (agents.insert a.name a))
    {depth : Nat} {stmts : List Stmt} (hagents : P agents) (h : top depth agents lines = .ok (agents', stmts)) :
    P agents' := by
  induction depth generalizing agents lines stmts with
  | zero =>
    rw [top] at h
    cases h
    exact hagents
  | succ depth ih =>
    cases lines with
    | nil =>
      rw [top_nil] at h
      cases h
      exact hagents
    | cons l rest =>
      rw [top] at h
      split at h
      · obtain ⟨⟨agents'', stmts'⟩, hread, h⟩ := bind_eq_ok.1 h
        cases h
        exact ih hagents hread
      · split at h
        · cases h
        · split at h
          · obtain ⟨⟨agents'', after⟩, hagent, hread⟩ := bind_eq_ok.1 h
            obtain ⟨a, hname, rfl⟩ := agent_insert hagent
            exact ih (hinsert agents a hagents hname) hread
          · obtain ⟨⟨s, after⟩, _, h⟩ := bind_eq_ok.1 h
            obtain ⟨⟨agents'', stmts'⟩, hread, h⟩ := bind_eq_ok.1 h
            cases h
            exact ih hagents hread

end Parser

/-- The agents of a program that was read have what insertions keep. -/
theorem parse_keeps {P : Parser.Agents → Prop} (hnil : P [])
    (hinsert : ∀ agents (a : Agent), P agents → Phrase.isName a.name.toList → P (agents.insert a.name a))
    {source : String} {p : Program} (h : parse source = .ok p) : P p.agents := by
  unfold parse at h
  split at h
  · rename_i q hread
    cases h
    obtain ⟨lines, _, hread⟩ := bind_eq_ok.1 hread
    obtain ⟨⟨agents, statements⟩, htop, hread⟩ := bind_eq_ok.1 hread
    cases hread
    exact Parser.top_keeps hinsert hnil htop
  · cases h

/-- In a program that was read every agent is called by its own name. -/
theorem parse_named {source : String} {p : Program} (h : parse source = .ok p) :
    Parser.Named p.agents :=
  parse_keeps Parser.named_nil (fun _ _ hnamed hname => hnamed.insert hname) h

/-- The agents of a program that was read stand in order. -/
theorem parse_sorted {source : String} {p : Program} (h : parse source = .ok p) : KeyMap.Sorted p.agents :=
  parse_keeps (P := KeyMap.Sorted) List.Pairwise.nil (fun _ a hsorted _ => KeyMap.sorted_insert a.name a hsorted) h

/-- The agent of a call is one that the program names, or the default agent, of which only the name is known. -/
theorem agentFor_cases {p : Program} {call : SessionCall} (hnamed : Parser.Named p.agents) {a : Agent}
    (hfor : p.agentFor call = .ok a) :
    p.agent? a.name = some a ∨ a = .named defaultAgentName ∧ p.agent? a.name = none := by
  unfold agentFor at hfor
  split at hfor
  · have ha := Except.ok.inj hfor
    cases hdefault : p.agent? defaultAgentName with
    | none =>
      rw [hdefault, Option.getD_none] at ha
      rw [← ha]
      exact .inr ⟨rfl, hdefault⟩
    | some b =>
      rw [hdefault, Option.getD_some] at ha
      rw [← ha, (hnamed defaultAgentName b hdefault).1]
      exact .inl hdefault
  · rename_i name _
    split at hfor
    · rename_i b hb
      rw [← Except.ok.inj hfor, (hnamed name b hb).1]
      exact .inl hb
    · cases hfor

end Playbook.Program
