import Mathlib.Data.List.Induction
import Mathlib.Data.List.Nodup
import Playbook.Run.Scope

/-!
# `Proofs.Run.Scope` — what a scope holds after any writes

A scope keeps bindings, texts and the names of outputs apart, and each write changes all three. They stay in step, so every question
about a scope is answered by the last write of a name.

## Contents
- **Look-up.** `Scope.binding?_eq_some_iff`, `Scope.outputs_eq`; `Scope.entries` and `Scope.bound?` have bindings with their texts.
- **One write.** What `Scope.bind` does to each of them.
- **Many writes.** `Scope.bindAll`; `Scope.lastWrites` and `Scope.lastWrite?` look only at what was written, and `Scope.bindAll_last`
  says that a scope shows just that.
-/

namespace Playbook.Scope

variable {s : Scope} {b : Binding} {name text : String}

/-! ## Look-up -/

/-- The binding of a name is the one that has it. -/
theorem binding?_eq_some_iff : s.binding? name = some b ↔ b ∈ s.bindings ∧ b.name = name := by
  constructor
  · intro h
    exact ⟨List.mem_of_find?_eq_some h, by simpa using List.find?_some h⟩
  · rintro ⟨hmem, rfl⟩
    have hfound : (s.binding? b.name).isSome := List.find?_isSome.2 ⟨b, hmem, by simp⟩
    obtain ⟨c, hc⟩ := Option.isSome_iff_exists.1 hfound
    have hname : c.name = b.name := by simpa using List.find?_some hc
    rw [hc, List.inj_on_of_nodup_map s.unique (List.mem_of_find?_eq_some hc) hmem hname]

/-- A name has a text if and only if it is bound. -/
theorem value?_isSome_iff : (s.value? name).isSome ↔ name ∈ s.bindings.map (·.name) :=
  s.valued name

theorem binding?_isSome_iff : (s.binding? name).isSome ↔ name ∈ s.bindings.map (·.name) := by
  rw [binding?, List.find?_isSome, List.mem_map]
  simp only [beq_iff_eq]

/-- No output is skipped when the names are looked up. -/
theorem outputs_eq (s : Scope) : s.outputs = s.bindings.filter (·.kind == .output) := by
  rw [outputs, s.outputs_named, List.filterMap_map]
  have hfound : ∀ b ∈ s.bindings.filter (·.kind == .output), (s.binding? ∘ (·.name)) b = some b :=
    fun b hb => binding?_eq_some_iff.2 ⟨(List.mem_filter.1 hb).1, rfl⟩
  rw [List.filterMap_congr hfound, List.filterMap_some]

/-- The bindings with their texts. -/
def entries (s : Scope) : List (Binding × String) :=
  s.bindings.filterMap fun b => (s.value? b.name).map fun text => (b, text)

theorem mem_entries : (b, text) ∈ s.entries ↔ b ∈ s.bindings ∧ s.value? b.name = some text := by
  simp only [entries, List.mem_filterMap, Option.map_eq_some_iff, Prod.mk.injEq]
  constructor
  · rintro ⟨c, hc, t, ht, rfl, rfl⟩
    exact ⟨hc, ht⟩
  · rintro ⟨hb, htext⟩
    exact ⟨b, hb, text, htext, rfl, rfl⟩

/-- The binding of a name, with its text. -/
def bound? (s : Scope) (name : String) : Option (Binding × String) :=
  (s.binding? name).bind fun b => (s.value? name).map fun text => (b, text)

/-- A name has both a binding and a text, or neither. -/
theorem lookup (s : Scope) (name : String) :
    (s.binding? name = none ∧ s.value? name = none) ∨ ∃ b text, s.binding? name = some b ∧ s.value? name = some text := by
  have hboth : (s.binding? name).isSome ↔ (s.value? name).isSome := by
    rw [binding?_isSome_iff, value?_isSome_iff]
  cases hbinding : s.binding? name with
  | none =>
    rw [hbinding] at hboth
    exact .inl ⟨rfl, Option.not_isSome_iff_eq_none.1 fun hsome => Bool.false_ne_true (hboth.2 hsome)⟩
  | some b =>
    rw [hbinding] at hboth
    obtain ⟨text, htext⟩ := Option.isSome_iff_exists.1 (hboth.1 rfl)
    exact .inr ⟨b, text, rfl, htext⟩

theorem value?_eq (s : Scope) (name : String) : s.value? name = (s.bound? name).map (·.2) := by
  rcases s.lookup name with ⟨hbinding, htext⟩ | ⟨b, text, hbinding, htext⟩ <;> rw [bound?, hbinding, htext] <;> rfl

theorem binding?_eq (s : Scope) (name : String) : s.binding? name = (s.bound? name).map (·.1) := by
  rcases s.lookup name with ⟨hbinding, htext⟩ | ⟨b, text, hbinding, htext⟩ <;> rw [bound?, hbinding, htext] <;> rfl

/-! ## One write -/

theorem binding?_bind_self (s : Scope) (b : Binding) (text : String) : (s.bind b text).binding? b.name = some b :=
  binding?_eq_some_iff.2 ⟨List.mem_append_right _ List.mem_cons_self, rfl⟩

theorem binding?_bind_of_ne (s : Scope) (hne : b.name ≠ name) (text : String) :
    (s.bind b text).binding? name = s.binding? name := by
  have hkept : (others b.name s.bindings).find? (·.name == name) = s.bindings.find? (·.name == name) := by
    rw [others, List.find?_filter]
    congr 1
    funext c
    by_cases hc : c.name = name
    · simp [hc, Ne.symm hne]
    · simp [hc]
  simp [binding?, bind, List.find?_append, hkept, hne]

theorem value?_bind_self (s : Scope) (b : Binding) (text : String) : (s.bind b text).value? b.name = some text :=
  KeyMap.get?_insert_self b.name text s.values

theorem value?_bind_of_ne (s : Scope) (hne : b.name ≠ name) (text : String) :
    (s.bind b text).value? name = s.value? name :=
  KeyMap.get?_insert_of_ne (Ne.symm hne) text s.values

theorem bound?_bind_self (s : Scope) (b : Binding) (text : String) :
    (s.bind b text).bound? b.name = some (b, text) := by
  rw [bound?, binding?_bind_self, value?_bind_self]
  rfl

theorem bound?_bind_of_ne (s : Scope) (hne : b.name ≠ name) (text : String) :
    (s.bind b text).bound? name = s.bound? name := by
  rw [bound?, binding?_bind_of_ne s hne, value?_bind_of_ne s hne, bound?]

/-- What was written before under the name is gone, and the new binding stands at the end. -/
theorem entries_bind (s : Scope) (b : Binding) (text : String) :
    (s.bind b text).entries = s.entries.filter (·.1.name != b.name) ++ [(b, text)] := by
  have hkept : (others b.name s.bindings).filterMap (fun c => ((s.bind b text).value? c.name).map fun t => (c, t)) =
      (others b.name s.bindings).filterMap (fun c => (s.value? c.name).map fun t => (c, t)) := by
    refine List.filterMap_congr fun c hc => ?_
    have hne : c.name ≠ b.name := by simpa using (List.mem_filter.1 hc).2
    rw [value?_bind_of_ne s (Ne.symm hne)]
  have hfilter : (others b.name s.bindings).filterMap (fun c => (s.value? c.name).map fun t => (c, t)) =
      s.entries.filter (·.1.name != b.name) := by
    rw [others, List.filterMap_filter, entries, List.filter_filterMap]
    refine List.filterMap_congr fun c _ => ?_
    cases s.value? c.name <;> by_cases hc : c.name = b.name <;> simp [Option.filter, hc]
  rw [entries, show (s.bind b text).bindings = others b.name s.bindings ++ [b] from rfl, List.filterMap_append, hkept, hfilter,
    List.filterMap_cons, value?_bind_self]
  rfl

/-- An output that is written again moves to the end, and one whose name is bound otherwise is withdrawn. -/
theorem outputs_bind (s : Scope) (b : Binding) (text : String) :
    (s.bind b text).outputs = others b.name s.outputs ++ if b.kind = .output then [b] else [] := by
  rw [outputs_eq, outputs_eq, show (s.bind b text).bindings = others b.name s.bindings ++ [b] from rfl, List.filter_append]
  congr 1
  · rw [others, others, List.filter_filter, List.filter_filter]
    exact List.filter_congr fun c _ => Bool.and_comm ..
  · by_cases hkind : b.kind = .output <;> simp [hkind]

/-! ## Many writes -/

/-- Bind texts one after another. -/
def bindAll (s : Scope) (ws : List (Binding × String)) : Scope :=
  ws.foldl (fun s w => s.bind w.1 w.2) s

theorem bindAll_concat (s : Scope) (ws : List (Binding × String)) (b : Binding) (text : String) :
    s.bindAll (ws ++ [(b, text)]) = (s.bindAll ws).bind b text := by
  rw [bindAll, List.foldl_append]
  rfl

/-- The writes after which their name is not written again. -/
def lastWrites : List (Binding × String) → List (Binding × String)
  | [] => []
  | w :: later => if later.any (·.1.name == w.1.name) then lastWrites later else w :: lastWrites later

/-- The last write of a name. -/
def lastWrite? (ws : List (Binding × String)) (name : String) : Option (Binding × String) :=
  ws.reverse.find? (·.1.name == name)

theorem lastWrites_concat (ws : List (Binding × String)) (w : Binding × String) :
    lastWrites (ws ++ [w]) = (lastWrites ws).filter (·.1.name != w.1.name) ++ [w] := by
  induction ws with
  | nil => rfl
  | cons v ws ih =>
    rw [List.cons_append, lastWrites, lastWrites, List.any_append, ih]
    cases hlater : ws.any (·.1.name == v.1.name) with
    | true => simp
    | false =>
      by_cases hname : w.1.name = v.1.name
      · simp [hname]
      · simp [hname, Ne.symm hname]

theorem lastWrite?_concat (ws : List (Binding × String)) (w : Binding × String) (name : String) :
    lastWrite? (ws ++ [w]) name = if w.1.name = name then some w else lastWrite? ws name := by
  rw [lastWrite?, List.reverse_append, List.reverse_singleton, List.singleton_append, List.find?_cons]
  by_cases hname : w.1.name = name
  · rw [beq_iff_eq.2 hname, if_pos hname]
  · rw [beq_eq_false_iff_ne.2 hname, if_neg hname, lastWrite?]

/-- The bindings are the last writes. -/
theorem bindings_bindAll (ws : List (Binding × String)) : (empty.bindAll ws).bindings = (lastWrites ws).map (·.1) := by
  induction ws using List.reverseRecOn with
  | nil => rfl
  | append_singleton ws w ih =>
    rw [bindAll_concat, lastWrites_concat, List.map_append]
    show others w.1.name (empty.bindAll ws).bindings ++ [w.1] = _
    rw [ih, others, List.filter_map]
    rfl

/-- A name is bound by its last write. -/
theorem bound?_bindAll (ws : List (Binding × String)) (name : String) :
    (empty.bindAll ws).bound? name = lastWrite? ws name := by
  induction ws using List.reverseRecOn with
  | nil => rfl
  | append_singleton ws w ih =>
    rw [bindAll_concat, lastWrite?_concat]
    split
    · rename_i hname
      rw [← hname, bound?_bind_self]
    · rename_i hname
      rw [bound?_bind_of_ne _ hname, ih]

/-- The last write of each name decides what a scope shows, and nothing else does: its bindings are the last writes, in their order, so
    that no name stands twice; a name reads the binding and the text of its last write, and has a text only if it is bound; the outputs
    are the bindings that were last written as such, in the same order, so that an output that is written again moves to the end and
    one whose name is bound otherwise is withdrawn. -/
theorem bindAll_last (ws : List (Binding × String)) :
    let s := empty.bindAll ws
    s.bindings = (lastWrites ws).map (·.1) ∧ (s.bindings.map (·.name)).Nodup ∧
      (∀ name, s.binding? name = (lastWrite? ws name).map (·.1) ∧ s.value? name = (lastWrite? ws name).map (·.2) ∧
        ((s.value? name).isSome ↔ name ∈ s.bindings.map (·.name))) ∧
      s.outputs = s.bindings.filter (·.kind == .output) ∧
      ∀ b text, (s.bind b text).outputs = others b.name s.outputs ++ if b.kind = .output then [b] else [] := by
  intro s
  refine ⟨bindings_bindAll ws, s.unique, fun name => ⟨?_, ?_, value?_isSome_iff⟩, s.outputs_eq, s.outputs_bind⟩
  · rw [binding?_eq, bound?_bindAll]
  · rw [value?_eq, bound?_bindAll]

end Playbook.Scope
