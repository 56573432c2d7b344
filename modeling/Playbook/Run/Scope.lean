import Playbook.Json.Decode
import Playbook.KeyMap

/-!
# `Playbook.Run.Scope` — the bindings of a run

A binding gives a name to a stored text. The scope of a run holds the bindings in the order in which they
were written; to write a name again takes the old binding away and puts the new one at the end.

## Contents
- **Bindings.** `BindingKind`, `Binding`, and the `preview` that a binding shows of its text.
- **Scope.** `Scope` with `bind`, `binding?`, `value?`, `outputs`.
- **Counters.** `Counters`.
-/

namespace Playbook

open Json (present slots required optional asString asUInt64 oneOf)

/-! ## Bindings -/

/-- Where a binding comes from. -/
inductive BindingKind where
  | input
  | assigned
  | const
  | output
  deriving DecidableEq, Repr

namespace BindingKind

/-- The words for kinds. -/
def names : List (String × BindingKind) :=
  [("input", input), ("let", assigned), ("const", const), ("output", output)]

/-- The word for a kind. -/
def name : BindingKind → String
  | input => "input"
  | assigned => "let"
  | const => "const"
  | output => "output"

end BindingKind

/-- A name for a stored text. -/
structure Binding where
  /-- The name. -/
  name : String
  /-- Where the binding comes from. -/
  kind : BindingKind
  /-- Where the text is stored. -/
  contentRef : String
  /-- The start of the text. -/
  preview : String
  /-- What the text says in short. -/
  summary : Option String
  /-- The digest of the text. -/
  sha256 : Option String
  /-- The length of the text in bytes. -/
  size : Option UInt64
  /-- The media type of the text. -/
  mime : Option String
  deriving DecidableEq, Repr

namespace Binding

/-- A binding as an object. -/
def toJson (b : Binding) : Json :=
  .obj ([("name", .str b.name), ("kind", .str b.kind.name), ("contentRef", .str b.contentRef),
    ("preview", .str b.preview)] ++ present "summary" .str b.summary ++
    present "sha256" .str b.sha256 ++ present "size" (fun n => .nat n.toNat) b.size ++
    present "mime" .str b.mime)

/-- A binding from an object. -/
def ofJson? (v : Json) : Option Binding :=
  match slots ["name", "kind", "contentRef", "preview", "summary", "sha256", "size", "mime"] v with
  | some [name, kind, contentRef, preview, summary, sha256, size, mime] => do
    return { name := ← required asString name
             kind := ← required (oneOf BindingKind.names false) kind
             contentRef := ← required asString contentRef
             preview := ← required asString preview
             summary := ← optional asString summary
             sha256 := ← optional asString sha256
             size := ← optional asUInt64 size
             mime := ← optional asString mime }
  | _ => none

end Binding

/-- How many characters of its text a binding shows. -/
def previewLength : Nat := 200

/-- The start of a text that a binding shows. -/
def preview (text : String) : String :=
  String.ofList (text.toList.take previewLength)

/-! ## Scope -/

/-- Bindings in the order in which they were written, with their texts and the names of the outputs among them. -/
structure Scope where
  /-- The bindings, in the order in which they were written last. -/
  bindings : List Binding
  /-- The text that is bound to each name. -/
  values : KeyMap String
  /-- The names of the outputs, in the order of their bindings. -/
  outputNames : List String
  /-- No name is bound twice. -/
  unique : (bindings.map (·.name)).Nodup
  /-- The names that are bound are those with a text. -/
  valued : ∀ name, (values.get? name).isSome ↔ name ∈ bindings.map (·.name)
  /-- The outputs are the bindings of this kind. -/
  outputs_named : outputNames = (bindings.filter (·.kind == .output)).map (·.name)

namespace Scope

/-- No bindings. -/
def empty : Scope where
  bindings := []
  values := []
  outputNames := []
  unique := List.nodup_nil
  valued _ := by simp [KeyMap.get?]
  outputs_named := rfl

/-- The bindings of other names. -/
def others (name : String) (bindings : List Binding) : List Binding :=
  bindings.filter (·.name != name)

theorem map_others (name : String) (bindings : List Binding) :
    (others name bindings).map (·.name) = (bindings.map (·.name)).filter (· != name) := by
  rw [others, List.filter_map]
  rfl

/-- The names of the outputs once a binding is written. -/
def outputsAfter (b : Binding) (names : List String) : List String :=
  names.filter (· != b.name) ++ if b.kind = .output then [b.name] else []

/-- Write a binding: it takes the place of one with the same name, but stands at the end. -/
def bind (s : Scope) (b : Binding) (text : String) : Scope where
  bindings := others b.name s.bindings ++ [b]
  values := s.values.insert b.name text
  outputNames := outputsAfter b s.outputNames
  unique := by
    rw [List.map_append, map_others, List.nodup_append]
    refine ⟨s.unique.filter _, by simp, ?_⟩
    intro name hname other hother
    rw [List.map_singleton, List.mem_singleton] at hother
    rw [hother]
    simpa using (List.mem_filter.1 hname).2
  valued name := by
    rw [List.map_append, map_others, List.mem_append, List.map_singleton, List.mem_singleton, List.mem_filter]
    by_cases hname : name = b.name
    · simp [hname, KeyMap.get?_insert_self]
    · simp [hname, KeyMap.get?_insert_of_ne hname, s.valued name]
  outputs_named := by
    rw [outputsAfter, s.outputs_named, List.filter_append, List.map_append, others, List.filter_filter]
    congr 1
    · rw [List.filter_map, List.filter_filter]
      congr 1
      refine List.filter_congr fun c _ => ?_
      exact Bool.and_comm ..
    · by_cases hkind : b.kind = .output <;> simp [hkind]

/-- The binding of a name. -/
def binding? (s : Scope) (name : String) : Option Binding :=
  s.bindings.find? (·.name == name)

/-- The text bound to a name. -/
def value? (s : Scope) (name : String) : Option String :=
  s.values.get? name

/-- The bindings that are outputs, in the order in which they were written: each name is looked up. -/
def outputs (s : Scope) : List Binding :=
  s.outputNames.filterMap s.binding?

end Scope

/-! ## Counters -/

/-- What a run has done so far. -/
structure Counters where
  /-- Statements begun. -/
  statements : Nat
  /-- Sessions asked for anew. -/
  sessionsCreated : Nat
  /-- Sessions asked to be taken up again. -/
  sessionsResumed : Nat
  /-- Bindings written, failed writes included. -/
  bindingsWritten : Nat
  /-- Events sent on. -/
  eventsForwarded : Nat
  deriving DecidableEq, Repr

namespace Counters

/-- Nothing done. -/
def zero : Counters := ⟨0, 0, 0, 0, 0⟩

/-- Counters as an object. -/
def toJson (c : Counters) : Json :=
  .obj [("statements", .nat c.statements), ("sessionsCreated", .nat c.sessionsCreated),
    ("sessionsResumed", .nat c.sessionsResumed), ("bindingsWritten", .nat c.bindingsWritten),
    ("eventsForwarded", .nat c.eventsForwarded)]

end Counters

end Playbook
