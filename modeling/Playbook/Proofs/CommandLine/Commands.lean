import Playbook.CommandLine.Work
import Playbook.Proofs.Program.Agents
import Playbook.Proofs.Program.Interchange
import Playbook.Proofs.Store.Pathname

/-!
# `Proofs.CommandLine.Commands` — what commands do, part by part

A command is work on the files of a tree, and each of its parts has one lemma here, which says what the part answers and which files
it leaves. From them follows that a program shown as JSON is the program in the file, word for word.

## Contents
- **Work.** `Work.run_bind_ok`, `Work.run_bind_error`.
- **Files.** `run_readProgram`, `run_readManifest`.
- **Settings and answers.** `run_needSecret`, `text_lines`.
- **Programs as JSON.** `run_check_json`; `Program.restored_from_json`, which holds of every program, also of one that no source says.
-/

namespace Playbook

namespace CommandLine

variable {α β : Type} {t t' : FileTree}

/-! ## Work -/

/-- After work that was done the rest goes on in the tree that it left. -/
theorem Work.run_bind_ok {x : Work α} {a : α} (h : x.run.run t = (.ok a, t')) (f : α → Work β) :
    (x >>= f).run.run t = (f a).run.run t' := by
  have hbind : (x >>= f).run.run t = (ExceptT.bindCont f (x.run.run t).1).run (x.run.run t).2 := rfl
  rw [hbind, h]
  rfl

/-- Work that ends in a complaint ends all that was to follow. -/
theorem Work.run_bind_error {x : Work α} {c : Complaint} (h : x.run.run t = (.error c, t')) (f : α → Work β) :
    (x >>= f).run.run t = (.error c, t') := by
  have hbind : (x >>= f).run.run t = (ExceptT.bindCont f (x.run.run t).1).run (x.run.run t).2 := rfl
  rw [hbind, h]
  rfl

namespace Workplace

variable {w : Workplace} {file source text : String} {p : Program} {s : Settings}

/-! ## Files -/

theorem run_readFile (hread : t.readText (w.pathname file) = .ok text) :
    (w.readFile file).run.run t = (.ok text, t) := by
  show ((t.readText (w.pathname file)).mapError (Complaint.unreadable file), t) = _
  rw [hread]
  rfl

theorem run_readProgram (hread : t.readText (w.pathname file) = .ok source) (hparse : Program.parse source = .ok p) :
    (w.readProgram file).run.run t = (.ok (source, p), t) := by
  rw [readProgram, Work.run_bind_ok (run_readFile hread)]
  have hprogram : (orComplain (.noProgram file) (Program.parse source) : Work Program).run.run t = (.ok p, t) := by
    rw [hparse]
    rfl
  rw [Work.run_bind_ok hprogram]
  rfl

theorem run_readManifest {m : Manifest} (hread : t.readText (w.pathname file) = .ok text)
    (hparse : Manifest.parse text = .ok m) : (w.readManifest file).run.run t = (.ok m, t) := by
  rw [readManifest, Work.run_bind_ok (run_readFile hread), hparse]
  rfl

/-! ## Settings and answers -/

theorem run_needSecret (h : s.security.sharedSecret ≠ "") :
    (needSecret s).run.run t = (.ok s.security.sharedSecret, t) := by
  rw [needSecret, if_neg h]
  rfl

/-- An answer of one line. -/
theorem text_lines (line : String) : lines [line] = ⟨line ++ "\n", true⟩ := by
  rw [lines, List.map_singleton, String.join, List.foldl_cons, List.foldl_nil, String.empty_append]

/-! ## Programs as JSON -/

/-- A program that is shown as JSON is written as indented text, in one answer that ends its last line. -/
theorem run_check_json (hread : t.readText (w.pathname file) = .ok source) (hparse : Program.parse source = .ok p) :
    (w.check true file).run.run t = (.ok ⟨p.toJson.indented ++ "\n", true⟩, t) := by
  rw [check, Work.run_bind_ok (run_readProgram hread hparse), ← text_lines]
  rfl

end Workplace

end CommandLine

open CommandLine (Workplace)

/-- **A program survives its JSON form**, whatever it holds and however its parts are nested, and so does the program of a source
that is shown as JSON. -/
theorem Program.restored_from_json :
    (∀ p : Program, KeyMap.Sorted p.agents → p.toJson.depth ≤ Json.depthLimit → ∀ after, Json.Blank after →
        (Json.readTree (p.toJson.indented ++ String.ofList after)).bind Program.ofJson? = some p) ∧
    ∀ (w : Workplace) (t : FileTree) (file source : String) (p : Program),
      t.readText (w.pathname file) = .ok source → Program.parse source = .ok p →
        ∃ shown, (w.check true file).run.run t = (.ok ⟨shown, true⟩, t) ∧
          (p.toJson.depth ≤ Json.depthLimit → (Json.readTree shown).bind Program.ofJson? = some p) := by
  constructor
  · intro p hagents hdepth after hafter
    exact Program.ofJson?_indented hagents hdepth hafter
  · intro w t file source p hread hparse
    refine ⟨_, Workplace.run_check_json hread hparse, fun hdepth => ?_⟩
    have hline : Json.Blank ['\n'] := List.forall_mem_singleton.2 rfl
    exact Program.ofJson?_indented (Program.parse_sorted hparse) hdepth hline

/-- A program that no source says: blocks without statements, an agent under a name that is not its own, names that are no names. -/
def Program.unwritten : Program where
  header := ["# \"Notes\"", ""]
  agents := [("a", ⟨"b", none, some "", some "no"⟩), ("ü", ⟨"ü", some "m\\n", none, none⟩)]
  statements := [
    .loop 0 [.attempt [] none (some []) none, .parallel .proceed
      [.mk none (.parallel .ignore []), .mk (some "") (.comment "\x00\"\n")]],
    .attempt [.assign "stmt" (.var "expr"), .session ⟨none, "One"⟩] (some "1") none
      (some [.output "x" (.resume ⟨some "nobody", "Two"⟩), .resume ⟨none, ""⟩,
        .assign "y" (.str "null"), .assign "z" (.session ⟨some "a", "{}"⟩)])]

/-- A workplace at the root of its tree, where no variable is set and nobody answers requests. -/
def CommandLine.Workplace.bare : Workplace where
  scheme := .standard
  here := []
  env _ := none
  time _ := ⟨0, 0⟩
  peer := .nobody
  newId n := "s-" ++ Nat.repr n

/-- The source of a short program. -/
def Program.shortSource : String :=
  "agent a:\n  persist: true\nrepeat 2:\n  resume: a \"One\"\n"

/-- A tree with one file, which holds a text. -/
def FileTree.single (name text : String) : FileTree :=
  [(name, .file (Text.Utf8.encode text.toList))]

theorem Program.restored_from_json_unwritten :
    KeyMap.Sorted Program.unwritten.agents ∧ Program.unwritten.toJson.depth ≤ Json.depthLimit ∧
      (Json.readTree (Program.unwritten.toJson.indented ++ String.ofList [' ', '\n'])).bind Program.ofJson? =
        some .unwritten ∧
      ∃ p shown, Program.parse Program.shortSource = .ok p ∧
        (Workplace.bare.check true "flow").run.run (.single "flow" Program.shortSource) =
          (.ok ⟨shown, true⟩, .single "flow" Program.shortSource) ∧
        (Json.readTree shown).bind Program.ofJson? = some p := by
  have hagents : KeyMap.Sorted Program.unwritten.agents := by decide
  have hdepth : Program.unwritten.toJson.depth ≤ Json.depthLimit := by decide
  have hblank : Json.Blank [' ', '\n'] := List.forall_mem_cons.2 ⟨rfl, List.forall_mem_singleton.2 rfl⟩
  refine ⟨hagents, hdepth, Program.restored_from_json.1 _ hagents hdepth _ hblank, ?_⟩
  have hparse : Program.parse Program.shortSource =
      .ok ⟨[], [("a", ⟨"a", none, none, some "true"⟩)], [.loop 2 [.resume ⟨some "a", "One"⟩]]⟩ := rfl
  have hsource : (FileTree.single "flow" Program.shortSource).readText (Workplace.bare.pathname "flow") =
      .ok Program.shortSource := FileTree.readText_eq_ok ["flow"] rfl rfl
  obtain ⟨shown, hcheck, hread⟩ := Program.restored_from_json.2 .bare _ "flow" _ _ hsource hparse
  exact ⟨_, shown, hparse, hcheck, hread (by decide)⟩

end Playbook
