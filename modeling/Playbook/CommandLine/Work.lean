import Playbook.Backend.Echo
import Playbook.CommandLine.Complaint
import Playbook.CommandLine.Help
import Playbook.Messages.Service
import Playbook.Outbox.Collector
import Playbook.Program.Json
import Playbook.Run.Launch
import Playbook.Settings
import Playbook.Store.FileStore

/-!
# `Playbook.CommandLine.Work` — carrying out what the arguments ask for

A command reads and writes files of a tree, and answers with a text and an exit code. Settings come first from the
settings file, then from the arguments.

## Contents
- **Workplaces.** `Workplace` is what commands need besides their arguments and the files; `Result` and `Answer` are what
  they give, and `Work` is how they go about it.
- **Files.** `readProgram`, `readManifest`, `loadSettings`.
- **Commands.** `check`, `sealProgram`, `verify`, `runManifest`.
- **Answers.** `Workplace.obey`, `Workplace.answer`.
-/

namespace Playbook.CommandLine

open Digest (Scheme)

/-! ## Workplaces -/

/-- What commands need besides their arguments and the files. -/
structure Workplace where
  scheme : Scheme
  /-- The current directory. -/
  here : FilePath
  /-- The environment. -/
  env : String → Option String
  /-- What the clock of a run shows, as a point in time. -/
  time : Nat → Timestamp
  /-- Who answers requests. -/
  peer : Http.Peer Unit
  /-- The id of the n-th session of the Messages service. -/
  newId : Nat → String

/-- What a command says; `good` says whether it did what it was asked for. -/
structure Result where
  text : String
  good : Bool

/-- What is written, and the exit code. -/
structure Answer where
  code : Nat
  out : String
  err : String
  deriving DecidableEq, Repr

/-- Work on the files of a tree, which may end in a complaint. What has been written by then stays. -/
abbrev Work (α : Type) := ExceptT Complaint (StateM FileTree) α

/-- A result, or what is to be complained of. -/
def orComplain {ε α : Type} (complaint : ε → Complaint) (r : Except ε α) : Work α :=
  ExceptT.mk fun t => (r.mapError complaint, t)

namespace Workplace

/-! ## Files -/

/-- A path written by whoever uses the command line. -/
def pathname (w : Workplace) (text : String) : Pathname :=
  ⟨w.here, text⟩

/-- Read the text of a file. -/
def readFile (w : Workplace) (file : String) : Work String :=
  ExceptT.mk fun t => ((t.readText (w.pathname file)).mapError (.unreadable file), t)

/-- Read a program; gives its source too. -/
def readProgram (w : Workplace) (file : String) : Work (String × Program) := do
  let source ← w.readFile file
  let program ← orComplain (.noProgram file) (Program.parse source)
  return (source, program)

/-- Read a manifest. -/
def readManifest (w : Workplace) (file : String) : Work Manifest := do
  orComplain .failed (Manifest.parse (← w.readFile file))

/-- Read settings, or take the usual ones if no file is named. -/
def loadSettings (w : Workplace) : Option String → Work Settings
  | none => return .standard
  | some file => do
    match Settings.parse (← w.readFile file) with
    | some settings => return settings
    | none => throw .badSettings

/-- The secret of the settings, if they have one. -/
def needSecret (s : Settings) : Work String :=
  if s.security.sharedSecret = "" then throw .noSecret else return s.security.sharedSecret

/-! ## Commands -/

/-- An answer in lines, from a command that did what it was asked for. -/
def lines (lines : List String) : Result :=
  ⟨String.join (lines.map (· ++ "\n")), true⟩

/-- Read a program and show how it is built. -/
def check (w : Workplace) (json : Bool) (file : String) : Work Result := do
  let (_, program) ← w.readProgram file
  return lines (if json then [program.toJson.indented] else (file ++ ": ok") :: program.outline)

/-- Write a text to a file. -/
def writeFile (w : Workplace) (file text : String) : Work Unit :=
  ExceptT.mk fun t =>
    let (t, r) := t.writeText (w.pathname file) text
    (r.mapError (.unwritable file), t)

/-- Seal a manifest of a program that can be read, and write it to a file or show it. -/
def sealProgram (w : Workplace) (s : Settings) (file runId : String) (out : Option String) :
    Work Result := do
  let secret ← needSecret s
  -- A program that cannot be read is not sealed.
  let (source, _) ← w.readProgram file
  let text := ((Manifest.create w.scheme runId source).sealWith w.scheme secret).text
  match out with
  | none => return lines [text]
  | some out =>
    w.writeFile out text
    return lines ["sealed " ++ runId ++ " -> " ++ out]

/-- Check a manifest. -/
def verify (w : Workplace) (s : Settings) (file : String) : Work Result := do
  let secret ← needSecret s
  let manifest ← w.readManifest file
  orComplain .failed (manifest.verify w.scheme ⟨secret, ""⟩)
  return lines [file ++ ": manifest ok (run " ++ manifest.runId ++ ")"]

/-- The settings with what an order says instead. -/
def override (s : Settings) (o : RunOrder) : Settings :=
  { s with
    principalId := o.principal.getD s.principalId
    collectorUrl := o.collector <|> s.collectorUrl
    storeDir := o.storeDir.getD s.storeDir
    messages := { s.messages with apiKey := o.apiKey <|> s.messages.apiKey } }

/-- Read inputs, each a name and a value with an equals sign between them; of equal names the last one
    counts. -/
def parseInputs (items : List String) : Work (KeyMap String) :=
  items.foldlM (fun inputs item =>
    match Text.splitFirst ['='] item.toList with
    | some (name, value) =>
      return inputs.insert (String.ofList (Text.trim name)) (String.ofList value)
    | none => throw (.badInput item)) []

/-- Make the directory of a store. -/
def openStore (w : Workplace) (dir : String) : Work FileStore :=
  ExceptT.mk fun t =>
    match t.makePath (w.pathname dir) with
    | (t, .ok root) => (.ok ⟨root, dir⟩, t)
    | (t, .error e) =>
      (.error (.failed (Failure.Cause.io ("Failed to create storage dir: " ++ e.message)).failure), t)

/-- Launch a manifest with a backend; the events go to the collector of the settings, if they have
    one. -/
def launchWith {τ η : Type} (w : Workplace) (backend : Backend τ η) (state : τ) (s : Settings)
    (store : FileStore) (m : Manifest) (inputs : KeyMap String) : Work RunReport :=
  let sink : Sink Unit :=
    match s.collectorUrl with
    | some url => .collector w.peer url
    | none => .log
  let launcher : Launcher τ η FileTree Unit :=
    { scheme := w.scheme
      config := ⟨s.security, s.outbox, s.principalId⟩
      backend
      store := store.operations w.scheme
      sink
      time := w.time }
  ExceptT.mk fun t =>
    let (report, state) := launcher.launch m inputs none (.fresh state t ())
    (.ok report, state.store)

/-- Launch a manifest with the backend of an order. -/
def launch (w : Workplace) (choice : BackendChoice) (s : Settings) (store : FileStore)
    (m : Manifest) (inputs : KeyMap String) : Work RunReport :=
  match choice with
  | .echo => w.launchWith .echo 0 s store m inputs
  | .messages => do
    let config ← orComplain .failed s.messages.checked
    let service : Messages.Service Unit := ⟨config, w.peer, w.newId⟩
    w.launchWith service.backend (.fresh ()) s store m inputs

/-- Run a manifest and report on the run. -/
def runManifest (w : Workplace) (json : Bool) (s : Settings) (o : RunOrder) : Work Result := do
  -- Of two faults the missing secret is told first, then the manifest, then the inputs.
  let _ ← needSecret s
  let s := override s o
  let manifest ← w.readManifest o.manifest
  let inputs ← parseInputs o.inputs
  let store ← w.openStore s.storeDir
  let report ← w.launch o.backend s store manifest inputs
  return { lines (if json then [report.toJson.indented] else report.summary) with
    good := report.isSuccess }

/-! ## Answers -/

/-- The settings for an order. -/
def settingsFor (w : Workplace) (o : Order) : Work Settings := do
  let s ← w.loadSettings o.config
  return { s with security :=
    { s.security with sharedSecret := o.secret.getD s.security.sharedSecret } }

/-- Carry out an order. -/
def obey (w : Workplace) (o : Order) : Work Result := do
  let s ← w.settingsFor o
  match o.command with
  | .check file => w.check o.json file
  | .seal_ file runId out => w.sealProgram s file runId out
  | .verify file => w.verify s file
  | .run order => w.runManifest o.json s order

/-- Do what the arguments ask for. Exit code 0 means that it was done, 1 that it could not be done, and
    2 that the arguments cannot be read. -/
def answer (w : Workplace) (args : List String) (t : FileTree) : Answer × FileTree :=
  match Order.ofArguments w.env args with
  | .error .refused => (⟨2, "", programForm.helpText⟩, t)
  | .error (.help form) => (⟨0, form.helpText, ""⟩, t)
  | .error .version => (⟨0, versionText, ""⟩, t)
  | .ok order =>
    match (w.obey order).run.run t with
    | (.error complaint, t) => (⟨1, "", complaint.text⟩, t)
    | (.ok result, t) => (⟨if result.good then 0 else 1, result.text, ""⟩, t)

end Workplace

end Playbook.CommandLine
