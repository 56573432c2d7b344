import Playbook.CommandLine.Form

/-!
# `Playbook.CommandLine.Order` — what the arguments ask for

## Contents
- **Orders.** `BackendChoice`, `Command`, `Order`.
- **Forms.** `generalRules` may stand before and after the name of a command; `programForm` is the form of all
  arguments, `formOf?` that of the arguments after the name of a command.
- **Reading.** `Order.ofArguments`.
-/

namespace Playbook.CommandLine

/-! ## Orders -/

/-- Where sessions are to be held. -/
inductive BackendChoice where
  | echo
  | messages
  deriving DecidableEq, Repr

namespace BackendChoice

/-- The word for a choice. -/
def name : BackendChoice → String
  | echo => "echo"
  | messages => "messages"

/-- Every choice. -/
def all : List BackendChoice :=
  [echo, messages]

end BackendChoice

/-- What is to be run, and what is to be used instead of the settings. -/
structure RunOrder where
  manifest : String
  backend : BackendChoice
  /-- Names with their values, as they were written. -/
  inputs : List String
  principal : Option String
  collector : Option String
  storeDir : Option String
  apiKey : Option String
  deriving DecidableEq, Repr

/-- What is to be done. -/
inductive Command where
  /-- Read a program and show how it is built. -/
  | check (file : String)
  /-- Write the sealed manifest of a program. -/
  | seal_ (file runId : String) (out : Option String)
  /-- Check a manifest. -/
  | verify (manifest : String)
  /-- Run a manifest. -/
  | run (order : RunOrder)
  deriving DecidableEq, Repr

/-- What is to be done, and how. -/
structure Order where
  /-- The file with the settings. -/
  config : Option String
  /-- The secret to use instead of that of the settings. -/
  secret : Option String
  /-- Whether answers are to be written as JSON. -/
  json : Bool
  command : Command
  deriving DecidableEq, Repr

/-! ## Forms -/

/-- The option that asks for help. -/
def helpRule : Rule :=
  ⟨"help", some 'h', .help, none, "", "Print help"⟩

/-- The options that every command has. -/
def generalRules : List Rule :=
  [⟨"config", some 'c', .path, some "PROCFLOW_CONFIG", "CONFIG", "Settings file (TOML)"⟩,
   ⟨"secret", none, .text, some "PROCFLOW_SECRET", "SECRET",
    "Shared secret for manifest and event signatures"⟩,
   ⟨"json", none, .switch, none, "", "Print machine-readable JSON"⟩]

/-- The form of the arguments after a command's name. -/
def commandForm (name summary : String) (operand : Operand) (rules : List Rule) : Form :=
  ⟨name, summary, rules ++ generalRules ++ [helpRule], some operand, []⟩

/-- The form of the arguments after `check`. -/
def checkForm : Form :=
  commandForm "check" "Parse a program and print its structure"
    ⟨"FILE", "Path to the program source"⟩ []

/-- The form of the arguments after `seal`. -/
def sealForm : Form :=
  commandForm "seal" "Build a signed manifest for a program"
    ⟨"FILE", "Path to the program source"⟩
    [⟨"run-id", none, .text, none, "RUN_ID", "Run id to pin"⟩,
     ⟨"out", some 'o', .path, none, "OUT", "Write the manifest here instead of stdout"⟩]

/-- The form of the arguments after `verify`. -/
def verifyForm : Form :=
  commandForm "verify" "Verify a manifest's hash and signature"
    ⟨"MANIFEST", "Path to the manifest JSON"⟩ []

/-- The form of the arguments after `run`. -/
def runForm : Form :=
  commandForm "run" "Verify and run a manifest" ⟨"MANIFEST", "Path to the manifest JSON"⟩
    [⟨"adapter", some 'a', .choice (BackendChoice.all.map (·.name)), none, "ADAPTER",
      "Session backend"⟩,
     ⟨"input", some 'i', .texts, none, "NAME=VALUE", "Input binding, repeatable"⟩,
     ⟨"principal", none, .text, some "PROCFLOW_PRINCIPAL", "PRINCIPAL",
      "Principal the run acts for"⟩,
     ⟨"collector", none, .text, some "PROCFLOW_COLLECTOR_URL", "COLLECTOR",
      "Collector base URL for events"⟩,
     ⟨"store-dir", none, .path, some "PROCFLOW_STORE_DIR", "STORE_DIR",
      "Directory for binding contents and memory records"⟩,
     ⟨"api-key", none, .text, some "ANTHROPIC_API_KEY", "API_KEY",
      "API key for the messages adapter"⟩]

/-- The forms of the commands. -/
def commandForms : List Form :=
  [checkForm, sealForm, verifyForm, runForm]

/-- The name of the command that shows help texts. -/
def helpCommand : String := "help"

/-- The form of the arguments after `help`. -/
def helpForm : Form :=
  ⟨helpCommand, "Print this message or the help of the given subcommand(s)", [], none, []⟩

/-- The form of all arguments. -/
def programForm : Form where
  title := "procflow"
  summary := "procflow - run process programs over agent sessions"
  rules := generalRules ++
    [helpRule, ⟨"version", some 'V', .version, none, "", "Print version"⟩]
  operand := none
  commands := (commandForms ++ [helpForm]).map fun form => (form.title, form.summary)

/-! ## Reading -/

/-- What was given before and after the name of a command. -/
structure Both where
  before : Given
  after : Given

namespace Both

/-- The value of an option: what was given after the name of the command counts first, then what was
    given before it, then the environment. -/
def get? (b : Both) (long : String) : Option String :=
  b.after.get? long <|> b.before.get? long <|> b.after.ambient? long <|> b.before.ambient? long

/-- The value of an option that has to be given. -/
def need (b : Both) (long : String) : Except Stop String :=
  match b.get? long with
  | some value => .ok value
  | none => .error .refused

/-- The operand, which has to be given. -/
def operand (b : Both) : Except Stop String :=
  match b.after.operand with
  | some value => .ok value
  | none => .error .refused

/-- The backend, the first of all unless another is named. -/
def backend (b : Both) : BackendChoice :=
  ((b.get? "adapter").bind fun name => BackendChoice.all.find? (·.name == name)).getD .echo

/-- The command of a name. -/
def command (b : Both) (name : String) : Except Stop Command := do
  match name with
  | "check" => return .check (← b.operand)
  | "seal" => return .seal_ (← b.operand) (← b.need "run-id") (b.get? "out")
  | "verify" => return .verify (← b.operand)
  | "run" =>
    return .run
      { manifest := ← b.operand
        backend := b.backend
        inputs := b.after.all "input"
        principal := b.get? "principal"
        collector := b.get? "collector"
        storeDir := b.get? "store-dir"
        apiKey := b.get? "api-key" }
  | _ => .error .refused

end Both

/-- The form whose help text arguments after `help` ask for. -/
def helpFor : List String → Stop
  | [] => .help programForm
  | [name] =>
    match (commandForms ++ [helpForm]).find? (·.title == name) with
    | some form => .help form
    | none => .refused
  | _ => .refused

/-- What the arguments ask for. -/
def Order.ofArguments (env : String → Option String) (args : List String) :
    Except Stop Order := do
  let (before, rest) ← programForm.read args
  match rest with
  | none => .error .refused
  | some (name, rest) =>
    if name = helpCommand then .error (helpFor rest)
    else
      match commandForms.find? (·.title == name) with
      | none => .error .refused
      | some form =>
        let (after, _) ← form.read rest
        -- The environment is looked at only once all arguments have been read.
        let both : Both := ⟨← programForm.complete env before, ← form.complete env after⟩
        return { config := both.get? "config"
                 secret := both.get? "secret"
                 json := (both.get? "json").isSome
                 command := ← both.command name }

end Playbook.CommandLine
