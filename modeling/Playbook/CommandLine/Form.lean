import Playbook.Text.Search

/-!
# `Playbook.CommandLine.Form` — options and operands among arguments

A form says which options, operands and commands may stand in a list of arguments. An option is called by its long name after
two dashes, or by a letter after one; letters may share a dash. The value of an option follows as the next argument, or in
the same one: after an equals sign, or directly after a letter. Two dashes alone end the options.

## Contents
- **Forms.** `Use`, `Rule`, `Operand`, `Form`.
- **Arguments.** `Given` is what has been read; `Stop` says why reading ends early.
- **Reading.** `Form.read`, up to the name of a command.
- **Environment.** `Form.complete` looks up the options that were not given.
-/

namespace Playbook.CommandLine

/-! ## Forms -/

/-- How an option is used. -/
inductive Use where
  /-- Given or not, without a value. -/
  | switch
  /-- With any value. -/
  | text
  /-- With a value that is not empty. -/
  | path
  /-- With one of a few values. -/
  | choice (values : List String)
  /-- With any value, any number of times. -/
  | texts
  /-- Asks for the help text. -/
  | help
  /-- Asks for the version. -/
  | version
  deriving DecidableEq, Repr

namespace Use

/-- Whether the option takes a value. -/
def takesValue : Use → Bool
  | switch | help | version => false
  | _ => true

/-- Whether a value is allowed. -/
def accepts : Use → String → Bool
  | path, value => value ≠ ""
  | choice values, value => values.contains value
  | _, _ => true

end Use

/-- An option. -/
structure Rule where
  /-- The name after two dashes. -/
  long : String
  /-- The letter after one dash. -/
  letter : Option Char
  use : Use
  /-- The environment variable that stands in for the option. -/
  variable_ : Option String
  /-- What the value is called in help texts. -/
  label : String
  /-- What the option does. -/
  summary : String
  deriving Repr

/-- An argument that is not an option. -/
structure Operand where
  /-- What it is called in help texts. -/
  label : String
  /-- What it stands for. -/
  summary : String
  deriving Repr

/-- What may stand in a list of arguments. -/
structure Form where
  /-- The command that the arguments are for. -/
  title : String
  /-- What the command does. -/
  summary : String
  rules : List Rule
  /-- A path, which has to be given. -/
  operand : Option Operand
  /-- The names of commands, with what they do. -/
  commands : List (String × String)
  deriving Repr

/-! ## Arguments -/

/-- What has been read of a list of arguments. -/
structure Given where
  /-- Values by the long names of their options, in order; that of a switch is empty. -/
  values : List (String × String)
  operand : Option String
  /-- Values that come from the environment. -/
  ambient : List (String × String)
  deriving DecidableEq, Repr

namespace Given

/-- Nothing. -/
def nothing : Given := ⟨[], none, []⟩

/-- Whether an option was given. -/
def has (g : Given) (long : String) : Bool :=
  g.values.any (·.1 == long)

/-- The values given for an option. -/
def all (g : Given) (long : String) : List String :=
  (g.values.filter (·.1 == long)).map (·.2)

/-- The value given for an option. -/
def get? (g : Given) (long : String) : Option String :=
  (g.all long).head?

/-- The value of an option in the environment. -/
def ambient? (g : Given) (long : String) : Option String :=
  (g.ambient.find? (·.1 == long)).map (·.2)

/-- Add a value of an option. Only some options may be given twice. -/
def add? (g : Given) (rule : Rule) (value : String) : Option Given :=
  if rule.use.accepts value && (rule.use = .texts || !g.has rule.long) then
    some { g with values := g.values ++ [(rule.long, value)] }
  else none

end Given

/-- Why reading arguments ends early. -/
inductive Stop where
  /-- They cannot be read. -/
  | refused
  /-- The help text of a form was asked for. -/
  | help (form : Form)
  /-- The version was asked for. -/
  | version

/-! ## Reading -/

namespace Form

/-- Add a value of an option, or refuse it. -/
def give (g : Given) (rule : Rule) (value : String) : Except Stop Given :=
  match g.add? rule value with
  | some g => .ok g
  | none => .error .refused

/-- Read an option that takes no value. -/
def turnOn (form : Form) (g : Given) (rule : Rule) : Except Stop Given :=
  match rule.use with
  | .help => .error (.help form)
  | .version => .error .version
  | _ => give g rule ""

/-- Read an operand. -/
def giveOperand (form : Form) (g : Given) (arg : String) : Except Stop Given :=
  match form.operand, g.operand with
  | some _, none => if arg = "" then .error .refused else .ok { g with operand := some arg }
  | _, _ => .error .refused

/-- Read letters after a dash; gives the option whose value is to follow, if there is one. -/
def readLetters (form : Form) (g : Given) : List Char → Except Stop (Given × Option Rule)
  | [] => .ok (g, none)
  | c :: rest =>
    match form.rules.find? (·.letter == some c) with
    | none => .error .refused
    | some rule =>
      if rule.use.takesValue then
        match rest with
        | [] => .ok (g, some rule)
        | '=' :: value => (give g rule (String.ofList value)).map (·, none)
        | value => (give g rule (String.ofList value)).map (·, none)
      else
        match form.turnOn g rule with
        | .ok g => readLetters form g rest
        | .error e => .error e

/-- Read a long name and what follows it after an equals sign, if anything does; gives the option
    whose value is to follow, if there is one. -/
def readLong (form : Form) (g : Given) (name : String) (value : Option String) :
    Except Stop (Given × Option Rule) :=
  match form.rules.find? (·.long == name), value with
  | none, _ => .error .refused
  | some rule, some value =>
    if rule.use.takesValue then (give g rule value).map (·, none) else .error .refused
  | some rule, none =>
    if rule.use.takesValue then .ok (g, some rule) else (form.turnOn g rule).map (·, none)

/-- Cut a long option at its first equals sign. -/
def splitLong (text : List Char) : String × Option String :=
  match Text.splitFirst ['='] text with
  | some (name, value) => (String.ofList name, some (String.ofList value))
  | none => (String.ofList text, none)

/-- Read an argument that stands where options may stand and that is no command; gives the option
    whose value is to follow, if there is one. -/
def readArgument (form : Form) (g : Given) (arg : String) : Except Stop (Given × Option Rule) :=
  match arg.toList with
  | '-' :: '-' :: text =>
    let (name, value) := splitLong text
    form.readLong g name value
  | '-' :: c :: letters => form.readLetters g (c :: letters)
  | _ => (form.giveOperand g arg).map (·, none)

/-- Whether an argument looks like an option, and so cannot be a value. -/
def isOption (arg : String) : Bool :=
  match arg.toList with
  | '-' :: _ :: _ => true
  | _ => false

/-- Read operands only. -/
def readOperands (form : Form) (g : Given) : List String → Except Stop Given
  | [] => .ok g
  | arg :: rest =>
    match form.giveOperand g arg with
    | .ok g => readOperands form g rest
    | .error e => .error e

/-- Read arguments, the first of which may be the value of an option that waits for one; gives the
    name of the command that they come to, and the arguments after it. -/
def readFrom (form : Form) (g : Given) (waiting : Option Rule) :
    List String → Except Stop (Given × Option (String × List String))
  | [] => if waiting.isSome then .error .refused else .ok (g, none)
  | arg :: rest =>
    match waiting with
    | some rule =>
      if isOption arg then .error .refused
      else
        match give g rule arg with
        | .ok g => readFrom form g none rest
        | .error e => .error e
    | none =>
      if form.commands.any (·.1 == arg) then .ok (g, some (arg, rest))
      else if arg = "--" then (form.readOperands g rest).map (·, none)
      else
        match form.readArgument g arg with
        | .ok (g, waiting) => readFrom form g waiting rest
        | .error e => .error e

/-- Read arguments. -/
def read (form : Form) (args : List String) :
    Except Stop (Given × Option (String × List String)) :=
  form.readFrom .nothing none args

/-! ## Environment -/

/-- Look up one option in the environment, unless it was given. -/
def lookUp (env : String → Option String) (g : Given) (rule : Rule) : Except Stop Given :=
  match g.has rule.long, rule.variable_.bind env with
  | false, some value =>
    if rule.use.accepts value then .ok { g with ambient := g.ambient ++ [(rule.long, value)] }
    else .error .refused
  | _, _ => .ok g

/-- Look up the options that were not given. -/
def complete (form : Form) (env : String → Option String) (g : Given) : Except Stop Given :=
  form.rules.foldlM (lookUp env) g

end Form

end Playbook.CommandLine
