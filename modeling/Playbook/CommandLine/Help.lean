import Playbook.CommandLine.Order

/-!
# `Playbook.CommandLine.Help` — help texts

A help text says what a command does, how its arguments are written, and lists its operands, commands and options in columns.

## Contents
- **Columns.** `columns`.
- **Texts.** `Form.helpText`, `versionText`.
-/

namespace Playbook.CommandLine

/-! ## Columns -/

/-- A text filled up with blanks to a width. -/
def filled (width : Nat) (text : String) : String :=
  text ++ String.ofList (List.replicate (width - text.length) ' ')

/-- Lines of two columns, the first as wide as its widest entry. -/
def columns (entries : List (String × String)) : String :=
  let width := (entries.map (·.1.length)).foldl max 0
  String.join (entries.map fun e => "  " ++ filled width e.1 ++ "  " ++ e.2 ++ "\n")

/-- A heading over columns, or nothing if there are none. -/
def chapter (heading : String) (entries : List (String × String)) : String :=
  if entries.isEmpty then "" else "\n" ++ heading ++ ":\n" ++ columns entries

/-! ## Texts -/

namespace Rule

/-- How an option is written. -/
def spelling (r : Rule) : String :=
  (match r.letter with
    | some c => "-" ++ String.singleton c ++ ", "
    | none => "    ") ++
  "--" ++ r.long ++ (if r.use.takesValue then " <" ++ r.label ++ ">" else "")

/-- What the option does, and what stands in for it. -/
def account (r : Rule) : String :=
  r.summary ++
  (match r.variable_ with
    | some name => " [env: " ++ name ++ "]"
    | none => "") ++
  (match r.use with
    | .choice values => " [possible values: " ++ ", ".intercalate values ++ "]"
    | _ => "")

end Rule

namespace Form

/-- How the arguments are written. -/
def usage (form : Form) : String :=
  "procflow " ++
  (if form.title = programForm.title then "" else form.title ++ " ") ++
  (if form.rules.isEmpty then "" else "[OPTIONS] ") ++
  (match form.operand with
    | some operand => "<" ++ operand.label ++ ">"
    | none => if form.commands.isEmpty then "[COMMAND]..." else "<COMMAND>")

/-- The help text. -/
def helpText (form : Form) : String :=
  form.summary ++ "\n\nUsage: " ++ form.usage ++ "\n" ++
  chapter "Commands" form.commands ++
  chapter "Arguments" (form.operand.toList.map fun o => ("<" ++ o.label ++ ">", o.summary)) ++
  chapter "Options" (form.rules.map fun r => (r.spelling, r.account))

end Form

/-- The version. -/
def versionText : String := "procflow 0.1.0\n"

end Playbook.CommandLine
