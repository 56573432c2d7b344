import Playbook.Program.Parser
import Playbook.Proofs.KeyMap
import Playbook.Proofs.Program.Listing

/-!
# `Proofs.Program.Printer` — programs as text

A program is written as its header, its agents and its statements, one line for each mark of their listing, two spaces for each
level. Strings are written as literals, in which quotes, backslashes, line feeds and tabs are escaped and nothing else is.

Not every program can be written so that it is read back. Those that can are *printable*: their names are names, calls that take
up a session say with whom, no block is empty, and there are no comments but in the header.

## Contents
- **Phrases.** `literal`, `call`, `expr`, `stmt`, `branch`, `mark`.
- **Lines.** `Draft`, `agent`, `drafts`, `print`.
- **Printable programs.** `printableStmt` and its like, `Printable`.
-/

namespace Playbook.Program

namespace Printer

/-! ## Phrases -/

/-- A character in a string literal. -/
def escape (c : Char) : List Char :=
  if c = '"' then ['\\', '"']
  else if c = '\\' then ['\\', '\\']
  else if c = '\n' then ['\\', 'n']
  else if c = '\t' then ['\\', 't']
  else [c]

/-- A string as a literal. -/
def literal (s : String) : List Char :=
  '"' :: (s.toList.flatMap escape ++ ['"'])

/-- A call behind its keyword. -/
def call (c : SessionCall) : List Char :=
  match c.agent with
  | none => ' ' :: literal c.title
  | some agent => ':' :: ' ' :: (agent.toList ++ ' ' :: literal c.title)

/-- An expression. -/
def expr : Expr → List Char
  | .str value => literal value
  | .var name => name.toList
  | .session c => Phrase.sessionWord ++ call c
  | .resume c => Phrase.resumeWord ++ call c

/-- A name and its value. -/
def assignment (name : String) (value : List Char) : List Char :=
  name.toList ++ ' ' :: '=' :: ' ' :: value

/-- A statement without a body. -/
def stmt : Stmt → List Char
  | .session c => Phrase.sessionWord ++ call c
  | .resume c => Phrase.resumeWord ++ call c
  | .assign name value => "let ".toList ++ assignment name (expr value)
  | .output name value => "output ".toList ++ assignment name (expr value)
  | _ => []

/-- A branch without a body. -/
def branch : Branch → List Char
  | .mk none s => stmt s
  | .mk (some name) s => assignment name (stmt s)

/-- A header line that ends in a name. -/
def header (keyword : String) (name : String) : List Char :=
  keyword.toList ++ (name.toList ++ [':'])

/-- What a line says. -/
def mark : Mark → List Char
  | .attempt => "try:".toList
  | .handler none => "catch:".toList
  | .handler (some name) => header "catch as " name
  | .final => "finally:".toList
  | .parallel policy => "parallel(on-fail: ".toList ++ (policy.name.toList ++ "):".toList)
  | .loop count => "repeat ".toList ++ (Nat.toDigits 10 count.toNat ++ [':'])
  | .plain s => stmt s
  | .branch b => branch b

/-! ## Lines -/

/-- A line to be written: how far it is indented, and its text. -/
abbrev Draft := Nat × List Char

/-- A property of an agent, if it has it. -/
def property (key : String) : Option String → List Draft
  | none => []
  | some value => [(2, key.toList ++ ':' :: ' ' :: literal value)]

/-- An agent's properties. -/
def properties (a : Agent) : List Draft :=
  property "model" a.model ++ property "persist" a.persist ++ property "prompt" a.prompt

/-- An agent's definition. -/
def agent (a : Agent) : List Draft :=
  (0, header "agent " a.name) :: properties a

/-- The lines of statements. -/
def listing (n : Listing) : List Draft :=
  n.map fun e => (2 * e.1, mark e.2)

/-- The lines of a program: its header, its agents and its statements. -/
def drafts (p : Program) : List Draft :=
  p.header.map (fun l => (0, l.toList)) ++
    (p.agents.flatMap (fun e => agent e.2) ++ listing (Listing.ofStmts 0 p.statements))

/-- A line as it is written. -/
def raw (d : Draft) : List Char :=
  List.replicate d.1 ' ' ++ d.2

/-- A program as text. -/
def print (p : Program) : String :=
  String.ofList ((drafts p).flatMap fun d => raw d ++ ['\n'])

/-! ## Printable programs -/

/-- Whether a string is a name. -/
def isName (s : String) : Bool :=
  Phrase.isName s.toList

/-- Whether a call, if it names an agent, names it well. -/
def printableSession (c : SessionCall) : Bool :=
  c.agent.all isName

/-- Whether a call names an agent, and names it well. -/
def printableResume (c : SessionCall) : Bool :=
  c.agent.any isName

/-- Whether all names in an expression are names. -/
def printableExpr : Expr → Bool
  | .str _ => true
  | .var name => isName name
  | .session c => printableSession c
  | .resume c => printableResume c

/-- Whether a statement is a call. -/
def isCall : Stmt → Bool
  | .session _ | .resume _ => true
  | _ => false

/-- Whether a name can stand before the call of a branch. -/
def isBranchName (name : String) : Bool :=
  isName name && name ≠ "let" && name ≠ "output"

mutual

/-- Whether a statement is printable. -/
def printableStmt : Stmt → Bool
  | .session c => printableSession c
  | .resume c => printableResume c
  | .assign name value => isName name && printableExpr value
  | .output name value => isName name && printableExpr value
  | .attempt body name handler final =>
    printableBody body && name.all (fun n => isName n && handler.isSome) &&
      printableClause handler && printableClause final && (handler.isSome || final.isSome)
  | .parallel _ branches => !branches.isEmpty && printableBranches branches
  | .loop _ body => printableBody body
  | .comment _ => false

/-- Whether there are statements, and they are printable. -/
def printableBody : List Stmt → Bool
  | [] => false
  | s :: rest => printableStmt s && printableStmts rest

/-- Whether statements in a row are printable. -/
def printableStmts : List Stmt → Bool
  | [] => true
  | s :: rest => printableStmt s && printableStmts rest

/-- Whether a clause of a `try`, if there is one, is printable. -/
def printableClause : Option (List Stmt) → Bool
  | none => true
  | some body => printableBody body

/-- Whether a branch is printable; only calls have a name before them. -/
def printableBranch : Branch → Bool
  | .mk name s => printableStmt s && name.all (fun n => isBranchName n && isCall s)

/-- Whether branches in a row are printable. -/
def printableBranches : List Branch → Bool
  | [] => true
  | b :: rest => printableBranch b && printableBranches rest

end

/-- Programs that can be written so that they are read back. -/
structure Printable (p : Program) : Prop where
  /-- The lines of the header are comments. -/
  header : ∀ l ∈ p.header, l.toList.head? = some '#' ∧ '\n' ∉ l.toList ∧
    Text.trimEnd l.toList = l.toList
  /-- The agents stand in a map. -/
  sorted : KeyMap.Sorted p.agents
  /-- Each of them stands under its name. -/
  agents : ∀ e ∈ p.agents, e.1 = e.2.name ∧ isName e.1 = true
  statements : printableStmts p.statements = true

end Printer

end Playbook.Program
