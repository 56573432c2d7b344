import Playbook.Program.Phrase

/-!
# `Playbook.Program.Parser` — reading programs

Indentation gives a program its structure: the body of a header line stands two spaces deeper. A block
takes the lines at its own indentation and ends at the first code line with a smaller one, or at a
comment line with a smaller one. Comments deeper than their block are dropped.

Each function takes the lines that are left and gives back those it did not use. The only recursion
that is not on the lines is that of blocks inside blocks, and `depth` bounds both: every use of it takes
at least one line.

## Contents
- **Looking ahead.** `nextCode`, `checkBody`.
- **Agents.** `properties`, `agent`.
- **Statements.** `Readers` stands for the readers of nested blocks; `statement` and `attempt` use it.
- **Blocks.** `block`, `branches`.
- **Programs.** `top`, `Program.parse`.
-/

namespace Playbook.Program

open Text

namespace Parser

/-- The lines that a reader left. -/
abbrev Rest := List Line

/-- How much deeper a body stands than its header. -/
def indentStep : Nat := 2

/-- Add a line's number to a fault. -/
def at_ {α : Type} (line : Line) : Except Fault α → Except Error α
  | .ok a => .ok a
  | .error fault => .error ⟨line.number, fault⟩

/-- Raise a fault of a line. -/
def fail {α : Type} (line : Line) (fault : Fault) : Except Error α :=
  .error ⟨line.number, fault⟩

/-! ## Looking ahead -/

/-- The next code line and the lines after it. -/
def nextCode : List Line → Option (Line × List Line)
  | [] => none
  | l :: rest => if l.isComment then nextCode rest else some (l, rest)

/-- Check that the next code line can open the body of a header. -/
def checkBody (header : Line) (missing : Fault) (lines : List Line) : Except Error Unit :=
  match nextCode lines with
  | some (next, _) =>
    if next.indent > header.indent then
      if next.indent = header.indent + indentStep then .ok ()
      else fail next (.badIndent (header.indent + indentStep) next.indent)
    else fail header missing
  | none => fail header missing

/-! ## Agents -/

/-- Set a property of an agent. -/
def setProperty (a : Agent) (line : Line) : Except Fault Agent :=
  match splitFirst [':'] line.text with
  | none => throw .property
  | some (key, value) =>
    let value := trim value
    let key := String.ofList (trim key)
    if key = "model" then (Phrase.scalar value).map fun v => { a with model := some v }
    else if key = "persist" then (Phrase.scalar value).map fun v => { a with persist := some v }
    else if key = "prompt" then
      (Phrase.prompt line.block value).map fun v => { a with prompt := some v }
    else throw (.unknownProperty key)

/-- Read the properties of an agent whose header stands at an indentation. -/
def properties (header : Nat) (a : Agent) : List Line → Except Error (Agent × Rest)
  | [] => .ok (a, [])
  | l :: rest =>
    if l.isComment then
      if l.indent < header + indentStep then .ok (a, l :: rest) else properties header a rest
    else if l.indent ≤ header then .ok (a, l :: rest)
    else if l.indent ≠ header + indentStep then
      fail l (.badIndent (header + indentStep) l.indent)
    else
      match at_ l (setProperty a l) with
      | .ok a => properties header a rest
      | .error e => .error e

/-- The agents defined so far. -/
abbrev Agents := KeyMap Agent

/-- Read an agent's definition behind its header. -/
def agent (agents : Agents) (line : Line) (rest : List Line) : Except Error (Agents × Rest) :=
  match Phrase.agentName? line.text with
  | none => fail line .agentHeader
  | some name =>
    if (agents.get? name).isSome then fail line (.agentTwice name)
    else do
      let (a, rest) ← properties line.indent (.named name) rest
      return (agents.insert a.name a, rest)

/-! ## Statements -/

/-- The readers of nested blocks, each given the indentation. -/
structure Readers where
  /-- Reads statements. -/
  block : Nat → List Line → Except Error (List Stmt × Rest)
  /-- Reads branches. -/
  branches : Nat → List Line → Except Error (List Branch × Rest)

/-- Read the body that must follow a header. -/
def body (r : Readers) (header : Line) (lines : List Line) : Except Error (List Stmt × Rest) := do
  checkBody header (.emptyBody (String.ofList header.text)) lines
  r.block (header.indent + indentStep) lines

/-- Read the catch clause of a try at an indentation, if there is one. -/
def catchClause (r : Readers) (indent : Nat) (lines : List Line) :
    Except Error ((Option String × Option (List Stmt)) × Rest) :=
  match nextCode lines with
  | some (l, rest) =>
    if l.indent = indent && startsWith l.text "catch".toList then
      match Phrase.catchName? l.text with
      | none => fail l .catchClause
      | some name => do
        let (handler, rest) ← body r l rest
        return ((name, some handler), rest)
    else .ok ((none, none), lines)
  | none => .ok ((none, none), lines)

/-- Read the finally clause of a try at an indentation, if there is one. -/
def finallyClause (r : Readers) (indent : Nat) (lines : List Line) :
    Except Error (Option (List Stmt) × Rest) :=
  match nextCode lines with
  | some (l, rest) =>
    if l.indent = indent && l.text = "finally:".toList then do
      let (final, rest) ← body r l rest
      return (some final, rest)
    else .ok (none, lines)
  | none => .ok (none, lines)

/-- Read a try behind its header. -/
def attempt (r : Readers) (line : Line) (rest : List Line) : Except Error (Stmt × Rest) := do
  let (tried, rest) ← body r line rest
  let ((name, handler), rest) ← catchClause r line.indent rest
  let (final, rest) ← finallyClause r line.indent rest
  -- The fault is the header's, whatever stands where a clause was expected.
  if handler.isNone && final.isNone then fail line .noClause
  else return (.attempt tried name handler final, rest)

/-- Read a statement that starts on a line. -/
def statement (r : Readers) (line : Line) (rest : List Line) : Except Error (Stmt × Rest) :=
  let text := line.text
  if text = "try:".toList then attempt r line rest
  else if startsWith text "catch".toList || text = "finally:".toList then
    fail line (.strayClause (String.ofList text))
  else if startsWith text "parallel".toList && endsWith text [':'] then
    match Phrase.policy? text with
    | none => fail line .policy
    | some policy => do
      checkBody line .noBranch rest
      let (branches, rest) ← r.branches (line.indent + indentStep) rest
      return (.parallel policy branches, rest)
  else
    match stripPrefix "repeat ".toList text with
    | some count =>
      match Phrase.repeatCount? count with
      | none => fail line .repeatCount
      | some count => do
        let (looped, rest) ← body r line rest
        return (.loop count looped, rest)
    | none =>
      -- Without a literal the colon can only be meant to open a block.
      if endsWith text [':'] && !text.contains '"' then
        fail line (.unknownBlock (String.ofList text))
      else do return (← at_ line (Phrase.simple text), rest)

/-- Read a branch that starts on a line. -/
def branch (r : Readers) (line : Line) (rest : List Line) : Except Error (Branch × Rest) :=
  match Phrase.namedBranch? line.text with
  | some (name, text) => do return (← at_ line (Phrase.namedBranch name text), rest)
  | none => do
    let (stmt, rest) ← statement r line rest
    return (.mk none stmt, rest)

/-! ## Blocks -/

/-- The text of a comment statement: without the marks before it and blanks around it. -/
def commentText (text : List Char) : String :=
  String.ofList (trim (text.dropWhile (· == '#')))

/-- Whether a line opens an agent's definition. -/
def opensAgent (line : Line) : Bool :=
  startsWith line.text "agent ".toList

mutual

/-- Read the statements of a block at an indentation. -/
def block (depth : Nat) (indent : Nat) (lines : List Line) : Except Error (List Stmt × Rest) :=
  match depth, lines with
  | 0, lines => .ok ([], lines)
  | _, [] => .ok ([], [])
  | depth + 1, l :: rest =>
    if l.indent < indent then .ok ([], l :: rest)
    else if l.isComment then do
      let (stmts, left) ← block depth indent rest
      -- A comment that stands deeper belongs to no block.
      return (if l.indent = indent then .comment (commentText l.text) :: stmts else stmts, left)
    else if l.indent > indent then fail l (.badIndent indent l.indent)
    else if opensAgent l then fail l .nestedAgent
    else do
      let (stmt, rest) ← statement ⟨block depth, branches depth⟩ l rest
      let (stmts, left) ← block depth indent rest
      return (stmt :: stmts, left)

/-- Read the branches of a parallel block at an indentation. -/
def branches (depth : Nat) (indent : Nat) (lines : List Line) : Except Error (List Branch × Rest) :=
  match depth, lines with
  | 0, lines => .ok ([], lines)
  | _, [] => .ok ([], [])
  | depth + 1, l :: rest =>
    if l.indent < indent then .ok ([], l :: rest)
    else if l.isComment then branches depth indent rest
    else if l.indent > indent then fail l (.badIndent indent l.indent)
    else do
      let (b, rest) ← branch ⟨block depth, branches depth⟩ l rest
      let (bs, left) ← branches depth indent rest
      return (b :: bs, left)

end

/-! ## Programs -/

/-- Read the agents and statements at the top level. -/
def top (depth : Nat) (agents : Agents) (lines : List Line) : Except Error (Agents × List Stmt) :=
  match depth, lines with
  | 0, _ => .ok (agents, [])
  | _, [] => .ok (agents, [])
  | depth + 1, l :: rest =>
    if l.isComment then do
      let (agents, stmts) ← top depth agents rest
      return (agents, if l.indent = 0 then .comment (commentText l.text) :: stmts else stmts)
    else if l.indent > 0 then fail l (.badIndent 0 l.indent)
    else if opensAgent l then do
      let (agents, rest) ← agent agents l rest
      top depth agents rest
    else do
      let (stmt, rest) ← statement ⟨block depth, branches depth⟩ l rest
      let (agents, stmts) ← top depth agents rest
      return (agents, stmt :: stmts)

/-- Read a program from its lines: comments at the head, then agents and statements. -/
def program (lines : List Line) : Except Error Program := do
  let header := lines.takeWhile (·.isComment)
  let (agents, statements) ← top (lines.length + 1) [] (lines.dropWhile (·.isComment))
  return { header := header.map fun l => String.ofList l.text, agents, statements }

end Parser

/-- Read a program, or say what is wrong with which line. -/
def parse? (source : String) : Except Error Program := do
  Parser.program (← Line.ofSource source)

/-- Read a program. -/
def parse (source : String) : Except Failure Program :=
  match parse? source with
  | .ok program => .ok program
  | .error e => .error e.failure

end Playbook.Program
