import Playbook.Program.Basic
import Playbook.Program.Line

/-!
# `Playbook.Program.Phrase` — what stands on one line

## Contents
- **Names and literals.** `isName`, `stringLiteral`.
- **Calls and values.** `call`, `expr`.
- **Statements.** `simple` reads a statement without a body.
- **Headers.** `count?`, `policy?`, `catchName?`, `agentName?`, `namedBranch?`.
- **Properties.** `scalar`, `prompt`.

Phrases are read with faults that do not know their line; who knows the line adds its number.
-/

namespace Playbook.Program

open Text

namespace Phrase

/-! ## Names and literals -/

/-- Whether a text is a name: an ASCII letter or an underscore, then ASCII letters and digits,
    underscores and hyphens. -/
def isName : List Char → Bool
  | [] => false
  | c :: rest => (c.isAlpha || c == '_') && rest.all fun d => d.isAlphanum || d == '_' || d == '-'

/-- Read a literal behind its opening quote; `value` holds what was read, last character first.
    Gives the value and what follows the closing quote. A backslash stands for itself unless `n`,
    `t`, a quote or a backslash follows it. -/
def literalFrom (value : List Char) : List Char → Except Fault (String × List Char)
  | [] => .error .openString
  | '"' :: rest => .ok (String.ofList value.reverse, rest)
  | '\\' :: c :: rest =>
    match c with
    | 'n' => literalFrom ('\n' :: value) rest
    | 't' => literalFrom ('\t' :: value) rest
    | '"' => literalFrom ('"' :: value) rest
    | '\\' => literalFrom ('\\' :: value) rest
    | c => literalFrom (c :: '\\' :: value) rest
  | '\\' :: [] => .error .openString
  | c :: rest => literalFrom (c :: value) rest

/-- Read the string literal that a text starts with; gives its value and what follows it. -/
def stringLiteral (text : List Char) : Except Fault (String × List Char) :=
  literalFrom [] (text.drop 1)

/-- Read a text that is a string literal and nothing more, with a fault for what follows. -/
def wholeLiteral (extra : Fault) (text : List Char) : Except Fault String := do
  let (value, rest) ← stringLiteral text
  if trim rest = [] then return value else throw extra

/-! ## Calls and values -/

/-- The text up to the first blank, and the rest. -/
def firstWord (s : List Char) : List Char × List Char :=
  (s.takeWhile (!isBlank ·), s.dropWhile (!isBlank ·))

/-- Read the title that ends a call. -/
def title (keyword : String) (text : List Char) : Except Fault String :=
  match text with
  | '"' :: _ => wholeLiteral .afterTitle text
  | _ => throw (.noTitle keyword)

/-- Read a call behind its keyword: a colon and an agent's name unless the default agent is meant,
    then the title. `resume` needs an agent. -/
def call (keyword : String) (needsAgent : Bool) (text : List Char) :
    Except Fault SessionCall :=
  match trimStart text with
  | ':' :: rest => do
    let (agent, rest) := firstWord (trimStart rest)
    if isName agent then
      return ⟨some (String.ofList agent), ← title keyword (trimStart rest)⟩
    else throw (.agentName keyword)
  | rest => do
    if needsAgent then throw .resumeAgent
    else return ⟨none, ← title keyword rest⟩

/-- Read the rest of a `session` call. -/
def sessionCall (text : List Char) : Except Fault SessionCall :=
  call "session" false text

/-- Read the rest of a `resume` call. -/
def resumeCall (text : List Char) : Except Fault SessionCall :=
  call "resume" true text

/-- The word that opens a session. -/
def sessionWord : List Char := "session".toList

/-- The word that takes a session up again. -/
def resumeWord : List Char := "resume".toList

/-- Read an expression. -/
def expr (text : List Char) : Except Fault Expr :=
  if startsWith text ['"'] then (wholeLiteral .afterString text).map .str
  else if startsWith text (sessionWord ++ [' ']) || startsWith text (sessionWord ++ [':']) then
    (sessionCall (text.drop sessionWord.length)).map .session
  else if startsWith text (resumeWord ++ [':']) then
    (resumeCall (text.drop resumeWord.length)).map .resume
  else if isName text then return .var (String.ofList text)
  else throw (.expression (String.ofList text))

/-! ## Statements -/

/-- Read a name, an equals sign and an expression. -/
def assignment (text : List Char) : Except Fault (String × Expr) :=
  match splitFirst ['='] text with
  | none => throw .assignment
  | some (name, value) => do
    let name := trim name
    if isName name then return (String.ofList name, ← expr (trim value))
    else throw (.bindingName (String.ofList name))

/-- Read a statement without a body. -/
def simple (text : List Char) : Except Fault Stmt :=
  match stripPrefix "let ".toList text with
  | some rest => (assignment rest).map fun a => .assign a.1 a.2
  | none =>
    match stripPrefix "output ".toList text with
    | some rest => (assignment rest).map fun a => .output a.1 a.2
    | none =>
      match stripPrefix sessionWord text with
      | some rest => (sessionCall rest).map .session
      | none =>
        match stripPrefix resumeWord text with
        | some rest => (resumeCall rest).map .resume
        | none => throw (.unknownStatement (String.ofList text))

/-! ## Headers -/

/-- The number that digits denote, if it is below 2^32; a plus sign may stand before them. -/
def count? (text : List Char) : Option UInt32 :=
  let digits :=
    match text with
    | '+' :: digits => digits
    | digits => digits
  let n := digits.foldl (fun n c => n * 10 + (c.toNat - '0'.toNat)) 0
  if digits ≠ [] && digits.all (·.isDigit) && n < UInt32.size then some (UInt32.ofNat n) else none

/-- The number in what follows `repeat` on a header line. -/
def repeatCount? (text : List Char) : Option UInt32 :=
  (stripSuffix [':'] text).bind fun n => count? (trim n)

/-- The policy on the header line of a parallel block. -/
def policy? (text : List Char) : Option FailurePolicy := do
  let head := dropEndWhile (· == ':') text
  if head = "parallel".toList then return .failFast
  let inner ← stripSuffix [')'] (← stripPrefix "parallel(".toList head)
  let policy ← stripPrefix "on-fail:".toList (trim inner)
  FailurePolicy.ofName? (String.ofList (trim policy))

/-- The name between a keyword and the colon at the end of a header line. -/
def headerName? (keyword text : List Char) : Option String := do
  let name := trim (← stripSuffix [':'] (← stripPrefix keyword text))
  if isName name then return String.ofList name else none

/-- The name that a catch clause binds, if any. -/
def catchName? (text : List Char) : Option (Option String) :=
  if text = "catch:".toList then some none
  else (headerName? "catch as ".toList text).map some

/-- The name on the header line of an agent. -/
def agentName? (text : List Char) : Option String :=
  headerName? "agent ".toList text

/-- The name and the right side of a branch that binds a name. -/
def namedBranch? (text : List Char) : Option (String × List Char) := do
  let (name, rest) ← splitFirst ['='] text
  let name := trim name
  if isName name && name ≠ "let".toList && name ≠ "output".toList then
    return (String.ofList name, trim rest)
  else none

/-- Read a branch that binds a name: a call keeps the name for its result, any other expression is
    bound by a statement. -/
def namedBranch (name : String) (text : List Char) : Except Fault Branch :=
  if startsWith text sessionWord || startsWith text (resumeWord ++ [':']) then
    (simple text).map (.mk (some name))
  else (expr text).map fun value => .mk none (.assign name value)

/-! ## Properties -/

/-- Read a property's value, quoted or bare. -/
def scalar (text : List Char) : Except Fault String :=
  match text with
  | '"' :: _ => wholeLiteral .afterString text
  | [] => throw .emptyValue
  | text => return String.ofList text

/-- Read the value of a prompt: the block that the line opens, a text between three quotes on the
    line, or any other value. -/
def prompt (block : Option (List (List Char))) (text : List Char) : Except Fault String :=
  match block with
  | some block =>
    if text = tripleQuote then return String.ofList (dedent block) else throw .afterOpening
  | none =>
    match (stripPrefix tripleQuote text).bind (stripSuffix tripleQuote) with
    | some inner => return String.ofList inner
    | none => scalar text

end Phrase

end Playbook.Program
