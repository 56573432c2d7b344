import Playbook.Failure.Cause

/-!
# `Playbook.Program.Fault` — why a program cannot be read

## Contents
- **Faults.** `Fault` lists what can be wrong with a line, `Fault.message` words it.
- **Errors.** `Program.Error` is a fault with the number of its line; `Program.Error.failure` is the
  failure it raises.
-/

namespace Playbook.Program

/-- What is wrong with a line. -/
inductive Fault where
  | tabIndent
  | openBlock
  | badIndent (expected found : Nat)
  | nestedAgent
  | emptyBody (header : String)
  | strayClause (text : String)
  | repeatCount
  | unknownBlock (text : String)
  | catchClause
  | noClause
  | noBranch
  | agentHeader
  | agentTwice (name : String)
  | property
  | unknownProperty (name : String)
  | policy
  | unknownStatement (text : String)
  | assignment
  | bindingName (name : String)
  | expression (text : String)
  | agentName (keyword : String)
  | resumeAgent
  | noTitle (keyword : String)
  | afterTitle
  | afterString
  | openString
  | emptyValue
  | afterOpening
  deriving DecidableEq, Repr

namespace Fault

/-- What a reader is told about a fault, the line number and a bad indentation's numbers aside. -/
def message : Fault → String
  | tabIndent => "tabs are not allowed in indentation"
  | openBlock => "unterminated \"\"\" block"
  | badIndent _ _ => "bad indent"
  | nestedAgent => "agent definitions are only allowed at the top level"
  | emptyBody header => "expected an indented block after '" ++ header ++ "'"
  | strayClause text => "'" ++ text ++ "' without a preceding try"
  | repeatCount => "repeat count must be a literal integer"
  | unknownBlock text => "unknown block '" ++ text ++ "'"
  | catchClause => "expected 'catch:' or 'catch as <name>:'"
  | noClause => "try needs a catch or finally clause"
  | noBranch => "parallel needs at least one branch"
  | agentHeader => "expected 'agent <name>:'"
  | agentTwice name => "agent '" ++ name ++ "' is defined twice"
  | property => "expected '<property>: <value>'"
  | unknownProperty name => "unknown agent property '" ++ name ++ "'"
  | policy => "expected 'parallel(on-fail: fail-fast|continue|ignore):'"
  | unknownStatement text => "unrecognized statement '" ++ text ++ "'"
  | assignment => "expected '<name> = <expr>'"
  | bindingName name => "invalid binding name '" ++ name ++ "'"
  | expression text => "invalid expression '" ++ text ++ "'"
  | agentName keyword => "expected an agent name after '" ++ keyword ++ ":'"
  | resumeAgent => "expected 'resume: <agent> \"<title>\"'"
  | noTitle keyword => "expected a quoted title after '" ++ keyword ++ "'"
  | afterTitle => "unexpected text after title"
  | afterString => "unexpected text after string"
  | openString => "unterminated string literal"
  | emptyValue => "property value is empty"
  | afterOpening => "text is not allowed after an opening \"\"\""

end Fault

/-- A fault and the number of the line that has it. -/
structure Error where
  /-- The number of the line, counted from one. -/
  line : Nat
  /-- What is wrong with it. -/
  fault : Fault
  deriving DecidableEq, Repr

/-- The failure that an error raises. -/
def Error.failure (e : Error) : Failure :=
  match e.fault with
  | .badIndent expected found => (Failure.Cause.badIndent e.line expected found).failure
  | fault => (Failure.Cause.unreadableLine e.line fault.message).failure

end Playbook.Program
