import Playbook.Program.Fault
import Playbook.Text.Search

/-!
# `Playbook.Program.Line` — the lines of a program

The source text is first cut into the lines that matter. Blank lines are dropped, comment lines are
kept as such, the comment at the end of a code line is cut off, and the raw lines of a `"""` block are
collected with the line that opens it.

## Contents
- **Comments.** `stripComment` cuts at the first `#` outside string literals.
- **Blocks.** `opensBlock`, and `dedent` for the text of a block.
- **Lines.** `Line`, `Line.ofSource`.
-/

namespace Playbook.Program

open Text

/-- Three double quotes. -/
def tripleQuote : List Char := ['"', '"', '"']

/-! ## Comments -/

/-- Where the comment stripper stands: outside string literals, inside one, or behind a backslash in
    one. -/
inductive Quoting where
  | outside
  | inside
  | escaped
  deriving DecidableEq

/-- The text up to the first `#` outside string literals, read from a given place. -/
def stripFrom : Quoting → List Char → List Char
  | _, [] => []
  | .outside, c :: rest =>
    if c = '#' then []
    else if c = '"' then c :: stripFrom .inside rest
    else c :: stripFrom .outside rest
  | .inside, c :: rest =>
    if c = '\\' then c :: stripFrom .escaped rest
    else if c = '"' then c :: stripFrom .outside rest
    else c :: stripFrom .inside rest
  | .escaped, c :: rest => c :: stripFrom .inside rest

/-- The text of a line without the comment at its end. -/
def stripComment (text : List Char) : List Char :=
  stripFrom .outside text

/-! ## Blocks -/

/-- Whether a code line opens a `"""` block: it ends in three quotes, and the number of such threes
    in it is odd. -/
def opensBlock (text : List Char) : Bool :=
  endsWith text tripleQuote && occurrences tripleQuote text % 2 == 1

/-- How many spaces a text starts with. -/
def leadingSpaces (s : List Char) : Nat :=
  (s.takeWhile (· == ' ')).length

/-- The least number in a list, zero if there is none. -/
def least : List Nat → Nat
  | [] => 0
  | n :: rest => rest.foldl min n

/-- The text of a block: the spaces that start all of its lines that are not blank are cut off, and
    so are line feeds at either end. -/
def dedent (block : List (List Char)) : List Char :=
  let margin := least ((block.filter fun l => trim l ≠ []).map leadingSpaces)
  trimOf '\n' (joinWith ['\n'] (block.map fun l => l.drop (min (leadingSpaces l) margin)))

/-! ## Lines -/

/-- A line that matters. -/
structure Line where
  /-- Its number in the source, counted from one. -/
  number : Nat
  /-- The spaces before its text. -/
  indent : Nat
  /-- Its text, without blanks at the end; without the comment too if it is a code line. -/
  text : List Char
  /-- Whether it is a comment line. -/
  isComment : Bool
  /-- The raw lines of the block that it opens, each without blanks at the end. -/
  block : Option (List (List Char))
  deriving DecidableEq, Repr

namespace Line

/-- What a raw line is, blocks aside. -/
inductive Shape where
  | blank
  | tab
  | comment (indent : Nat) (text : List Char)
  | code (indent : Nat) (text : List Char)
  deriving DecidableEq

/-- What a raw line is, blocks aside. -/
def shape (raw : List Char) : Shape :=
  let stripped := trimEnd raw
  if trim stripped = [] then .blank
  else
    let indent := leadingSpaces stripped
    match stripped.drop indent with
    | '\t' :: _ => .tab
    | '#' :: rest => .comment indent ('#' :: rest)
    | body => .code indent (trimEnd (stripComment body))

/-- Read raw lines, the first of which has the given number. Inside a block, `opened` is the line
    that opens it, with the block's lines so far, last first. -/
def ofRaw (opened : Option (Line × List (List Char))) (number : Nat) :
    List (List Char) → Except Error (List Line)
  | [] =>
    match opened with
    | none => .ok []
    | some (line, _) => .error ⟨line.number, .openBlock⟩
  | raw :: rest =>
    match opened with
    | some (line, block) =>
      if trim raw = tripleQuote then do
        return { line with block := some block.reverse } :: (← ofRaw none (number + 1) rest)
      else ofRaw (some (line, trimEnd raw :: block)) (number + 1) rest
    | none =>
      match shape raw with
      | .blank => ofRaw none (number + 1) rest
      | .tab => .error ⟨number, .tabIndent⟩
      | .comment indent text => do
        return ⟨number, indent, text, true, none⟩ :: (← ofRaw none (number + 1) rest)
      | .code indent text =>
        let line : Line := ⟨number, indent, text, false, none⟩
        if opensBlock text then ofRaw (some (line, [])) (number + 1) rest
        else do return line :: (← ofRaw none (number + 1) rest)

/-- The lines of a source text that matter. -/
def ofSource (source : String) : Except Error (List Line) :=
  ofRaw none 1 (lines source.toList)

end Line

end Playbook.Program
