import Playbook.Toml.Scalar
import Playbook.Toml.Table
import Playbook.Toml.Text

/-!
# `Playbook.Toml.Document` — reading TOML documents

A document is a list of lines, each of which puts a value under a key or is the header of the table that the lines after
it fill. It is read as one JSON object.

## Contents
- **Values.** `value`, with its arrays and the tables that are written as values.
- **Lines.** `State`, `entry`, `header`.
- **Documents.** `parse`.
-/

namespace Playbook.Toml

open Reader

/-! ## Values -/

/-- How many arrays, and tables written as values, can stand inside each other. -/
def depthLimit : Nat := 79

/-- Whether a character may stand in a word. -/
def isWordChar (c : Char) : Bool :=
  c.isAlphanum || ['+', '-', '.', '_', ':'].contains c

/-- Read a number, a truth value or a date. After a date a blank and a digit begin the time of day. -/
def scalar : Reader Json := do
  let word ← takeWhile isWordChar
  match isDate word, ← get with
  -- The blank belongs to the value only if a time of day comes after it.
  | true, ' ' :: c :: _ =>
    if c.isDigit then
      let _ ← next
      StateT.lift (scalar? (word ++ ' ' :: (← takeWhile isWordChar)))
    else StateT.lift (scalar? word)
  | _, _ => StateT.lift (scalar? word)

/-- Read one item of an array, or its end, with `item`. -/
def arrayStep (item : Reader Json) (items : List Json) : Reader (List Json ⊕ Json) := do
  gap
  if ← skip? [']'] then return .inr (.arr items)
  else
    let items := items ++ [← item]
    gap
    if ← skip? [','] then return .inl items
    else
      expect [']']
      return .inr (.arr items)

/-- Read one entry of a table that is written as a value, with `item`; a comma has come before it. -/
def inlineStep (item : Reader Json) (t : Table) : Reader (Table ⊕ Json) := do
  let (path, last) ← key
  expect ['=']
  blanks
  let t ← StateT.lift (t.put path last (← item))
  blanks
  if ← skip? [','] then return .inl t
  else
    expect ['\x7d']
    return .inr t.toJson

/-- Read a value with up to a number of arrays and tables inside each other. -/
def valueWithin : Nat → Reader Json
  | 0 => do
    match ← peek with
    | some '"' => return .str (← string '"')
    | some '\'' => return .str (← string '\'')
    | _ => scalar
  | depth + 1 => do
    if ← skip? ['['] then loop (arrayStep (valueWithin depth)) []
    else if ← skip? ['\x7b'] then
      blanks
      if ← skip? ['\x7d'] then return .obj [] else loop (inlineStep (valueWithin depth)) []
    else valueWithin 0

/-- Read a value. -/
def value : Reader Json :=
  valueWithin depthLimit

/-! ## Lines -/

/-- What has been read: the document, and the keys of the table that is being filled. -/
structure State where
  document : Table
  header : List String

/-- Read a line with a key and a value. -/
def entry (s : State) : Reader State := do
  let (path, last) ← key
  expect ['=']
  blanks
  let v ← value
  lineEnd
  return { s with document := ← StateT.lift (s.document.putBelow s.header path last v) }

/-- Read a line with a header. -/
def header (s : State) : Reader State := do
  let shared ← skip? ['[', '[']
  if !shared then expect ['[']
  let (path, last) ← key
  expect (if shared then [']', ']'] else [']'])
  lineEnd
  let document ← StateT.lift
    (if shared then s.document.append path last else s.document.define path last)
  return ⟨document, path ++ [last]⟩

/-- Read a line, or the end of the text. -/
def line (s : State) : Reader (State ⊕ Json) := do
  blanks
  match ← peek with
  | none => return .inr s.document.toJson
  | some '#' =>
    lineEnd
    return .inl s
  | some '[' => return .inl (← header s)
  | some _ => if ← newline? then return .inl s else return .inl (← entry s)

/-! ## Documents -/

/-- Read a document. A byte order mark may stand before it. -/
def document : Reader Json := do
  let _ ← skip? [Char.ofNat 0xFEFF]
  loop line ⟨[], []⟩

/-- The object that a document denotes. -/
def parse (text : String) : Option Json :=
  (document.run text.toList).map (·.1)

end Playbook.Toml
