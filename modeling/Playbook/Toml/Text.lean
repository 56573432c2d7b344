import Playbook.Json.Token
import Playbook.Toml.Reader

/-!
# `Playbook.Toml.Text` — strings and keys of TOML

Strings have four forms. Those between double quotes have escapes, those between single quotes have none; and
either may be written between tripled quotes, where it can hold line ends and quotes. A line end is read as a line
feed, and the one after the opening quotes is dropped.

## Contents
- **Escapes.** `hexEscape`, `escape`.
- **On one line.** `lineString`.
- **On several lines.** `blockString`.
- **Any form.** `string`.
- **Keys.** `simpleKey`, `key`.
-/

namespace Playbook.Toml

open Reader

/-! ## Escapes -/

/-- The character with a code point, if it has one. -/
def charOfCode? (n : Nat) : Option Char :=
  if h : n.isValidChar then some (Char.ofNatAux n h) else none

/-- Read a code point in a number of hexadecimal digits. -/
def hexEscape : Nat → Nat → Reader Char
  | 0, value => StateT.lift (charOfCode? value)
  | n + 1, value => do
    let digit ← StateT.lift (Text.Hex.value? (← next))
    hexEscape n (value * 16 + digit)

/-- Read what follows a backslash. -/
def escape : Reader Char := do
  match ← next with
  | 'u' => hexEscape 4 0
  | 'U' => hexEscape 8 0
  | 'b' => return '\x08'
  | 't' => return '\t'
  | 'n' => return '\n'
  | 'f' => return '\x0c'
  | 'r' => return '\r'
  | '"' => return '"'
  | '\\' => return '\\'
  | _ => failure

/-! ## On one line -/

/-- Read one character of a string that ends in a quote; the characters so far have the last one
    first. -/
def lineStep (quote : Char) (chars : List Char) : Reader (List Char ⊕ String) := do
  let c ← next
  if c = quote then return .inr (String.ofList chars.reverse)
  else if c = '\\' && quote = '"' then return .inl ((← escape) :: chars)
  else if isPlain c then return .inl (c :: chars)
  else failure

/-- Read a string on one line, quotes included. -/
def lineString (quote : Char) : Reader String := do
  expect [quote]
  loop (lineStep quote) []

/-! ## On several lines -/

/-- Take up to a number of quotes. -/
def quotesUpTo (quote : Char) : Nat → Reader (List Char)
  | 0 => return []
  | n + 1 => do
    if ← skip? [quote] then return quote :: (← quotesUpTo quote n) else return []

/-- Take the blanks and line ends after a backslash at the end of a line, if it is one. -/
def lineJoin? : Reader Bool := do
  let before ← get
  blanks
  if ← newline? then
    loop (fun _ => do
      blanks
      if ← newline? then return .inl () else return .inr ()) ()
    return true
  else
    set before
    return false

/-- Read one part of a string between tripled quotes. Of the quotes at its end, up to two belong to the
    string. -/
def blockStep (quote : Char) (chars : List Char) : Reader (List Char ⊕ String) := do
  if ← skip? [quote, quote, quote] then
    return .inr (String.ofList (chars.reverse ++ (← quotesUpTo quote 2)))
  else if ← newline? then return .inl ('\n' :: chars)
  else
    let c ← next
    if c = '\\' && quote = '"' then
      if ← lineJoin? then return .inl chars else return .inl ((← escape) :: chars)
    else if isPlain c then return .inl (c :: chars)
    else failure

/-- Read a string between tripled quotes, quotes included. -/
def blockString (quote : Char) : Reader String := do
  expect [quote, quote, quote]
  -- A line end right behind the opening quotes does not count.
  let _ ← newline?
  loop (blockStep quote) []

/-! ## Any form -/

/-- Read a string between quotes of a kind. -/
def string (quote : Char) : Reader String := do
  if [quote, quote, quote].isPrefixOf (← get) then blockString quote else lineString quote

/-! ## Keys -/

/-- Whether a character may stand in a key without quotes. -/
def isBareKeyChar (c : Char) : Bool :=
  c.isAlphanum || c == '_' || c == '-'

/-- Read a part of a key. -/
def simpleKey : Reader String := do
  match ← peek with
  | some '"' => lineString '"'
  | some '\'' => lineString '\''
  | _ =>
    match ← takeWhile isBareKeyChar with
    | [] => failure
    | chars => return String.ofList chars

/-- How many parts a key can have. -/
def keyLimit : Nat := 79

/-- Read a key: its first parts, and the last one. -/
def key : Reader (List String × String) := do
  let (path, last) ← loop (fun (path : List String) => do
    blanks
    let part ← simpleKey
    blanks
    if ← skip? ['.'] then return .inl (path ++ [part]) else return .inr (path, part)) []
  if path.length < keyLimit then return (path, last) else failure

example : (string '"').run "\"a\\u00e9\\n\"".toList = some ("aé\n", []) := by decide +kernel
example : (string '\'').run "'''\r\na'\r\nb'''' ".toList = some ("a'\nb'", [' ']) := by
  decide +kernel
example : key.run "a . \"b c\".d-1=".toList = some ((["a", "b c"], "d-1"), ['=']) := by
  decide +kernel

end Playbook.Toml
