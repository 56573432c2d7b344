/-!
# `Playbook.Toml.Reader` — readers of TOML text

A reader takes something from the start of a text and leaves the rest, or refuses the text. Blanks inside a line
are spaces and tabs; a line ends in a line feed, which a carriage return may precede.

## Contents
- **The type.** `Reader`.
- **Characters.** `peek`, `next`, `takeWhile`, `skip?`, `expect`.
- **Repetition.** `Reader.loop`.
- **Lines.** `isPlain`, `blanks`, `newline?`, `comment`, `lineEnd`, `gap`.
-/

namespace Playbook.Toml

/-- What takes an `α` from the start of a text, or refuses the text. -/
abbrev Reader (α : Type) := StateT (List Char) Option α

namespace Reader

/-! ## Characters -/

/-- The next character, left where it is. -/
def peek : Reader (Option Char) := do
  return (← get).head?

/-- Take the next character. -/
def next : Reader Char := do
  match ← get with
  | [] => failure
  | c :: rest =>
    set rest
    return c

/-- Take the longest start whose characters all satisfy `p`. -/
def takeWhile (p : Char → Bool) : Reader (List Char) := do
  let text ← get
  set (text.dropWhile p)
  return text.takeWhile p

/-- Take a text if it comes next; says whether it did. -/
def skip? (text : List Char) : Reader Bool := do
  let rest ← get
  if text.isPrefixOf rest then
    set (rest.drop text.length)
    return true
  else return false

/-- Take a text that must come next. -/
def expect (text : List Char) : Reader Unit := do
  if ← skip? text then return () else failure

/-! ## Repetition -/

/-- Repeat a step until it gives a result, at most a number of times. -/
def iterate {σ α : Type} (step : σ → Reader (σ ⊕ α)) : Nat → σ → Reader α
  | 0, _ => failure
  | n + 1, s => do
    match ← step s with
    | .inl s => iterate step n s
    | .inr a => return a

/-- Repeat a step until it gives a result. Every other step has to take a character, so that one step
    more than there are characters is enough. -/
def loop {σ α : Type} (step : σ → Reader (σ ⊕ α)) (s : σ) : Reader α := do
  iterate step ((← get).length + 1) s

/-! ## Lines -/

/-- Whether a character may stand in a comment or a string as it is: a tab, or none of the control
    characters. -/
def isPlain (c : Char) : Bool :=
  c == '\t' || (0x20 ≤ c.toNat && c.toNat != 0x7F)

/-- Take the blanks that come next. -/
def blanks : Reader Unit := do
  let _ ← takeWhile fun c => c == ' ' || c == '\t'

/-- Take a line's end if it comes next; says whether it did. -/
def newline? : Reader Bool := do
  if ← skip? ['\n'] then return true else skip? ['\r', '\n']

/-- Take a comment if one comes next. -/
def comment : Reader Unit := do
  if (← peek) = some '#' then
    let _ ← takeWhile isPlain

/-- Take what may follow a complete line: blanks, a comment, and the line's end or the text's. -/
def lineEnd : Reader Unit := do
  blanks
  comment
  if ← newline? then return ()
  else if (← get).isEmpty then return ()
  else failure

/-- Take blanks, comments and line ends. -/
def gap : Reader Unit :=
  loop (fun _ => do
    blanks
    if (← peek) = some '#' then
      lineEnd
      return .inl ()
    else if ← newline? then return .inl ()
    else return .inr ()) ()

end Reader

end Playbook.Toml
