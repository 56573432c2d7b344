/-!
# `Playbook.Text.Blank` — blank characters and trimming

Text is handled as a list of characters. A character is *blank* when Unicode gives it the property
`White_Space`; program lines, prompts and results are trimmed of exactly these.

## Contents
- **The class.** `blankRanges` (the property's table) and `isBlank`.
- **Trimming.** `trimStart`, `trimEnd`, `trim`, and `trimEndOf` for one given character.
- **Words.** `words` cuts a text at every run of blanks.
-/

namespace Playbook.Text

/-- The code points with the property `White_Space`, as inclusive ranges in increasing order. -/
def blankRanges : List (Nat × Nat) :=
  [(0x9, 0xD), (0x20, 0x20), (0x85, 0x85), (0xA0, 0xA0), (0x1680, 0x1680), (0x2000, 0x200A),
   (0x2028, 0x2029), (0x202F, 0x202F), (0x205F, 0x205F), (0x3000, 0x3000)]

/-- Whether a character is blank. -/
def isBlank (c : Char) : Bool :=
  blankRanges.any fun range => range.1 ≤ c.toNat && c.toNat ≤ range.2

example : blankRanges.length = 10 ∧ (blankRanges.map fun r => r.2 - r.1 + 1).sum = 25 := by decide

/-! ## Trimming -/

/-- The text without its leading blanks. -/
def trimStart (s : List Char) : List Char :=
  s.dropWhile isBlank

/-- The text without the longest end on which `p` holds throughout. -/
def dropEndWhile (p : Char → Bool) (s : List Char) : List Char :=
  (s.reverse.dropWhile p).reverse

/-- The text without its trailing blanks. -/
def trimEnd (s : List Char) : List Char :=
  dropEndWhile isBlank s

/-- The text without blanks at either end. -/
def trim (s : List Char) : List Char :=
  trimEnd (trimStart s)

/-- The text without the copies of `c` at either end. -/
def trimOf (c : Char) (s : List Char) : List Char :=
  dropEndWhile (· == c) (s.dropWhile (· == c))

/-- The string without blanks at either end. -/
def trimmed (s : String) : String :=
  String.ofList (trim s.toList)

/-! ## Words -/

/-- Cut at blanks; `word` holds the current word, last character first. -/
def wordsFrom (word : List Char) : List Char → List (List Char)
  | [] => if word.isEmpty then [] else [word.reverse]
  | c :: rest =>
    if isBlank c then
      if word.isEmpty then wordsFrom [] rest else word.reverse :: wordsFrom [] rest
    else wordsFrom (c :: word) rest

/-- The words of a text: its longest runs without blanks, in order. -/
def words (s : List Char) : List (List Char) :=
  wordsFrom [] s

example : words " ab\tc\u3000d ".toList = ["ab".toList, "c".toList, "d".toList] := by decide

end Playbook.Text
