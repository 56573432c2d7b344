import Playbook.Text.Blank

/-!
# `Playbook.Text.Search` — finding, cutting and joining text

## Contents
- **Affixes.** `stripPrefix` and `stripSuffix`.
- **First occurrence.** `splitFirst` cuts a text around the first occurrence of a needle, and
  `occurrences` counts the disjoint ones from the left.
- **Lines.** `lines` cuts at line feeds, each with an optional carriage return before it.
- **Pieces.** `splitOn` cuts at every copy of one character; `joinWith` puts pieces together.
-/

namespace Playbook.Text

/-! ## Affixes -/

/-- What follows `pre` in a text that starts with it. -/
def stripPrefix : (pre s : List Char) → Option (List Char)
  | [], s => some s
  | _ :: _, [] => none
  | p :: pre, c :: s => if p = c then stripPrefix pre s else none

/-- What precedes `suf` in a text that ends with it. -/
def stripSuffix (suf s : List Char) : Option (List Char) :=
  (stripPrefix suf.reverse s.reverse).map List.reverse

/-- Whether a text starts with `pre`. -/
def startsWith (s pre : List Char) : Bool :=
  (stripPrefix pre s).isSome

/-- Whether a text ends with `suf`. -/
def endsWith (s suf : List Char) : Bool :=
  (stripSuffix suf s).isSome

theorem stripPrefix_eq_some_iff {pre s rest : List Char} :
    stripPrefix pre s = some rest ↔ s = pre ++ rest := by
  induction pre generalizing s with
  | nil => simp [stripPrefix]
  | cons p pre ih =>
    cases s with
    | nil => simp [stripPrefix]
    | cons c s =>
      by_cases h : p = c
      · simp [stripPrefix, h, ih]
      · simp [stripPrefix, h, Ne.symm h]

/-! ## First occurrence -/

/-- Look for the needle; `before` holds what was passed, last character first. -/
def splitFirstFrom (needle before : List Char) : List Char → Option (List Char × List Char)
  | [] => if needle.isEmpty then some (before.reverse, []) else none
  | c :: rest =>
    match stripPrefix needle (c :: rest) with
    | some after => some (before.reverse, after)
    | none => splitFirstFrom needle (c :: before) rest

/-- The parts of a text before and after the first occurrence of the needle. -/
def splitFirst (needle s : List Char) : Option (List Char × List Char) :=
  splitFirstFrom needle [] s

/-- Whether the needle occurs in the text. -/
def contains (s needle : List Char) : Bool :=
  (splitFirst needle s).isSome

theorem splitFirstFrom_length {needle before s a b : List Char}
    (h : splitFirstFrom needle before s = some (a, b)) :
    a.length + needle.length + b.length = before.length + s.length := by
  induction s generalizing before with
  | nil =>
    simp only [splitFirstFrom] at h
    split at h
    · rename_i hn
      cases h
      simp [List.isEmpty_iff.1 hn]
    · cases h
  | cons c rest ih =>
    simp only [splitFirstFrom] at h
    split at h
    · rename_i after hp
      cases h
      have := congrArg List.length (stripPrefix_eq_some_iff.1 hp)
      simp at this
      simp
      omega
    · have := ih h
      simp at this ⊢
      omega

theorem splitFirst_length {needle s a b : List Char} (h : splitFirst needle s = some (a, b)) :
    a.length + needle.length + b.length = s.length := by
  simpa using splitFirstFrom_length h

/-- How many disjoint copies of the needle a text holds, counted from the left; an empty needle
    is not counted. -/
def occurrences (needle s : List Char) : Nat :=
  if _hn : needle = [] then 0
  else
    match h : splitFirst needle s with
    | none => 0
    | some (_, after) => occurrences needle after + 1
termination_by s.length
decreasing_by
  have := splitFirst_length h
  have : 0 < needle.length := List.length_pos_iff.2 _hn
  omega

/-! ## Lines -/

/-- Cut into lines; `line` holds the current one, last character first. A carriage return belongs
    to the line end only when a line feed follows it. -/
def linesFrom (line : List Char) : List Char → List (List Char)
  | [] => if line.isEmpty then [] else [line.reverse]
  | c :: rest =>
    if c = '\n' then
      (match line with
        | '\r' :: line => line.reverse
        | line => line.reverse) :: linesFrom [] rest
    else linesFrom (c :: line) rest

/-- The lines of a text, without their ends. The last line needs no end, and an empty text has no
    line. -/
def lines (s : List Char) : List (List Char) :=
  linesFrom [] s

example : lines "a\r\nb\n\nc\r".toList = ["a".toList, "b".toList, [], "c\r".toList] := by decide

/-! ## Pieces -/

/-- Cut at a character; `piece` holds the current piece, last character first. -/
def splitOnFrom (sep : Char) (piece : List Char) : List Char → List (List Char)
  | [] => [piece.reverse]
  | c :: rest =>
    if c = sep then piece.reverse :: splitOnFrom sep [] rest
    else splitOnFrom sep (c :: piece) rest

/-- The pieces of a text between the copies of `sep`; there is one more of them than copies. -/
def splitOn (sep : Char) (s : List Char) : List (List Char) :=
  splitOnFrom sep [] s

/-- Put pieces together with a separator between neighbours. -/
def joinWith (sep : List Char) : List (List Char) → List Char
  | [] => []
  | [piece] => piece
  | piece :: rest => piece ++ sep ++ joinWith sep rest

end Playbook.Text
