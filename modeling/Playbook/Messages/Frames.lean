/-!
# `Playbook.Messages.Frames` — cutting a byte stream into frames

A frame ends with two line feeds. Bytes arrive in chunks that may end anywhere, even inside a character, so the
bytes after the last whole frame are kept until more arrive.

## Contents
- **One frame.** `splitFrame`.
- **Whole frames.** `frames` of some bytes, `feed` one more chunk.
-/

namespace Playbook.Messages

/-- The first frame and the bytes after it. -/
def splitFrame : List UInt8 → Option (List UInt8 × List UInt8)
  | 10 :: 10 :: after => some ([], after)
  | b :: rest => (splitFrame rest).map fun found => (b :: found.1, found.2)
  | [] => none

theorem splitFrame_length {bytes frame after : List UInt8}
    (h : splitFrame bytes = some (frame, after)) :
    frame.length + 2 + after.length = bytes.length := by
  fun_induction splitFrame bytes generalizing frame after with
  | case1 after =>
    cases h
    simp
    omega
  | case2 b rest _ ih =>
    obtain ⟨found, hfound, heq⟩ := Option.map_eq_some_iff.1 h
    cases heq
    have := ih hfound
    simp
    omega
  | case3 => cases h

/-- The whole frames at the start of some bytes, and the bytes after them. -/
def frames (bytes : List UInt8) : List (List UInt8) × List UInt8 :=
  match _h : splitFrame bytes with
  | none => ([], bytes)
  | some (frame, after) =>
    let rest := frames after
    (frame :: rest.1, rest.2)
termination_by bytes.length
decreasing_by
  have := splitFrame_length _h
  omega

/-- Add a chunk to the bytes that were left over; gives the frames that are whole by now, and what is
    left over. -/
def feed (pending chunk : List UInt8) : List (List UInt8) × List UInt8 :=
  frames (pending ++ chunk)

/-- The frames of chunks that arrive one after another. -/
def feedAll (pending : List UInt8) : List (List UInt8) → List (List UInt8) × List UInt8
  | [] => ([], pending)
  | chunk :: chunks =>
    let now := feed pending chunk
    let later := feedAll now.2 chunks
    (now.1 ++ later.1, later.2)

end Playbook.Messages
