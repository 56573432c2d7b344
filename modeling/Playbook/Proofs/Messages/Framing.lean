import Mathlib.Data.List.Chain
import Playbook.Messages.Service
import Playbook.Proofs.Text.Utf8

/-!
# `Proofs.Messages.Framing` — frames do not depend on chunks

A byte stream is *cut* into frames where two line feeds follow each other, leftmost first. There is one way to do that, and it is found
however the stream arrives: between two chunks there is nothing to remember but the bytes behind the last whole frame, and these hold no
end of a frame. Frames are decoded whole, so that a character whose bytes arrive in two chunks survives.

## Contents
- **Cutting.** `Apart`, `Cut`; `Cut.append`, by which cutting goes on with what is left.
- **Reading.** `splitFrame_eq_some`, `splitFrame_eq_none`; `frames_cut`, and `Cut.frames_eq`: there is one way to cut.
- **Texts.** `Cut.encode`: the bytes of a text are cut where the text is.
- **Chunks.** `feedAll_cut`, and `chunks_immaterial`.
-/

namespace Playbook.Messages

/-! ## Cutting -/

section

variable {α : Type} {feed : α} {s t rest : List α} {pieces : List (List α)}

/-- No two neighbours are both line feeds. -/
def Apart (feed : α) (s : List α) : Prop :=
  s.IsChain fun a b => ¬(a = feed ∧ b = feed)

/-- A list is cut at pairs of line feeds, leftmost first, into pieces and a rest. -/
structure Cut (feed : α) (s : List α) (pieces : List (List α)) (rest : List α) : Prop where
  /-- The pieces, each with its pair of line feeds, and the rest make up the list. -/
  whole : pieces.flatMap (· ++ [feed, feed]) ++ rest = s
  /-- No pair of line feeds begins in a piece. -/
  leftmost : ∀ piece ∈ pieces, Apart feed (piece ++ [feed])
  /-- The rest holds none. -/
  last : Apart feed rest

theorem Cut.nil (h : Apart feed s) : Cut feed s [] s :=
  ⟨rfl, nofun, h⟩

theorem Cut.cons {piece : List α} (hpiece : Apart feed (piece ++ [feed])) (h : Cut feed s pieces rest) :
    Cut feed (piece ++ feed :: feed :: s) (piece :: pieces) rest where
  whole := by
    rw [List.flatMap_cons, List.append_assoc, h.whole, List.append_assoc]
    rfl
  leftmost := List.forall_mem_cons.2 ⟨hpiece, h.leftmost⟩
  last := h.last

/-- Cutting goes on with what is left. -/
theorem Cut.append {later : List (List α)} {rest' : List α} (h : Cut feed s pieces rest)
    (hlater : Cut feed (rest ++ t) later rest') : Cut feed (s ++ t) (pieces ++ later) rest' where
  whole := by
    rw [List.flatMap_append, List.append_assoc, hlater.whole, ← List.append_assoc, h.whole]
  leftmost := List.forall_mem_append.2 ⟨h.leftmost, hlater.leftmost⟩
  last := hlater.last

end

/-! ## Reading -/

variable {bytes frame after rest : List UInt8} {pieces : List (List UInt8)}

/-- A byte that does not begin a pair of line feeds is passed. -/
theorem splitFrame_cons {b : UInt8} (h : ∀ after, b = 10 → bytes ≠ 10 :: after) :
    splitFrame (b :: bytes) = (splitFrame bytes).map fun found => (b :: found.1, found.2) := by
  rw [splitFrame]
  exact h

/-- The byte before bytes that go on without a pair begins none. -/
theorem Apart.not_pair {b : UInt8} (h : Apart 10 (b :: bytes)) (after : List UInt8) (hb : b = 10) :
    bytes ≠ 10 :: after := by
  rintro rfl
  exact (List.isChain_cons_cons.1 h).1 ⟨hb, rfl⟩

/-- A frame ends at the first pair of line feeds. -/
theorem splitFrame_eq_some_iff :
    splitFrame bytes = some (frame, after) ↔ bytes = frame ++ 10 :: 10 :: after ∧ Apart 10 (frame ++ [10]) := by
  constructor
  · intro h
    fun_induction splitFrame bytes generalizing frame after with
    | case1 after =>
      cases h
      exact ⟨rfl, .singleton _⟩
    | case2 b rest hpair ih =>
      obtain ⟨⟨frame, after⟩, hfound, heq⟩ := Option.map_eq_some_iff.1 h
      cases heq
      obtain ⟨rfl, hframe⟩ := ih hfound
      refine ⟨rfl, ?_⟩
      -- A pair that began at the first byte would have been the end of an empty frame.
      cases frame with
      | nil => exact .cons_cons (fun heq => hpair _ heq.1 rfl) (.singleton _)
      | cons c frame => exact .cons_cons (fun heq => hpair _ heq.1 (by rw [heq.2]; rfl)) hframe
    | case3 => cases h
  · rintro ⟨rfl, hframe⟩
    induction frame with
    | nil => rfl
    | cons b frame ih =>
      have hpass : ∀ later, b = 10 → frame ++ 10 :: 10 :: after ≠ 10 :: later := by
        intro later hb heq
        cases frame with
        | nil => exact hframe.not_pair [] hb rfl
        | cons c frame =>
          cases heq
          exact hframe.not_pair _ hb rfl
      rw [List.cons_append, splitFrame_cons hpass, ih hframe.tail]
      rfl

/-- There is no frame if and only if there is no pair of line feeds. -/
theorem splitFrame_eq_none_iff : splitFrame bytes = none ↔ Apart 10 bytes := by
  constructor
  · intro h
    fun_induction splitFrame bytes with
    | case1 after => cases h
    | case2 b rest hpair ih =>
      have hrest := ih (Option.map_eq_none_iff.1 h)
      cases rest with
      | nil => exact .singleton _
      | cons c rest => exact .cons_cons (fun heq => hpair _ heq.1 (by rw [heq.2])) hrest
    | case3 => exact .nil
  · intro h
    induction bytes with
    | nil => rfl
    | cons b bytes ih =>
      rw [splitFrame_cons h.not_pair, ih h.tail]
      rfl

theorem frames_of_none (h : splitFrame bytes = none) : frames bytes = ([], bytes) := by
  rw [frames]
  split
  · rfl
  · rename_i hsome
    rw [h] at hsome
    cases hsome

theorem frames_of_some (h : splitFrame bytes = some (frame, after)) :
    frames bytes = (frame :: (frames after).1, (frames after).2) := by
  rw [frames]
  split
  · rename_i hnone
    rw [h] at hnone
    cases hnone
  · rename_i hsome
    rw [h] at hsome
    cases hsome
    rfl

/-- The frames of some bytes, and what is left of them, are a cut. -/
theorem frames_cut (bytes : List UInt8) : Cut 10 bytes (frames bytes).1 (frames bytes).2 := by
  fun_induction frames bytes with
  | case1 bytes h => exact .nil (splitFrame_eq_none_iff.1 h)
  | case2 bytes frame after h rest ih =>
    obtain ⟨rfl, hframe⟩ := splitFrame_eq_some_iff.1 h
    exact .cons hframe ih

/-- There is one way to cut bytes: `frames` finds it. -/
theorem Cut.frames_eq (h : Cut 10 bytes pieces rest) : frames bytes = (pieces, rest) := by
  induction pieces generalizing bytes with
  | nil =>
    obtain rfl : rest = bytes := h.whole
    exact frames_of_none (splitFrame_eq_none_iff.2 h.last)
  | cons piece pieces ih =>
    obtain ⟨hpiece, hleftmost⟩ := List.forall_mem_cons.1 h.leftmost
    have hlater : Cut 10 (pieces.flatMap (· ++ [10, 10]) ++ rest) pieces rest := ⟨rfl, hleftmost, h.last⟩
    have hbytes : bytes = piece ++ 10 :: 10 :: (pieces.flatMap (· ++ [10, 10]) ++ rest) := by
      rw [← h.whole, List.flatMap_cons, List.append_assoc, List.append_assoc]
      rfl
    rw [frames_of_some (splitFrame_eq_some_iff.2 ⟨hbytes, hpiece⟩), ih hlater]

/-! ## Texts -/

section

open Text.Utf8

/-- Bytes without a line feed can stand before any others. -/
theorem Apart.append_of_not_mem {more : List UInt8} (hmore : 10 ∉ more) (h : Apart 10 bytes) :
    Apart 10 (more ++ bytes) := by
  induction more with
  | nil => exact h
  | cons b more ih =>
    rw [List.mem_cons, not_or] at hmore
    exact List.isChain_cons.2 ⟨fun _ _ heq => hmore.1 heq.1.symm, ih hmore.2⟩

theorem feed_not_mem_utf8EncodeChar {c : Char} (h : c ≠ '\n') : 10 ∉ String.utf8EncodeChar c :=
  fun hmem => h (Char.toNat_inj.1 (toNat_of_mem_utf8EncodeChar hmem (by decide)))

/-- Line feeds are neighbours in the bytes of a text only if they are in the text. -/
theorem Apart.encode {s : List Char} (h : Apart '\n' s) : Apart 10 (encode s) := by
  rw [encode_eq]
  induction s with
  | nil => exact .nil
  | cons c s ih =>
    rw [List.flatMap_cons]
    by_cases hc : c = '\n'
    · subst hc
      refine List.isChain_cons.2 ⟨fun b hb heq => ?_, ih h.tail⟩
      cases s with
      | nil => cases hb
      | cons d s =>
        have hd : d ≠ '\n' := fun heq => (List.isChain_cons_cons.1 h).1 ⟨rfl, heq⟩
        -- The bytes of a character are never none, so that the next byte is one of the next character.
        obtain ⟨first, others, hbytes⟩ := List.exists_cons_of_ne_nil (String.utf8EncodeChar_ne_nil (c := d))
        rw [List.flatMap_cons, hbytes] at hb
        cases hb
        refine feed_not_mem_utf8EncodeChar hd ?_
        rw [hbytes, ← heq.2]
        exact List.mem_cons_self
    · exact .append_of_not_mem (feed_not_mem_utf8EncodeChar hc) (ih h.tail)

theorem encode_append (s t : List Char) : encode (s ++ t) = encode s ++ encode t := by
  rw [encode_eq, encode_eq, encode_eq, List.flatMap_append]

theorem encode_feed : encode ['\n'] = [10] := by
  rw [encode_eq]
  rfl

/-- The bytes of a text are cut where the text is. -/
theorem Cut.encode {s rest : List Char} {pieces : List (List Char)} (h : Cut '\n' s pieces rest) :
    Cut 10 (encode s) (pieces.map encode) (encode rest) where
  whole := by
    have hpieces : ∀ ps : List (List Char),
        (ps.map Text.Utf8.encode).flatMap (· ++ [10, 10]) = Text.Utf8.encode (ps.flatMap (· ++ ['\n', '\n'])) := by
      intro ps
      induction ps with
      | nil =>
        rw [encode_eq]
        rfl
      | cons p ps ih =>
        rw [List.map_cons, List.flatMap_cons, ih, List.flatMap_cons, encode_append, encode_append,
          ← List.singleton_append (x := '\n') (l := ['\n']), encode_append, encode_feed]
        rfl
    rw [hpieces, ← encode_append, h.whole]
  leftmost := by
    intro piece hpiece
    obtain ⟨p, hp, rfl⟩ := List.mem_map.1 hpiece
    rw [← encode_feed, ← encode_append]
    exact (h.leftmost p hp).encode
  last := h.last.encode

end

/-! ## Chunks -/

/-- Chunks that arrive one after another are cut as they would be at once. -/
theorem feedAll_cut {pending : List UInt8} (hpending : Apart 10 pending) (chunks : List (List UInt8)) :
    Cut 10 (pending ++ chunks.flatten) (feedAll pending chunks).1 (feedAll pending chunks).2 := by
  induction chunks generalizing pending with
  | nil =>
    rw [List.flatten_nil, List.append_nil]
    exact .nil hpending
  | cons chunk chunks ih =>
    have hnow := frames_cut (pending ++ chunk)
    rw [List.flatten_cons, ← List.append_assoc]
    exact hnow.append (ih hnow.last)

theorem feedAll_eq_frames (chunks : List (List UInt8)) : feedAll [] chunks = frames chunks.flatten :=
  (feedAll_cut .nil chunks).frames_eq.symm

/-- **Frames do not depend on chunks**: however some bytes arrive, the frames and what is left are those of all the bytes at once, and they
are the one cut of the bytes. So what is read of a reply does not depend on its chunks; and where the bytes are those of a text, the
frames are decoded to the pieces of that text, whatever characters are in it. -/
theorem chunks_immaterial (chunks : List (List UInt8)) :
    feedAll [] chunks = feed [] chunks.flatten ∧
      (∀ pieces rest, feedAll [] chunks = (pieces, rest) ↔ Cut 10 chunks.flatten pieces rest) ∧
      (∀ broken, readChunks chunks broken = readChunks [chunks.flatten] broken) ∧
      ∀ text pieces rest, chunks.flatten = Text.Utf8.encode text → Cut '\n' text pieces rest →
        (feedAll [] chunks).1.map Text.Utf8.decodeLossy = pieces ∧
          Text.Utf8.decodeLossy (feedAll [] chunks).2 = rest := by
  have hframes := feedAll_eq_frames chunks
  have hwhole : feedAll [] [chunks.flatten] = feedAll [] chunks := by
    rw [feedAll_eq_frames, List.flatten_singleton, hframes]
  refine ⟨hframes, fun pieces rest => ⟨fun h => ?_, fun h => ?_⟩, fun broken => ?_, ?_⟩
  · have hcut := feedAll_cut .nil chunks
    rwa [h] at hcut
  · rw [hframes, h.frames_eq]
  · unfold readChunks
    rw [hwhole]
  · intro text pieces rest hbytes hcut
    rw [hframes, hbytes, hcut.encode.frames_eq]
    simp only
    rw [List.map_map, Text.Utf8.decodeLossy_encode]
    refine ⟨?_, rfl⟩
    exact (List.map_congr_left fun p _ => Text.Utf8.decodeLossy_encode p).trans (List.map_id _)

/-- A character and an end of a frame arrive in two chunks each. -/
theorem chunks_immaterial_split :
    let chunks : List (List UInt8) := [[0x61, 0xC3], [0xA9, 10], [10, 10, 0x62]]
    let text := ['a', 'é', '\n', '\n', '\n', 'b']
    chunks.flatten = Text.Utf8.encode text ∧ Cut '\n' text [['a', 'é']] ['\n', 'b'] ∧
      (feedAll [] chunks).1.map Text.Utf8.decodeLossy = [['a', 'é']] ∧
      Text.Utf8.decodeLossy (feedAll [] chunks).2 = ['\n', 'b'] := by
  intro chunks text
  have hbytes : chunks.flatten = Text.Utf8.encode text := by
    rw [Text.Utf8.encode_eq]
    decide
  have hcut : Cut '\n' text [['a', 'é']] ['\n', 'b'] := by
    refine ⟨rfl, ?_, ?_⟩
    · unfold Apart
      decide
    · unfold Apart
      decide
  exact ⟨hbytes, hcut, (chunks_immaterial chunks).2.2.2 text _ _ hbytes hcut⟩

end Playbook.Messages
