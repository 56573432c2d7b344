import Mathlib.Logic.Relation
import Playbook.Messages.Reply

/-!
# `Proofs.Messages.Blocks` — the blocks of a reply do not disturb one another

The blocks of a reply may come in interleaved: each report names the block it is about by its index, and an index may be started
again, stopped twice, or be given pieces that do not fit. What is handed on when a block stops depends on the reports about that index
alone, and of the pieces of an open block only on what they are together, not on where it was cut.

## Contents
- **Reports.** `BlockReport`, what a report says about one block; `StreamEvent.about` picks the reports of an index.
- **Spans.** `Span`, a block that is open, with its pieces put together; `BlockReport.ended` gives the span that each stop ends,
  `Span.handsOn` what is handed on for it.
- **Cuts.** `BlockReport.Recut`, reports that differ in how the pieces of one block were cut; `ended_recut`.
- **Replies.** `Reply.told` keeps the turns of a reply apart by their reports; `Holds` ties an open block to its span, `apply_told` for
  one report, `stopTurns_of_holds` for many.
-/

namespace Playbook.Messages

/-! ## Reports -/

/-- What a report says about one block. -/
inductive BlockReport where
  | start (block : BlockStart)
  | piece (delta : Delta)
  | stop

namespace StreamEvent

/-- What a report says about the block with an index. -/
def about (index : Nat) : StreamEvent → Option BlockReport
  | blockStart i block => if i = index then some (.start block) else none
  | blockDelta i delta => if i = index then some (.piece delta) else none
  | blockStop i => if i = index then some .stop else none
  | _ => none

/-- A report that the block with an index has ended. -/
def stops (index : Nat) : StreamEvent → Bool
  | blockStop i => i == index
  | _ => false

theorem stops_iff_about {index : Nat} (e : StreamEvent) : e.stops index = true ↔ e.about index = some .stop := by
  cases e with
  | blockStart i block => simp [stops, about]
  | blockDelta i delta => simp [stops, about]
  | blockStop i => simp [stops, about]
  | _ => exact ⟨nofun, nofun⟩

end StreamEvent

/-! ## Spans -/

/-- What a piece adds to a block that started so: nothing unless it is of the block's kind. -/
def BlockStart.takes : BlockStart → Delta → String
  | .thinking _, .thinking more => more
  | .toolUse _ _, .toolInput more => more
  | _, _ => ""

/-- A block that is open: how it started, and what its pieces are together. -/
structure Span where
  block : BlockStart
  gathered : String

namespace Span

/-- What is handed on when the block ends. -/
def handsOn : Span → List Turn
  | ⟨.thinking opening, gathered⟩ =>
    if opening ++ gathered = "" then [] else [.ofEvent (.thinking (opening ++ gathered))]
  | ⟨.toolUse name input, gathered⟩ => (Event.ofToolUse name (Reply.toolInput gathered input)).map .ofEvent
  | ⟨.text _, _⟩ => []
  | ⟨.other, _⟩ => []

/-- The block as a reply keeps it. -/
def kept : Span → OpenBlock
  | ⟨.thinking opening, gathered⟩ => .thinking (opening ++ gathered)
  | ⟨.toolUse name input, gathered⟩ => .toolUse name gathered input
  | ⟨.text _, _⟩ => .text
  | ⟨.other, _⟩ => .text

/-- The block with one more piece. -/
def extend (span : Span) (delta : Delta) : Span :=
  { span with gathered := span.gathered ++ span.block.takes delta }

theorem blockTurns_kept (span : Span) : Reply.blockTurns span.kept = span.handsOn := by
  obtain ⟨block, gathered⟩ := span
  cases block <;> rfl

end Span

namespace BlockReport

/-- The span that is open after a report. -/
def next : Option Span → BlockReport → Option Span
  | _, start block => some ⟨block, ""⟩
  | span, piece delta => span.map (·.extend delta)
  | _, stop => none

/-- The span that each stop ends, if one is open then. -/
def ended : Option Span → List BlockReport → List (Option Span)
  | _, [] => []
  | span, stop :: rest => span :: ended none rest
  | span, report :: rest => ended (next span report) rest

/-- What is handed on at a stop. -/
def handsOn (span : Option Span) : List Turn :=
  span.elim [] Span.handsOn

/-- The spans that earlier reports end are those, and they leave a span open for the later ones. -/
theorem ended_append (span : Option Span) (reports later : List BlockReport) :
    ended span (reports ++ later) = ended span reports ++ ended (reports.foldl next span) later := by
  induction reports generalizing span with
  | nil => rfl
  | cons report rest ih =>
    cases report with
    | stop => exact congrArg (span :: ·) (ih none)
    | start block => exact ih _
    | piece delta => exact ih _

/-! ## Cuts -/

/-- What some pieces add to a block that started so. -/
def gather (block : BlockStart) (pieces : List Delta) : String :=
  String.join (pieces.map block.takes)

/-- Two courses of reports that differ in how the pieces of one open block were cut. -/
inductive Recut : List BlockReport → List BlockReport → Prop where
  | cut (before after : List BlockReport) (block : BlockStart) {pieces pieces' : List Delta}
      (h : gather block pieces = gather block pieces') :
      Recut (before ++ start block :: pieces.map piece ++ after) (before ++ start block :: pieces'.map piece ++ after)

/-- Pieces end no span. -/
theorem ended_pieces (span : Option Span) (pieces : List Delta) : ended span (pieces.map piece) = [] := by
  induction pieces generalizing span with
  | nil => rfl
  | cons delta rest ih => exact ih _

/-- Pieces add to the span that is open what they are together. -/
theorem foldl_pieces (block : BlockStart) (gathered : String) (pieces : List Delta) :
    (pieces.map piece).foldl next (some ⟨block, gathered⟩) = some ⟨block, gathered ++ gather block pieces⟩ := by
  induction pieces generalizing gathered with
  | nil => exact congrArg (fun g => some (Span.mk block g)) String.append_empty.symm
  | cons delta rest ih =>
    have hjoin : gather block (delta :: rest) = block.takes delta ++ gather block rest := String.join_cons
    rw [hjoin, ← String.append_assoc]
    exact ih (gathered ++ block.takes delta)

/-- Where the pieces of a block were cut makes no difference to the spans that end. -/
theorem ended_recut {reports reports' : List BlockReport} (h : Recut reports reports') (span : Option Span) :
    ended span reports' = ended span reports := by
  obtain ⟨before, after, block, hgather⟩ := h
  -- Up to the end of its pieces, the block ends nothing and leaves one span open.
  have hblock : ∀ (pieces : List Delta) (s : Option Span),
      ended s (start block :: pieces.map piece ++ after) = ended (some ⟨block, gather block pieces⟩) after := by
    intro pieces s
    show ended (some ⟨block, ""⟩) (pieces.map piece ++ after) = _
    rw [ended_append, ended_pieces, foldl_pieces, String.empty_append]
    rfl
  simp only [List.append_assoc before, ended_append span before]
  rw [hblock, hblock, hgather]

/-- Where the pieces of any number of blocks were cut makes no difference to the spans that end. -/
theorem ended_recuts {reports reports' : List BlockReport} (h : Relation.ReflTransGen Recut reports reports')
    (span : Option Span) : ended span reports' = ended span reports := by
  induction h with
  | refl => rfl
  | tail _ hcut ih => exact (ended_recut hcut span).trans ih

end BlockReport

/-! ## Replies -/

namespace Reply

/-- What is done at one index leaves the others alone. -/
theorem find?_filter_other {i index : Nat} (hi : i ≠ index) (blocks : List (Nat × OpenBlock)) :
    (blocks.filter (·.1 != i)).find? (·.1 == index) = blocks.find? (·.1 == index) := by
  rw [List.find?_filter]
  congr 1
  funext b
  by_cases hb : b.1 = index
  · simp [hb, Ne.symm hi]
  · simp [hb]

theorem block?_withBlock (r : Reply) (i index : Nat) (block : OpenBlock) :
    (r.withBlock i block).block? index = if i = index then some block else r.block? index := by
  unfold withBlock block?
  by_cases hi : i = index
  · simp [hi]
  · have hfirst : (i == index) = false := beq_false_of_ne hi
    simp only [List.find?_cons, hfirst, find?_filter_other hi, if_neg hi]

theorem block?_without (r : Reply) (i index : Nat) :
    (r.without i).block? index = if i = index then none else r.block? index := by
  unfold without block?
  by_cases hi : i = index
  · simp [hi, List.find?_filter]
  · simp only [find?_filter_other hi, if_neg hi]

@[simp] theorem block?_addText (r : Reply) (text : String) (index : Nat) :
    (r.addText text).block? index = r.block? index := rfl

/-- Each report up to a failure, with the turns that are handed on for it. -/
def told (r : Reply) : List StreamEvent → List (StreamEvent × List Turn)
  | [] => []
  | e :: rest =>
    match r.apply e with
    | .error _ => []
    | .ok (r', turns) => (e, turns) :: r'.told rest

/-- The turns that are handed on at each stop of the block with an index. -/
def stopTurns (r : Reply) (index : Nat) (events : List StreamEvent) : List (List Turn) :=
  ((r.told events).filter (·.1.stops index)).map (·.2)

/-- The block with an index is open in a reply as a span says. -/
def Holds (r : Reply) (index : Nat) (span : Option Span) : Prop :=
  r.block? index = span.map (·.kept)

variable {r : Reply} {index : Nat} {span : Option Span}

theorem Holds.start {i : Nat} (h : r.Holds index span) (block : BlockStart) :
    (r.startBlock i block).Holds index (if i = index then some ⟨block, ""⟩ else span) := by
  unfold Holds at h ⊢
  by_cases hi : i = index
  · subst hi
    cases block <;> simp [startBlock, block?_withBlock, Span.kept]
  · cases block <;> simp [startBlock, block?_withBlock, hi, h]

/-- A piece goes into the block with its index, or nowhere. -/
theorem Holds.extend {i : Nat} (h : r.Holds index span) (delta : Delta) :
    (r.extendBlock i delta).1.Holds index (if i = index then span.map (·.extend delta) else span) := by
  unfold Holds at h ⊢
  by_cases hi : i = index
  · subst hi
    simp only [if_true]
    cases span with
    | none =>
      have hnone : r.block? i = none := h
      cases delta <;> simp [extendBlock, hnone]
    | some span =>
      obtain ⟨block, gathered⟩ := span
      have hopen : r.block? i = some (Span.mk block gathered).kept := h
      -- Only a piece of the block's own kind adds to it.
      cases block <;> cases delta <;>
        simp [extendBlock, hopen, Span.kept, Span.extend, BlockStart.takes, block?_withBlock, String.append_assoc]
  · rw [if_neg hi, ← h]
    unfold extendBlock
    split
    · rfl
    · rw [block?_withBlock, if_neg hi]
    · rw [block?_withBlock, if_neg hi]
    · rfl

theorem Holds.stop {i : Nat} (h : r.Holds index span) :
    (r.stopBlock i).1.Holds index (if i = index then none else span) := by
  unfold Holds at h ⊢
  unfold stopBlock
  by_cases hi : i = index
  · subst hi
    cases hopen : r.block? i <;> simp [hopen, block?_without]
  · cases hopen : r.block? i <;> simp [block?_without, hi, h]

/-- At a stop is handed on what the span that ends hands on. -/
theorem Holds.stopBlock_snd (h : r.Holds index span) : (r.stopBlock index).2 = BlockReport.handsOn span := by
  unfold Holds at h
  unfold stopBlock
  rw [h]
  cases span with
  | none => rfl
  | some span => exact span.blockTurns_kept

/-- A report about one index changes what is open there, and nothing else. -/
theorem elim_about (i index : Nat) (report : BlockReport) (span : Option Span) :
    (if i = index then some report else none).elim span (BlockReport.next span) =
      if i = index then BlockReport.next span report else span := by
  by_cases hi : i = index
  · rw [if_pos hi, if_pos hi]
    rfl
  · rw [if_neg hi, if_neg hi]
    rfl

/-- A report that is no error is taken in. It changes the block with an index as what it says about that block does, and if it says that
    the block has ended, what the block hands on is handed on. -/
theorem Holds.apply (h : r.Holds index span) {e : StreamEvent} (hcalm : ∀ kind message, e ≠ .error kind message) :
    ∃ r' turns, r.apply e = .ok (r', turns) ∧
      r'.Holds index ((e.about index).elim span (BlockReport.next span)) ∧
      (e.stops index = true → turns = BlockReport.handsOn span) := by
  cases e with
  | messageStart id usage =>
    cases usage with
    | none => exact ⟨_, _, rfl, h, nofun⟩
    | some u => exact ⟨_, _, rfl, h, nofun⟩
  | blockStart i block =>
    refine ⟨r.startBlock i block, [], rfl, ?_, nofun⟩
    rw [StreamEvent.about, elim_about]
    exact h.start block
  | blockDelta i delta =>
    refine ⟨(r.extendBlock i delta).1, (r.extendBlock i delta).2, rfl, ?_, nofun⟩
    rw [StreamEvent.about, elim_about]
    exact h.extend delta
  | blockStop i =>
    refine ⟨(r.stopBlock i).1, (r.stopBlock i).2, rfl, ?_, ?_⟩
    · rw [StreamEvent.about, elim_about]
      exact h.stop
    · intro hi
      rw [eq_of_beq hi]
      exact h.stopBlock_snd
  | messageDelta outputTokens =>
    cases outputTokens with
    | none => exact ⟨_, _, rfl, h, nofun⟩
    | some n => exact ⟨_, _, rfl, h, nofun⟩
  | error kind message => exact absurd rfl (hcalm kind message)
  | other => exact ⟨_, _, rfl, h, nofun⟩

theorem ended_stop (span : Option Span) {e : StreamEvent} (hstops : e.stops index = true) (rest : List StreamEvent) :
    BlockReport.ended span ((e :: rest).filterMap (·.about index)) =
      span :: BlockReport.ended none (rest.filterMap (·.about index)) := by
  rw [List.filterMap_cons_some (e.stops_iff_about.1 hstops)]
  rfl

theorem ended_other (span : Option Span) {e : StreamEvent} (hgoes : ¬e.stops index = true) (rest : List StreamEvent) :
    BlockReport.ended span ((e :: rest).filterMap (·.about index)) =
      BlockReport.ended ((e.about index).elim span (BlockReport.next span)) (rest.filterMap (·.about index)) := by
  cases habout : e.about index with
  | none =>
    rw [List.filterMap_cons_none habout]
    rfl
  | some report =>
    rw [List.filterMap_cons_some habout]
    cases report with
    | start block => rfl
    | piece delta => rfl
    | stop => exact absurd (e.stops_iff_about.2 habout) hgoes

theorem told_cons {r' : Reply} {e : StreamEvent} {turns : List Turn} (happly : r.apply e = .ok (r', turns))
    (rest : List StreamEvent) : r.told (e :: rest) = (e, turns) :: r'.told rest := by
  simp only [told, happly]

theorem stopTurns_cons {r' : Reply} {e : StreamEvent} {turns : List Turn} (happly : r.apply e = .ok (r', turns))
    (rest : List StreamEvent) :
    r.stopTurns index (e :: rest) =
      if e.stops index = true then turns :: r'.stopTurns index rest else r'.stopTurns index rest := by
  unfold stopTurns
  rw [told_cons happly, List.filter_cons]
  split <;> rfl

/-- Reports without an error among them are all taken in, and at the stops of an index is handed on what the spans hand on that its own
    reports end. -/
theorem Holds.told {events : List StreamEvent} (h : r.Holds index span)
    (hcalm : ∀ kind message, .error kind message ∉ events) :
    (∃ r', r.applyAll events = ((r.told events).flatMap (·.2), .ok r')) ∧
      (r.told events).map (·.1) = events ∧
      r.stopTurns index events =
        (BlockReport.ended span (events.filterMap (·.about index))).map BlockReport.handsOn := by
  induction events generalizing r span with
  | nil => exact ⟨⟨r, rfl⟩, rfl, rfl⟩
  | cons e rest ih =>
    have hfirst : ∀ kind message, e ≠ .error kind message := by
      rintro kind message rfl
      exact hcalm kind message List.mem_cons_self
    obtain ⟨r', turns, happly, hholds, hstop⟩ := h.apply hfirst
    obtain ⟨⟨last, hall⟩, hevents, hturns⟩ :=
      ih hholds fun kind message hmem => hcalm kind message (List.mem_cons_of_mem _ hmem)
    refine ⟨⟨last, ?_⟩, ?_, ?_⟩
    · simp only [applyAll, happly, hall, told_cons happly, List.flatMap_cons]
    · rw [told_cons happly, List.map_cons, hevents]
    · rw [stopTurns_cons happly, hturns]
      by_cases hgoes : e.stops index = true
      · rw [if_pos hgoes, ended_stop span hgoes, hstop hgoes, e.stops_iff_about.1 hgoes]
        rfl
      · rw [if_neg hgoes, ended_other span hgoes]

end Reply

/-- The blocks of a reply do not disturb one another: reports without an error among them are all taken in, and at each stop of an index
    is handed on what the block hands on that the reports about this index alone leave open there. So any other reports give the same
    turns at the stops of this index if they say the same about it, or the same but for where the pieces of its blocks were cut. -/
theorem block_stops_isolated {events : List StreamEvent} (h : ∀ kind message, .error kind message ∉ events)
    (index : Nat) :
    (∃ r, Reply.empty.applyAll events = ((Reply.empty.told events).flatMap (·.2), .ok r)) ∧
    (Reply.empty.told events).map (·.1) = events ∧
    Reply.empty.stopTurns index events =
      (BlockReport.ended none (events.filterMap (·.about index))).map BlockReport.handsOn ∧
    ∀ others : List StreamEvent, (∀ kind message, .error kind message ∉ others) →
      Relation.ReflTransGen BlockReport.Recut (events.filterMap (·.about index)) (others.filterMap (·.about index)) →
      Reply.empty.stopTurns index others = Reply.empty.stopTurns index events := by
  have hempty : Reply.empty.Holds index none := rfl
  obtain ⟨hall, hevents, hturns⟩ := hempty.told h
  refine ⟨hall, hevents, hturns, ?_⟩
  intro others hothers hcuts
  obtain ⟨_, _, hturns'⟩ := hempty.told hothers
  rw [hturns, hturns', BlockReport.ended_recuts hcuts]

/-- A file is read while the agent thinks, and then again with its input in other pieces and nothing in between. -/
theorem tool_input_recut :
    let interleaved : List StreamEvent :=
      [.messageStart "m" none, .blockStart 1 (.toolUse "Read" .null), .blockStart 0 (.thinking "a"),
        .blockDelta 1 (.toolInput "\x7b\"pa"), .blockDelta 0 (.thinking "b"), .blockDelta 1 (.thinking "c"), .blockStop 0,
        .blockDelta 1 (.toolInput "th\":\"a\"\x7d"), .blockStop 1, .blockStop 1]
    let plain : List StreamEvent :=
      [.blockStart 1 (.toolUse "Read" .null), .blockDelta 1 (.toolInput "\x7b\"path\":\"a\"\x7d"), .blockStop 1, .blockStop 1]
    Reply.empty.stopTurns 1 plain = Reply.empty.stopTurns 1 interleaved ∧
      Reply.empty.stopTurns 1 interleaved =
        [(Event.ofToolUse "Read" (Reply.toolInput "\x7b\"path\":\"a\"\x7d" .null)).map .ofEvent, []] := by
  intro interleaved plain
  have hcalm : ∀ kind message, .error kind message ∉ interleaved := by
    simp [interleaved]
  have hpieces : BlockReport.gather (.toolUse "Read" .null)
      [.toolInput "\x7b\"pa", .thinking "c", .toolInput "th\":\"a\"\x7d"] = "\x7b\"path\":\"a\"\x7d" := by
    simp [BlockReport.gather, BlockStart.takes, String.join]
  have hwhole : BlockReport.gather (.toolUse "Read" .null) [.toolInput "\x7b\"path\":\"a\"\x7d"] =
      "\x7b\"path\":\"a\"\x7d" := by
    simp [BlockReport.gather, BlockStart.takes, String.join]
  obtain ⟨_, _, hturns, hothers⟩ := block_stops_isolated hcalm 1
  refine ⟨hothers plain (by simp [plain]) (.single ?_), ?_⟩
  · exact .cut [] [.stop, .stop] (.toolUse "Read" .null) (hpieces.trans hwhole.symm)
  · rw [hturns]
    simp [interleaved, StreamEvent.about, BlockReport.ended, BlockReport.next, BlockReport.handsOn, Span.extend,
      Span.handsOn, BlockStart.takes]

end Playbook.Messages
