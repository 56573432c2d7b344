import Playbook.Proofs.Messages.Transcript

/-!
# `Proofs.Messages.Speech` — what is heard of a reply and what is kept of it

The text of a reply comes in two ways: a block of text may start with some, and more comes in pieces. All of it is kept, read for inline
events and put into the transcript. But only the pieces are handed on as turns. So what a run hears of a reply is what is kept of it if
and only if all of its blocks start without text.

## Contents
- **Hearing.** `Turn.said`, the text of some turns; `Host.hearAll_said`.
- **Reports.** `StreamEvent.text`, of which `StreamEvent.piece` is handed on and `StreamEvent.opening` is not; `join_piece_eq_iff`.
- **Replies.** `Reply.apply_said` for one report, `Reply.applyAll_said` for many.
- **Conversations.** `Service.converse_said` for a whole answer; `replies_said`.
-/

namespace Playbook

/-! ## Hearing -/

namespace Tally

variable {tally : Tally}

theorem countUsage_text (usage : Option Usage) : (tally.countUsage usage).1.text = tally.text := by
  cases usage with
  | none => rfl
  | some u =>
    simp only [countUsage, recordUsage]
    split
    · rfl
    · split <;> rfl

theorem accept_text (e : Event) : (tally.accept e).1.text = tally.text := by
  have hnote : (tally.noteResult e).text = tally.text := by
    unfold noteResult
    split
    · split <;> rfl
    · rfl
  simp only [accept]
  split
  · exact hnote
  · split <;> exact hnote

/-- A turn adds its text to a tally. -/
theorem withTurn_text (t : Turn) : (tally.withTurn t).text = tally.text ++ t.text.getD "" := by
  unfold withTurn
  cases t.event with
  | none => exact countUsage_text t.usage
  | some e => exact (accept_text e).trans (countUsage_text t.usage)

end Tally

/-- The text of some turns, one after another. -/
def Turn.said (turns : List Turn) : String :=
  String.join (turns.filterMap (·.text))

theorem Turn.said_cons (t : Turn) (turns : List Turn) : said (t :: turns) = t.text.getD "" ++ said turns := by
  unfold said
  cases htext : t.text with
  | none => rw [List.filterMap_cons_none htext, Option.getD_none, String.empty_append]
  | some text => rw [List.filterMap_cons_some htext, String.join_cons, Option.getD_some]

theorem Turn.said_append (turns later : List Turn) : said (turns ++ later) = said turns ++ said later := by
  rw [said, List.filterMap_append, String.join_append]
  rfl

/-- Turns without text say nothing. -/
theorem Turn.said_eq_empty {turns : List Turn} (h : ∀ t ∈ turns, t.text = none) : said turns = "" := by
  rw [said, List.filterMap_eq_nil_iff.2 h]
  rfl

theorem Turn.said_events (events : List Event) : said (events.map .ofEvent) = "" := by
  refine said_eq_empty fun t ht => ?_
  obtain ⟨e, _, rfl⟩ := List.mem_map.1 ht
  rfl

/-- What turns say is added to the tally, and the backend is left as it is. -/
theorem Host.hearAll_said {τ η κ δ : Type} (h : Host τ η κ δ) (agent : String) (turns : List Turn) (l : Hearing)
    (s : RunState τ κ δ) :
    (h.hearAll agent turns l s).1.tally.text = l.tally.text ++ Turn.said turns ∧
      (h.hearAll agent turns l s).2.backend = s.backend := by
  induction turns generalizing l s with
  | nil => exact ⟨String.append_empty.symm, rfl⟩
  | cons t rest ih =>
    obtain ⟨htext, hbackend⟩ := ih (h.hear agent t l s).1 (h.hear agent t l s).2
    have hfirst : (h.hear agent t l s).1.tally.text = l.tally.text ++ t.text.getD "" := by
      rw [hear_fst, Tally.withTurn_text]
    have hkeeps : (h.hear agent t l s).2.backend = s.backend := by
      obtain ⟨sessions, counters, outbox, htouches⟩ := hear_touches (l := l) (s := s) h agent t
      rw [htouches]
    rw [Turn.said_cons, ← String.append_assoc, ← hfirst, ← hkeeps]
    exact ⟨htext, hbackend⟩

namespace Messages

/-! ## Reports -/

namespace StreamEvent

/-- The text that a report adds to a reply. -/
def text : StreamEvent → String
  | .blockStart _ (.text text) => text
  | .blockDelta _ (.text text) => text
  | _ => ""

/-- The part of it that is handed on. -/
def piece : StreamEvent → String
  | .blockDelta _ (.text text) => text
  | _ => ""

/-- The part of it that a block starts with. -/
def opening : StreamEvent → String
  | .blockStart _ (.text text) => text
  | _ => ""

theorem length_text (e : StreamEvent) : e.text.length = e.opening.length + e.piece.length := by
  unfold text opening piece
  split <;> simp

theorem length_join_text (events : List StreamEvent) :
    (String.join (events.map text)).length =
      (String.join (events.map opening)).length + (String.join (events.map piece)).length := by
  induction events with
  | nil => rfl
  | cons e rest ih =>
    have hfirst := length_text e
    simp only [List.map_cons, String.join_cons, String.length_append]
    omega

theorem join_eq_empty_iff {texts : List String} : String.join texts = "" ↔ ∀ text ∈ texts, text = "" := by
  induction texts with
  | nil => simp
  | cons text rest ih => rw [String.join_cons, String.append_eq_empty_iff, ih, List.forall_mem_cons]

/-- The pieces of a reply are all of its text if and only if no block starts with text. -/
theorem join_piece_eq_iff (events : List StreamEvent) :
    String.join (events.map piece) = String.join (events.map text) ↔
      ∀ index text, .blockStart index (.text text) ∈ events → text = "" := by
  have hlength := length_join_text events
  constructor
  · intro heq index text hmem
    have hempty : String.join (events.map opening) = "" := by
      rw [← String.length_eq_zero_iff]
      rw [heq] at hlength
      omega
    exact join_eq_empty_iff.1 hempty text (List.mem_map.2 ⟨_, hmem, rfl⟩)
  · intro h
    refine congrArg String.join (List.map_congr_left fun e he => ?_)
    cases e with
    | blockStart index block =>
      cases block with
      | text text => exact (h index text he).symm
      | _ => rfl
    | blockDelta index delta => cases delta <;> rfl
    | _ => rfl

end StreamEvent

/-! ## Replies -/

namespace Reply

theorem said_blockTurns (block : OpenBlock) : Turn.said (blockTurns block) = "" := by
  cases block with
  | text => rfl
  | thinking text =>
    simp only [blockTurns]
    split
    · rfl
    · exact Turn.said_events [_]
  | toolUse name json input => exact Turn.said_events _

theorem startBlock_text (r : Reply) (index : Nat) (block : BlockStart) :
    (r.startBlock index block).text = r.text ++ (StreamEvent.blockStart index block).text := by
  cases block with
  | text text => rfl
  | _ => exact String.append_empty.symm

/-- Other pieces than those of text add none, and say nothing. -/
theorem extendBlock_silent_text (r : Reply) (index : Nat) {delta : Delta} (h : ∀ text, delta ≠ .text text) :
    (r.extendBlock index delta).1.text = r.text ++ "" ∧ Turn.said (r.extendBlock index delta).2 = "" := by
  rw [String.append_empty]
  unfold extendBlock
  split
  · exact absurd rfl (h _)
  · exact ⟨rfl, rfl⟩
  · exact ⟨rfl, rfl⟩
  · exact ⟨rfl, rfl⟩

/-- A piece of text is kept and handed on, whatever block it is for. -/
theorem extendBlock_said (r : Reply) (index : Nat) (delta : Delta) :
    (r.extendBlock index delta).1.text = r.text ++ (StreamEvent.blockDelta index delta).text ∧
      Turn.said (r.extendBlock index delta).2 = (StreamEvent.blockDelta index delta).piece := by
  cases delta with
  | text text => exact ⟨rfl, (Turn.said_cons _ []).trans String.append_empty⟩
  | toolInput more =>
    have hother : ∀ text, Delta.toolInput more ≠ .text text := nofun
    exact r.extendBlock_silent_text index hother
  | thinking more =>
    have hother : ∀ text, Delta.thinking more ≠ .text text := nofun
    exact r.extendBlock_silent_text index hother
  | other =>
    have hother : ∀ text, Delta.other ≠ .text text := nofun
    exact r.extendBlock_silent_text index hother

theorem stopBlock_said (r : Reply) (index : Nat) :
    (r.stopBlock index).1.text = r.text ∧ Turn.said (r.stopBlock index).2 = "" := by
  unfold stopBlock
  split
  · exact ⟨rfl, rfl⟩
  · exact ⟨rfl, said_blockTurns _⟩

/-- A report that is no error is taken in: its text is added to the reply, and a piece is handed on. -/
theorem apply_said (r : Reply) {e : StreamEvent} (h : ∀ kind message, e ≠ .error kind message) :
    ∃ r' turns, r.apply e = .ok (r', turns) ∧ r'.text = r.text ++ e.text ∧ Turn.said turns = e.piece := by
  have hkept : r.text = r.text ++ "" := String.append_empty.symm
  cases e with
  | messageStart id usage =>
    cases usage with
    | none => exact ⟨_, _, rfl, hkept, rfl⟩
    | some u => exact ⟨_, _, rfl, hkept, rfl⟩
  | blockStart index block => exact ⟨_, _, rfl, startBlock_text r index block, by cases block <;> rfl⟩
  | blockDelta index delta => exact ⟨_, _, rfl, extendBlock_said r index delta⟩
  | blockStop index =>
    obtain ⟨htext, hsaid⟩ := stopBlock_said r index
    exact ⟨_, _, rfl, htext.trans hkept, hsaid⟩
  | messageDelta outputTokens =>
    cases outputTokens with
    | none => exact ⟨_, _, rfl, hkept, rfl⟩
    | some n => exact ⟨_, _, rfl, hkept, rfl⟩
  | error kind message => exact absurd rfl (h kind message)
  | other => exact ⟨_, _, rfl, hkept, rfl⟩

/-- Reports of which none is an error are all taken in: their texts are added to the reply in order. -/
theorem applyAll_said (r : Reply) {events : List StreamEvent} (h : ∀ kind message, .error kind message ∉ events) :
    ∃ turns r', r.applyAll events = (turns, .ok r') ∧
      r'.text = r.text ++ String.join (events.map StreamEvent.text) ∧
      Turn.said turns = String.join (events.map StreamEvent.piece) := by
  induction events generalizing r with
  | nil => exact ⟨[], r, rfl, String.append_empty.symm, rfl⟩
  | cons e rest ih =>
    have hfirst : ∀ kind message, e ≠ .error kind message := by
      rintro kind message rfl
      exact h kind message List.mem_cons_self
    obtain ⟨r', turns, happly, htext, hsaid⟩ := r.apply_said hfirst
    obtain ⟨later, r'', hlater, htexts, hsaids⟩ :=
      ih r' fun kind message hmem => h kind message (List.mem_cons_of_mem _ hmem)
    refine ⟨turns ++ later, r'', ?_, ?_, ?_⟩
    · simp only [applyAll, happly, hlater]
    · rw [htexts, htext, List.map_cons, String.join_cons, String.append_assoc]
    · rw [Turn.said_append, hsaid, hsaids, List.map_cons, String.join_cons]

/-- What is handed on when a reply is whole says nothing. -/
theorem said_closing (r : Reply) : Turn.said r.closing = "" := by
  have husage : Turn.said (r.usage.map Turn.ofUsage).toList = "" := by
    cases r.usage <;> rfl
  rw [closing, Turn.said_append, Turn.said_events, husage]
  rfl

end Reply

/-! ## Conversations -/

/-- The answer in which the reports of a reply come is made of their turns and those at its end. -/
theorem answer_whole {status : Nat} {chunks : List (List UInt8)} {turns : List Turn} {r : Reply}
    (hstatus : Http.Reply.isSuccess status = true)
    (happly : Reply.empty.applyAll ((feedAll [] chunks).1.filterMap StreamEvent.ofFrame?) = (turns, .ok r)) :
    answer (.answered status chunks none) = (turns ++ r.closing, .ok r.text) := by
  have hread : readChunks chunks none = (turns ++ r.closing, .ok r) := by
    simp only [readChunks, happly]
  simp only [answer, hstatus, hread]
  rfl

namespace Service

variable {ρ κ δ : Type}

/-- The stream of a whole answer ends by putting its text into the transcript. -/
theorem stream_whole (v : Service ρ) {session : Session} (hfresh : session.streamed = false) {prompt text : String}
    {st : State ρ} {turns : List Turn} (hanswer : answer (v.replyTo session prompt st) = (turns, .ok text)) :
    ∃ session' peer, v.stream { session with pending := some prompt } st =
      (.ok (.ofList (·.push session.id ⟨.assistant, text⟩) ((session.opening :: turns).map fun t => (0, .ok t))), session',
        { st.push session.id ⟨.user, prompt⟩ with peer }) := by
  have hturns : (answer (v.replyTo session prompt st)).1 = turns := congrArg Prod.fst hanswer
  simp only [stream, hfresh, Bool.false_eq_true, if_false]
  split
  · rename_i e hbroken
    cases hbroken.symm.trans (congrArg Prod.snd hanswer)
  · rename_i whole hwhole
    cases hwhole.symm.trans (congrArg Prod.snd hanswer)
    exact ⟨_, _, by rw [← hturns]; rfl⟩

/-- A run hears what the turns of a whole answer say, and the text of the answer goes into the transcript. -/
theorem converse_said (v : Service ρ) (courier : Courier δ) (store : ContentStore κ) (name : String) {session : Session}
    (hfresh : session.streamed = false) {prompt text : String} {s : RunState (State ρ) κ δ} {turns : List Turn}
    (hanswer : answer (v.replyTo session prompt s.backend) = (turns, .ok text)) :
    let h : Host (State ρ) Session κ δ := ⟨courier, v.backend, store⟩
    ∃ heard session' s', (h.converse name prompt (some session.id) session).Straight s (.ok (.ok heard, session')) s' ∧
      heard.tally.text = Turn.said turns ∧
      s'.backend.transcript session.id =
        s.backend.transcript session.id ++ [⟨.user, prompt⟩, ⟨.assistant, text⟩] := by
  intro h
  obtain ⟨session', peer, hstream⟩ := v.stream_whole hfresh hanswer
  let asked : State ρ := { s.backend.push session.id ⟨.user, prompt⟩ with peer }
  let start : RunState (State ρ) κ δ := { s.remember name session.id with backend := asked }
  let leave : State ρ → State ρ := (·.push session.id ⟨.assistant, text⟩)
  let spoken := session.opening :: turns
  let heard := h.hearAll name spoken ⟨.empty, some session.id⟩ start
  obtain ⟨htext, hbackend⟩ := h.hearAll_said name spoken ⟨.empty, some session.id⟩ start
  have hlisten : (h.listen name (.ofList leave (spoken.map fun t => (0, .ok t))) ⟨.empty, some session.id⟩).Straight
      start (.ok heard.1) { heard.2 with backend := leave heard.2.backend } := by
    rw [← List.append_nil (spoken.map _)]
    exact Host.straight_listen spoken leave [] (Host.straight_finished leave)
  refine ⟨heard.1, session', _, Host.straight_converse (fun _ _ => rfl) rfl hstream hlisten, ?_, ?_⟩
  · -- The opening turn says nothing.
    rw [htext, Turn.said_cons]
    exact String.empty_append.trans String.empty_append
  · have hasked : asked.transcript session.id = s.backend.transcript session.id ++ [⟨.user, prompt⟩] :=
      s.backend.transcript_push session.id ⟨.user, prompt⟩
    show (leave heard.2.backend).transcript session.id = _
    rw [State.transcript_push, hbackend]
    show asked.transcript session.id ++ _ = _
    rw [hasked, List.append_assoc]
    rfl

end Service

/-- Reports without an error among them make a whole reply, which keeps all of the text in them. What its turns say is the text of the
    pieces, which is all of its text if and only if every block of text starts without any. Inline events are read from all of it, and
    all of it is put into the transcript, while a run that holds the session hears what the turns say. -/
theorem replies_said {events : List StreamEvent} (h : ∀ kind message, .error kind message ∉ events) :
    ∃ turns r, Reply.empty.applyAll events = (turns, .ok r) ∧
      r.text = String.join (events.map StreamEvent.text) ∧
      Turn.said turns = String.join (events.map StreamEvent.piece) ∧
      (Turn.said turns = r.text ↔ ∀ index text, .blockStart index (.text text) ∈ events → text = "") ∧
      ∀ {ρ κ δ : Type} (v : Service ρ) (courier : Courier δ) (store : ContentStore κ) (name prompt : String)
        (session : Session) (s : RunState (State ρ) κ δ) (status : Nat) (chunks : List (List UInt8)),
        session.streamed = false → Http.Reply.isSuccess status = true →
        (feedAll [] chunks).1.filterMap StreamEvent.ofFrame? = events →
        v.replyTo session prompt s.backend = .answered status chunks none →
        let work := (Host.mk courier v.backend store).converse name prompt (some session.id) session
        answer (.answered status chunks none) = (turns ++ r.closing, .ok r.text) ∧
        ∃ heard session' s', work.Straight s (.ok (.ok heard, session')) s' ∧
          heard.tally.text = Turn.said turns ∧
          s'.backend.transcript session.id =
            s.backend.transcript session.id ++ [⟨.user, prompt⟩, ⟨.assistant, r.text⟩] := by
  obtain ⟨turns, r, happly, htext, hsaid⟩ := Reply.empty.applyAll_said h
  have hall : r.text = String.join (events.map StreamEvent.text) := htext.trans String.empty_append
  refine ⟨turns, r, happly, hall, hsaid, ?_, ?_⟩
  · rw [hsaid, hall]
    exact StreamEvent.join_piece_eq_iff events
  · intro ρ κ δ v courier store name prompt session s status chunks hfresh hstatus hevents hreply work
    have hanswer : answer (.answered status chunks none) = (turns ++ r.closing, .ok r.text) :=
      answer_whole hstatus (by rw [hevents, happly])
    obtain ⟨heard, session', s', hstraight, hheard, htranscript⟩ :=
      v.converse_said courier store name hfresh (hreply ▸ hanswer)
    refine ⟨hanswer, heard, session', s', hstraight, ?_, htranscript⟩
    rw [hheard, Turn.said_append, r.said_closing, String.append_empty]

/-- A block starts with text, and that text is kept and not heard. -/
theorem replies_said_opening :
    let events : List StreamEvent := [.blockStart 0 (.text "Hel"), .blockDelta 0 (.text "lo"), .blockStop 0]
    (∀ kind message, StreamEvent.error kind message ∉ events) ∧
      ∃ turns r, Reply.empty.applyAll events = (turns, .ok r) ∧ Turn.said turns = "lo" ∧ r.text = "Hello" := by
  intro events
  have hnone : ∀ kind message, StreamEvent.error kind message ∉ events := by simp [events]
  obtain ⟨turns, r, happly, htext, hsaid, -⟩ := replies_said hnone
  exact ⟨hnone, turns, r, happly, hsaid, htext⟩

end Messages

end Playbook
