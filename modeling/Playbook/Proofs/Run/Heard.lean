import Playbook.Run.Session

/-!
# `Proofs.Run.Heard` — what is sent on of a turn, read off the turns alone

A turn that a run reads of an answer may hold an event. Whether the event is sent on, with which session id and with which
usage depends on nothing but the turns of the same answer up to it and on the id with which the session was opened. This is
written down here without tallies, and the tallies of a run are shown to come to the same.

To say which turns a run has read, and in which order, a backend can be made to *note* them as it hands them out.

## Contents
- **Turns in context.** `Heard`, `Offer`, `Heard.offer`.
- **Notes.** `Backend.noted`, `Host.noted`.
- **Tallies.** `Tally.Knows`, `Hearing.Knows`: what a tally and a hearing hold of the turns before; `hear_fst`, `hear_knows`, `hear_snd`.
- **What turns leave alone.** `forward_leaves`, `hear_sessionId`, `hear_leaves`; `hear_store`.
- **Notes change nothing.** `hear_forget`.
-/

namespace Playbook

/-! ## Turns in context -/

/-- A turn that a run has read, with the turns of the same answer that it read before. -/
structure Heard where
  agent : String
  /-- The id with which the session was opened. -/
  opened : Option String
  before : List Turn
  turn : Turn

/-- What is handed to the outbox. -/
structure Offer where
  agent : String
  session : Option String
  event : Event
  usage : Option Usage

namespace Heard

/-- The session's id as it was announced last, by the turn itself or before it. -/
def session (x : Heard) : Option String :=
  ((x.before ++ [x.turn]).filterMap (·.announced)).getLast? <|> x.opened

/-- Whether usage is counted: for a message with an id, only if no earlier turn had usage of that message. -/
def counts (x : Heard) (u : Usage) : Bool :=
  match u.messageId with
  | none => true
  | some id => !(x.before.filterMap (·.usage)).any (·.messageId = some id)

/-- Whether an event passes: an artifact does only if no earlier turn had one with its key. -/
def admits (x : Heard) (e : Event) : Bool :=
  match e.artifactKey with
  | none => true
  | some key => !(x.before.filterMap (·.event)).any (·.artifactKey = some key)

/-- What is sent on of the turn. -/
def offer (x : Heard) : Option Offer :=
  (x.turn.event.filter x.admits).map fun e =>
    ⟨x.agent, x.session, e, x.turn.usage.filter x.counts⟩

end Heard

/-! ## Notes -/

/-- Whose session it is, and the id with which it was opened. -/
structure Origin where
  agent : String
  opened : Option String

variable {τ η κ δ : Type}

/-- Take a turn, and note it with those before. -/
def Origin.note (o : Origin) (before : List Turn) (take : τ → Except Failure Turn × τ)
    (s : τ × List Heard) : Except Failure Turn × (τ × List Heard) :=
  match take s.1 with
  | (.error e, t) => (.error e, (t, s.2))
  | (.ok turn, t) => (.ok turn, (t, s.2 ++ [⟨o.agent, o.opened, before, turn⟩]))

/-- A stream that notes its turns as they are read, of which some have been read before. -/
def TurnStream.noted (o : Origin) : List Turn → TurnStream τ → TurnStream (τ × List Heard)
  | _, .finished leave => .finished fun s => (leave s.1, s.2)
  | before, .next ms take rest =>
    .next (fun s => ms s.1) (o.note before take) fun turn s =>
      (rest turn s.1).noted o (before ++ [turn])

namespace Backend

/-- A call, for sessions that are known with their origins. -/
def Call.plain : Call (η × Origin) → Call η
  | .create args => .create args
  | .resume args id => .resume args id
  | .send session prompt => .send session.1 prompt
  | .close session => .close session.1

/-- A backend that does what another one does, and notes the turns that are read. -/
def noted (b : Backend τ η) : Backend (τ × List Heard) (η × Origin) where
  name := b.name
  create args s :=
    let (r, t) := b.create args s.1
    (r.map fun session => (session, ⟨args.agentName, b.sessionId session⟩), (t, s.2))
  resume args id s :=
    let (r, t) := b.resume args id s.1
    (r.map fun session => (session, ⟨args.agentName, b.sessionId session <|> some id⟩), (t, s.2))
  sessionId session := b.sessionId session.1
  send prompt session s :=
    let (r, own, t) := b.send prompt session.1 s.1
    (r, (own, session.2), (t, s.2))
  stream session s :=
    let (r, own, t) := b.stream session.1 s.1
    (r.map fun stream => stream.noted session.2 [], (own, session.2), (t, s.2))
  close session s :=
    let (r, own, t) := b.close session.1 s.1
    (r, (own, session.2), (t, s.2))
  latency call s := b.latency call.plain s.1

end Backend

/-- A host whose backend notes the turns that are read. -/
def Host.noted (h : Host τ η κ δ) : Host (τ × List Heard) (η × Origin) κ δ :=
  ⟨h.courier, h.backend.noted, h.store⟩

/-- The state of a run without the notes. -/
def RunState.forget (s : RunState (τ × List Heard) κ δ) : RunState τ κ δ :=
  ⟨s.scope, s.sessions, s.counters, s.usage, s.backend.1, s.store, s.outbox⟩

/-! ## Tallies -/

/-- Something that holds of a turn's part has held of it in a turn before, or does so now. -/
theorem any_filterMap_concat {α : Type} (f : Turn → Option α) (p : α → Bool) (before : List Turn)
    (t : Turn) :
    ((before ++ [t]).filterMap f).any p = ((before.filterMap f).any p || (f t).any p) := by
  rw [List.filterMap_append, List.any_append]
  cases h : f t <;> simp [h]

/-- What a tally holds of the turns that have been read so far. -/
structure Tally.Knows (before : List Turn) (tally : Tally) : Prop where
  messages : ∀ id, tally.seenMessages.contains id =
    (before.filterMap (·.usage)).any (·.messageId = some id)
  artifacts : ∀ key, tally.seenArtifacts.contains key =
    (before.filterMap (·.event)).any (·.artifactKey = some key)

namespace Tally

variable {tally : Tally}

theorem contains_countUsage (usage : Option Usage) (id : String) :
    (tally.countUsage usage).1.seenMessages.contains id =
      (tally.seenMessages.contains id || usage.any (·.messageId = some id)) := by
  cases usage with
  | none => simp [countUsage]
  | some u =>
    simp only [countUsage, recordUsage, Option.any_some]
    cases hid : u.messageId with
    | none => simp
    | some own =>
      simp only [Option.some.injEq]
      split
      · rename_i hseen
        by_cases heq : own = id
        · simpa [heq] using hseen
        · simp [heq]
      · by_cases heq : own = id
        · simp [heq]
        · simp [heq, Ne.symm heq]

theorem artifacts_countUsage (usage : Option Usage) :
    (tally.countUsage usage).1.seenArtifacts = tally.seenArtifacts := by
  cases usage with
  | none => rfl
  | some u =>
    simp only [countUsage, recordUsage]
    split
    · rfl
    · split <;> rfl

/-- Usage is counted if it had not been for its message before. -/
theorem recordUsage_snd {x : Heard} (h : tally.Knows x.before) (u : Usage) :
    (tally.recordUsage u).2 = x.counts u := by
  unfold recordUsage Heard.counts
  cases u.messageId with
  | none => rfl
  | some own =>
    simp only [← h.messages own]
    split
    · rename_i hseen
      rw [hseen]
      rfl
    · rename_i hseen
      rw [Bool.not_eq_true] at hseen
      rw [hseen]
      rfl

theorem countUsage_snd {x : Heard} (h : tally.Knows x.before) (usage : Option Usage) :
    (tally.countUsage usage).2 = usage.filter x.counts := by
  cases usage with
  | none => rfl
  | some u => simp only [countUsage, recordUsage_snd h, Option.filter]

theorem noteResult_messages (e : Event) : (tally.noteResult e).seenMessages = tally.seenMessages := by
  unfold noteResult
  split
  · split <;> rfl
  · rfl

theorem noteResult_artifacts (e : Event) :
    (tally.noteResult e).seenArtifacts = tally.seenArtifacts := by
  unfold noteResult
  split
  · split <;> rfl
  · rfl

theorem accept_messages (e : Event) : (tally.accept e).1.seenMessages = tally.seenMessages := by
  simp only [accept]
  split
  · exact noteResult_messages e
  · split
    · exact noteResult_messages e
    · exact noteResult_messages e

/-- To let an event pass counts no usage. -/
theorem accept_usage (e : Event) : (tally.accept e).1.usage = tally.usage := by
  have hnoted : (tally.noteResult e).usage = tally.usage := by
    unfold noteResult
    split
    · split <;> rfl
    · rfl
  simp only [accept]
  split
  · exact hnoted
  · split
    · exact hnoted
    · exact hnoted

theorem contains_accept (e : Event) (key : String) :
    (tally.accept e).1.seenArtifacts.contains key =
      (tally.seenArtifacts.contains key || decide (e.artifactKey = some key)) := by
  simp only [accept, noteResult_artifacts]
  cases hkey : e.artifactKey with
  | none => simp [noteResult_artifacts]
  | some own =>
    simp only [Option.some.injEq]
    split
    · rename_i hseen
      rw [noteResult_artifacts]
      by_cases heq : own = key
      · simpa [heq] using hseen
      · simp [heq]
    · by_cases heq : own = key
      · simp [heq]
      · simp [heq, Ne.symm heq]

/-- An event passes if it is no artifact that has passed before. -/
theorem accept_snd {x : Heard} {tally' : Tally} (h : tally'.Knows x.before)
    (hsame : tally.seenArtifacts = tally'.seenArtifacts) (e : Event) :
    (tally.accept e).2 = x.admits e := by
  simp only [accept, noteResult_artifacts, Heard.admits]
  cases hkey : e.artifactKey with
  | none => rfl
  | some own =>
    simp only [← h.artifacts own, ← hsame]
    split
    · rename_i hseen
      rw [hseen]
      rfl
    · rename_i hseen
      rw [Bool.not_eq_true] at hseen
      rw [hseen]
      rfl

/-- A tally with one more turn in it. -/
def withTurn (tally : Tally) (t : Turn) : Tally :=
  t.event.elim ((tally.addText (t.text.getD "")).countUsage t.usage).1
    fun e => (((tally.addText (t.text.getD "")).countUsage t.usage).1.accept e).1

/-- With the usage of a turn in it a tally knows the turn's message, and with the event its artifact. -/
theorem Knows.turn {before : List Turn} (h : tally.Knows before) (t : Turn) : (tally.withTurn t).Knows (before ++ [t]) := by
  replace h : (tally.addText (t.text.getD "")).Knows before := ⟨h.messages, h.artifacts⟩
  unfold withTurn
  cases hevent : t.event with
  | none =>
    refine ⟨fun id => ?_, fun key => ?_⟩
    · rw [any_filterMap_concat, ← h.messages]
      exact contains_countUsage t.usage id
    · rw [any_filterMap_concat, ← h.artifacts, hevent]
      simp [artifacts_countUsage]
  | some e =>
    refine ⟨fun id => ?_, fun key => ?_⟩
    · rw [any_filterMap_concat, ← h.messages, ← contains_countUsage]
      simp [accept_messages]
    · rw [any_filterMap_concat, ← h.artifacts, hevent]
      simp only [Option.elim_some, contains_accept, artifacts_countUsage, Option.any_some]

end Tally

namespace Host

/-- What a hearing holds of the turns that have been read so far, given the id with which the session was opened. -/
structure Hearing.Knows (opened : Option String) (before : List Turn) (l : Hearing) : Prop where
  session : l.sessionId = ((before.filterMap (·.announced)).getLast? <|> opened)
  tally : l.tally.Knows before

theorem Hearing.knows_empty (opened : Option String) :
    Hearing.Knows opened [] ⟨.empty, opened⟩ where
  session := by simp
  tally := ⟨fun _ => rfl, fun _ => rfl⟩

variable {l : Hearing} {s : RunState τ κ δ} {x : Heard}

theorem noteSession_fst (agent : String) (t : Turn) :
    (noteSession agent t l s).1 = { l with sessionId := t.announced <|> l.sessionId } := by
  unfold noteSession
  split
  · rename_i hnone
    rw [hnone]
    rfl
  · rename_i id hsome
    rw [hsome]
    split
    · rename_i hsame
      obtain ⟨tally, session⟩ := l
      simp only at hsame
      subst hsame
      rfl
    · rfl

/-- Announced ids change nothing but the sessions that are remembered. -/
theorem noteSession_snd (agent : String) (t : Turn) :
    ∃ sessions, (noteSession agent t l s).2 = { s with sessions } := by
  unfold noteSession
  split
  · exact ⟨_, rfl⟩
  · split
    · exact ⟨_, rfl⟩
    · exact ⟨_, rfl⟩

/-- The session id after a turn. -/
theorem Hearing.Knows.announce (h : Hearing.Knows x.opened x.before l) :
    (x.turn.announced <|> l.sessionId) = x.session := by
  rw [h.session, Heard.session, List.filterMap_append]
  cases hannounced : x.turn.announced with
  | none => simp [hannounced]
  | some id => simp [hannounced]

/-- What a turn does to a hearing. -/
theorem hear_fst (h : Host τ η κ δ) (agent : String) (t : Turn) :
    (h.hear agent t l s).1 = ⟨l.tally.withTurn t, t.announced <|> l.sessionId⟩ := by
  unfold Tally.withTurn
  simp only [hear, noteSession_fst]
  cases t.event with
  | none => rfl
  | some e =>
    simp only [forward]
    split
    · split <;> rfl
    · rfl

/-- After a turn a hearing holds what it says of the turns up to it. -/
theorem hear_knows (h : Host τ η κ δ) (hk : Hearing.Knows x.opened x.before l) :
    Hearing.Knows x.opened (x.before ++ [x.turn]) (h.hear x.agent x.turn l s).1 := by
  rw [hear_fst]
  exact ⟨hk.announce, hk.tally.turn x.turn⟩

/-- What a turn does to the state of a run: its offer, if there is one, is queued. -/
theorem hear_snd (h : Host τ η κ δ) (hk : Hearing.Knows x.opened x.before l) :
    ∃ sessions, (h.hear x.agent x.turn l s).2 =
      match x.offer with
      | none => { s with sessions }
      | some o =>
        match s.outbox.enqueue h.courier o.agent o.session o.event o.usage with
        | (outbox, some _) =>
          { s with sessions, outbox }.count fun c =>
            { c with eventsForwarded := c.eventsForwarded + 1 }
        | (outbox, none) => { s with sessions, outbox } := by
  have htally : (l.tally.addText (x.turn.text.getD "")).Knows x.before :=
    ⟨hk.tally.messages, hk.tally.artifacts⟩
  obtain ⟨sessions, hsessions⟩ := noteSession_snd (l := l) (s := s) x.agent x.turn
  refine ⟨sessions, ?_⟩
  simp only [hear, noteSession_fst, hsessions]
  cases hevent : x.turn.event with
  | none => simp [Heard.offer, hevent]
  | some e =>
    have hadmits := Tally.accept_snd htally (Tally.artifacts_countUsage x.turn.usage) e
    have husage := Tally.countUsage_snd htally x.turn.usage
    simp only [forward, hadmits, husage, hk.announce]
    cases hpass : x.admits e with
    | false => simp [Heard.offer, hevent, Option.filter, hpass]
    | true =>
      have hoffer : x.offer = some ⟨x.agent, x.session, e, x.turn.usage.filter x.counts⟩ := by
        simp [Heard.offer, hevent, Option.filter, hpass]
      simp only [hoffer, if_true]
      generalize s.outbox.enqueue h.courier x.agent x.session e _ = r
      obtain ⟨outbox, _ | number⟩ := r
      · rfl
      · rfl

/-! ## What turns leave alone -/

/-- To pass on an event leaves sessions and the store alone. -/
theorem forward_leaves (h : Host τ η κ δ) (agent : String) (event : Event) (usage : Option Usage) (l : Hearing)
    (s : RunState τ κ δ) :
    (h.forward agent event usage l s).1.sessionId = l.sessionId ∧
      (h.forward agent event usage l s).2.store = s.store ∧
      (h.forward agent event usage l s).2.sessions = s.sessions := by
  simp only [forward]
  split
  · split <;> exact ⟨rfl, rfl, rfl⟩
  · exact ⟨rfl, rfl, rfl⟩

/-- After a turn the session's id is the one that the turn announces, if it does. -/
theorem hear_sessionId (h : Host τ η κ δ) (agent : String) (t : Turn) :
    (h.hear agent t l s).1.sessionId = (t.announced <|> l.sessionId) := by
  rw [hear_fst]

/-- A turn touches nothing but the sessions that are remembered, the counters and the outbox. -/
theorem hear_touches (h : Host τ η κ δ) (agent : String) (t : Turn) :
    ∃ sessions counters outbox, (h.hear agent t l s).2 = { s with sessions, counters, outbox } := by
  obtain ⟨sessions, hnoted⟩ := noteSession_snd (l := l) (s := s) agent t
  simp only [hear, hnoted]
  cases t.event with
  | none => exact ⟨_, _, _, rfl⟩
  | some event =>
    simp only [forward]
    split
    · split
      · exact ⟨_, _, _, rfl⟩
      · exact ⟨_, _, _, rfl⟩
    · exact ⟨_, _, _, rfl⟩

section

variable {κ' : Type} {h : Host τ η κ δ} {h' : Host τ η κ' δ} (hcourier : h'.courier = h.courier) (f : κ' → κ)
  (agent : String) (t : Turn) (l : Hearing) (s : RunState τ κ' δ)

theorem noteSession_store :
    noteSession agent t l { s with store := f s.store } =
      ((noteSession agent t l s).1,
        { (noteSession agent t l s).2 with store := f (noteSession agent t l s).2.store }) := by
  unfold noteSession
  split
  · rfl
  · split <;> rfl

include hcourier

theorem forward_store (event : Event) (usage : Option Usage) :
    h.forward agent event usage l { s with store := f s.store } =
      ((h'.forward agent event usage l s).1,
        { (h'.forward agent event usage l s).2 with store := f (h'.forward agent event usage l s).2.store }) := by
  simp only [forward, hcourier]
  split
  · split <;> rfl
  · rfl

/-- A turn has nothing to do with the store, so it is heard alike over another one. -/
theorem hear_store :
    h.hear agent t l { s with store := f s.store } =
      ((h'.hear agent t l s).1, { (h'.hear agent t l s).2 with store := f (h'.hear agent t l s).2.store }) := by
  simp only [hear]
  rw [noteSession_store f]
  cases t.event with
  | none => rfl
  | some event => exact forward_store hcourier f agent _ _ event _

theorem takeTurn_store (take : τ → Except Failure Turn × τ) :
    h.takeTurn agent take l { s with store := f s.store } =
      ((h'.takeTurn agent take l s).1,
        { (h'.takeTurn agent take l s).2 with store := f (h'.takeTurn agent take l s).2.store }) := by
  simp only [takeTurn]
  cases htake : take s.backend with
  | mk r backend =>
    cases r with
    | error e => rfl
    | ok t => exact congrArg (fun r => (Except.ok (r.1, t, backend), r.2)) (hear_store hcourier f agent t l { s with backend })

end

/-- A turn may give its agent's session an id. It leaves other sessions and the store alone. -/
theorem hear_leaves (h : Host τ η κ δ) (agent : String) (t : Turn) :
    (h.hear agent t l s).2.store = s.store ∧
      ((h.hear agent t l s).2.sessions = s.sessions ∨
        ∃ id, (h.hear agent t l s).2.sessions = (s.remember agent id).sessions) := by
  have hnoted : (noteSession agent t l s).2 = s ∨ ∃ id, (noteSession agent t l s).2 = s.remember agent id := by
    unfold noteSession
    split
    · exact .inl rfl
    · split
      · exact .inl rfl
      · exact .inr ⟨_, rfl⟩
  -- Whether the turn has an event or not, what it changes here is changed when its id is noted.
  have hafter : (h.hear agent t l s).2.store = (noteSession agent t l s).2.store ∧
      (h.hear agent t l s).2.sessions = (noteSession agent t l s).2.sessions := by
    simp only [hear]
    cases t.event with
    | none => exact ⟨rfl, rfl⟩
    | some event => exact (h.forward_leaves agent event _ _ _).2
  rw [hafter.1, hafter.2]
  rcases hnoted with hsame | ⟨id, hid⟩
  · rw [hsame]
    exact ⟨rfl, .inl rfl⟩
  · rw [hid]
    exact ⟨rfl, .inr ⟨id, rfl⟩⟩

/-! ## Notes change nothing -/

theorem noteSession_forget (agent : String) (t : Turn) (l : Hearing)
    (s : RunState (τ × List Heard) κ δ) :
    (noteSession agent t l s).1 = (noteSession agent t l s.forget).1 ∧
      (noteSession agent t l s).2.forget = (noteSession agent t l s.forget).2 := by
  unfold noteSession
  split
  · exact ⟨rfl, rfl⟩
  · split
    · exact ⟨rfl, rfl⟩
    · exact ⟨rfl, rfl⟩

theorem forward_forget (h : Host τ η κ δ) (agent : String) (event : Event) (usage : Option Usage)
    (l : Hearing) (s : RunState (τ × List Heard) κ δ) :
    (h.noted.forward agent event usage l s).1 = (h.forward agent event usage l s.forget).1 ∧
      (h.noted.forward agent event usage l s).2.forget =
        (h.forward agent event usage l s.forget).2 := by
  simp only [forward, noted, RunState.forget]
  split
  · split
    · exact ⟨rfl, rfl⟩
    · exact ⟨rfl, rfl⟩
  · exact ⟨rfl, rfl⟩

/-- A turn is taken in alike with notes and without. -/
theorem hear_forget (h : Host τ η κ δ) (agent : String) (t : Turn) (l : Hearing)
    (s : RunState (τ × List Heard) κ δ) :
    (h.noted.hear agent t l s).1 = (h.hear agent t l s.forget).1 ∧
      (h.noted.hear agent t l s).2.forget = (h.hear agent t l s.forget).2 := by
  obtain ⟨hfst, hsnd⟩ := noteSession_forget agent t l s
  simp only [hear, hfst, ← hsnd]
  split
  · exact ⟨rfl, rfl⟩
  · exact forward_forget h agent _ _ _ _

end Host

end Playbook
