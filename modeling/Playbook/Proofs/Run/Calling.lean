import Playbook.Proofs.Run.Heard
import Playbook.Proofs.Run.Telling

/-!
# `Proofs.Run.Calling` — the stages of a session call

A session call finds out about the session that it may take up again, opens a session, reads its answer while the session may get
new ids, and at last leaves a record. What is to be shown of a call is given by its `Stages`: what holds before the session is open,
while it is open with an id, when the call is over, and when it has failed. Only two things that a call does are about sessions and
what is stored: to remember an id and to write the record. The rest is `Quiet`.

## Contents
- **Stages.** `Stages`, `Stages.Sound`.
- **The call.** `Stages.keeps_priorSession`, `Stages.keeps_listen`, `Stages.keeps_converse`, `Stages.keeps_call`.
-/

namespace Playbook

variable {τ η κ δ α β : Type}

/-! ## Stages -/

/-- What holds at the stages of a call for an agent. -/
structure Stages (τ κ δ : Type) where
  /-- No session is open yet. -/
  before : ToldState τ κ δ → Prop
  /-- A session is open, and this is its id, once it has one. -/
  held : Option String → ToldState τ κ δ → Prop
  /-- The call has failed. -/
  failed : ToldState τ κ δ → Prop
  /-- The call has gone well. -/
  ended : ToldState τ κ δ → Prop

namespace Stages

/-- A change that has nothing to do with bindings, sessions and the store. -/
structure Aside (w v : ToldState τ κ δ) : Prop where
  scope : v.scope = w.scope
  sessions : v.sessions = w.sessions
  written : v.counters.bindingsWritten = w.counters.bindingsWritten
  store : v.store = w.store

/-- A condition that others do not break, and quiet changes neither. -/
structure Lasts {h : Host τ η κ δ} (R : Rules h) (x : Place) (P : ToldState τ κ δ → Prop) :
    Prop where
  firm : (R.pact x).Firm P
  quiet : ∀ w v, Quiet h w v → v.journal = w.journal → P w → P v

/-- The state after a write to the store. -/
def putting (h : Host τ η κ δ) (key : String) (bytes : List UInt8) (mime : String)
    (w : ToldState τ κ δ) : ToldState τ κ δ :=
  { w with store := ((h.store.put key bytes mime w.store.1).2, w.store.2) }

/-- Stages through which a call for an agent goes, at a place that keeps the rules. -/
structure Sound {h : Host τ η κ δ} (R : Rules h) (x : Place) (agent : Agent) (title : String)
    (S : Stages τ κ δ) : Prop where
  before : Lasts R x S.before
  held : ∀ id, Lasts R x (S.held id)
  failed : Lasts R x S.failed
  /-- A session is opened, and has no id yet. -/
  opened : ∀ w, S.before w → S.held none w
  /-- An id is remembered, and maybe something else is done at once. -/
  remember : ∀ o id w v, S.held o w → Aside (w.remember agent.name id) v →
    S.held (some id) v ∧ (R.pact x).grant w v
  /-- The record is written, or refused. -/
  record : ∀ id now w, agent.persists → S.held (some id) w →
    let text := MemoryRecord.text ⟨id, h.context.principalId, agent.name, title, now⟩
    let bytes := Text.Utf8.encode text.toList
    let v := putting h (h.recordKey agent.name) bytes "text/markdown" w
    (R.pact x).grant w v ∧
      match (h.store.put (h.recordKey agent.name) bytes "text/markdown" w.store.1).1 with
      | .ok _ => S.ended v
      | .error _ => S.failed v
  /-- There is no record to write. -/
  unrecorded : ∀ o w, agent.persists = false ∨ o = none → S.held o w → S.ended w
  fails : ∀ w, S.before w → S.failed w
  breaks : ∀ o w, S.held o w → S.failed w

variable {h : Host τ η κ δ} {R : Rules h} {x : Place} {agent : Agent} {title : String}
  {S : Stages τ κ δ} {P : ToldState τ κ δ → Prop}

/-! ## Quiet work -/

/-- What holds after a script, if it gives a value and if it fails. -/
def After (P : α → ToldState τ κ δ → Prop) (Q : ToldState τ κ δ → Prop) :
    Except Failure α → ToldState τ κ δ → Prop
  | .ok a, w => P a w
  | .error _, w => Q w

/-- What holds after a script that does not fail. -/
abbrev Surely (P : α → ToldState τ κ δ → Prop) : Except Failure α → ToldState τ κ δ → Prop :=
  After P fun _ => False

section

variable {pact : Pact (ToldState τ κ δ)} {pre : ToldState τ κ δ → Prop} {s : ToldWork τ κ δ α}
  {s' : Work τ κ δ α} {P : α → ToldState τ κ δ → Prop} {Q : ToldState τ κ δ → Prop}

theorem keeps_seq {f : α → ToldWork τ κ δ β} {f' : α → Work τ κ δ β}
    {P' : β → ToldState τ κ δ → Prop} {Q' : ToldState τ κ δ → Prop}
    (hs : Script.Keeps RunState.plain pact pre s s' (After P Q))
    (hf : ∀ a, Script.Keeps RunState.plain pact (P a) (f a) (f' a) (After P' Q'))
    (hQ : ∀ w, Q w → Q' w) :
    Script.Keeps RunState.plain pact pre (s >>= f) (s' >>= f') (After P' Q') :=
  hs.bind hf fun _ => hQ

/-- A script that starts with a known value. -/
theorem keeps_known {a : α} {f : α → ToldWork τ κ δ β} {f' : α → Work τ κ δ β}
    {post : Except Failure β → ToldState τ κ δ → Prop}
    (hf : Script.Keeps RunState.plain pact pre (f a) (f' a) post) :
    Script.Keeps RunState.plain pact pre (Script.ofExcept (.ok a) >>= f)
      (Script.ofExcept (.ok a) >>= f') post :=
  hf

/-- A script that starts with a known failure. -/
theorem keeps_broken {e : Failure} {f : α → ToldWork τ κ δ β} {f' : α → Work τ κ δ β}
    {post : Except Failure β → ToldState τ κ δ → Prop} (hpost : ∀ w, pre w → post (.error e) w) :
    Script.Keeps RunState.plain pact pre (Script.ofExcept (.error e) >>= f)
      (Script.ofExcept (.error e) >>= f') post :=
  fun _ _ _ hnext => (hnext (.error e)).mono hpost

theorem keeps_hold (hs : Script.Keeps RunState.plain pact pre s s' (After P Q)) :
    Script.Keeps RunState.plain pact pre s.hold s'.hold (Surely (After P Q)) := by
  refine hs.hold.mono (fun _ hw => hw) ?_
  rintro r w ⟨a, rfl, hw⟩
  exact hw

end

theorem grant_quiet {w v : ToldState τ κ δ} (hquiet : Quiet h w v) (hjournal : v.journal = w.journal) :
    (R.pact x).grant w v :=
  ⟨Rules.obeys_of_quiet _ hquiet, [], by simp [hjournal], by simp⟩

theorem Aside.refl (w : ToldState τ κ δ) : Aside w w :=
  ⟨rfl, rfl, rfl, rfl⟩

theorem Aside.trans {u w v : ToldState τ κ δ} (huw : Aside u w) (hwv : Aside w v) : Aside u v :=
  ⟨hwv.scope.trans huw.scope, hwv.sessions.trans huw.sessions, hwv.written.trans huw.written,
    hwv.store.trans huw.store⟩

theorem Aside.quiet {w v : ToldState τ κ δ} (haside : Aside w v) : Quiet h w v :=
  ⟨haside.scope, haside.sessions, haside.written, .inl (by rw [haside.store]), [],
    by simp [RunState.journal, haside.store], by simp⟩

theorem Aside.journal {w v : ToldState τ κ δ} (haside : Aside w v) : v.journal = w.journal := by
  simp [RunState.journal, haside.store]

theorem Lasts.aside {w v : ToldState τ κ δ} (hlasts : Lasts R x P) (haside : Aside w v) (hw : P w) :
    P v :=
  hlasts.quiet w v haside.quiet haside.journal hw

/-- A step that changes nothing that the pact is about. -/
theorem keeps_act {f : ToldState τ κ δ → α × ToldState τ κ δ}
    {f' : RunState τ κ δ → α × RunState τ κ δ} {post : α → ToldState τ κ δ → Prop}
    (hview : ∀ w, f' w.plain = ((f w).1, (f w).2.plain)) (haside : ∀ w, Aside w (f w).2)
    (hpost : ∀ w, P w → post (f w).1 (f w).2) :
    Script.Keeps RunState.plain (R.pact x) P (Script.act f) (Script.act f') (Surely post) :=
  Script.Keeps.act (fun w _ => hview w)
    (fun w _ => grant_quiet (haside w).quiet (haside w).journal) hpost

theorem keeps_update {f : ToldState τ κ δ → ToldState τ κ δ} {f' : RunState τ κ δ → RunState τ κ δ}
    (hlasts : Lasts R x P) (hview : ∀ w, f' w.plain = (f w).plain) (haside : ∀ w, Aside w (f w)) :
    Script.Keeps RunState.plain (R.pact x) P (Script.update f) (Script.update f')
      (Surely fun _ => P) :=
  keeps_act (fun w => by rw [hview w]) haside fun w hw => hlasts.aside (haside w) hw

theorem keeps_pause {ms : ToldState τ κ δ → Nat} {ms' : RunState τ κ δ → Nat}
    (hlasts : Lasts R x P) (hview : ∀ w, ms' w.plain = ms w) :
    Script.Keeps RunState.plain (R.pact x) P (Script.pause ms) (Script.pause ms')
      (Surely fun _ => P) :=
  Script.Keeps.pause (fun w _ => hview w) hlasts.firm (fun _ hw => hw) fun _ hw => hw

/-- A call to the backend. -/
theorem keeps_perform (hlasts : Lasts R x P) (call : Backend.Call η) (f : τ → α × τ)
    {T : α → ToldState τ κ δ → Prop} (hT : ∀ w v, Aside w v → P w → T (f w.backend).1 v) :
    Script.Keeps RunState.plain (R.pact x) P (h.journaled.perform call f) (h.perform call f)
      (Surely T) := by
  refine keeps_seq (keeps_pause hlasts fun _ => rfl) (fun _ => ?_) fun _ => id
  exact keeps_act (fun w => rfl) (fun w => ⟨rfl, rfl, rfl, rfl⟩)
    fun w hw => hT w _ ⟨rfl, rfl, rfl, rfl⟩ hw

/-! ## The call -/

/-- The record of the agent is read. -/
theorem Sound.keeps_recorded (sound : S.Sound R x agent title) :
    Script.Keeps RunState.plain (R.pact x) S.before (h.journaled.recordedSession agent.name)
      (h.recordedSession agent.name) (After (fun _ => S.before) S.failed) := by
  let key := h.recordKey agent.name
  have hread : ∀ w : ToldState τ κ δ, S.before w →
      Quiet h w { w with store := ((h.store.get key w.store.1).2, w.store.2) } :=
    fun w _ => ⟨rfl, rfl, rfl, .inr ⟨key, rfl⟩, [], by simp [RunState.journal], by simp⟩
  have hget : Script.Keeps RunState.plain (R.pact x) S.before (h.journaled.storeGet key)
      (h.storeGet key) (After (fun _ => S.before) S.failed) := by
    refine keeps_seq (keeps_pause sound.before fun _ => rfl) (fun _ => ?_) fun _ => False.elim
    refine keeps_seq (P := fun _ => S.before) (Q := fun _ => False)
      (Script.Keeps.act (fun _ _ => rfl) ?_ ?_) (fun r => Script.Keeps.ofExcept ?_)
      fun _ => False.elim
    · intro w hw
      exact grant_quiet (hread w hw) rfl
    · intro w hw
      exact sound.before.quiet w _ (hread w hw) rfl hw
    · intro w hw
      cases r with
      | ok bytes => exact hw
      | error e => exact sound.fails w hw
  exact keeps_seq hget (fun bytes => Script.Keeps.pure fun w hw => hw) fun _ => id

/-- The session that may be taken up again is looked for. -/
theorem Sound.keeps_priorSession (sound : S.Sound R x agent title) (resume : Bool) :
    Script.Keeps RunState.plain (R.pact x) S.before (h.journaled.priorSession agent resume)
      (h.priorSession agent resume) (After (fun _ => S.before) S.failed) := by
  unfold Host.priorSession
  split
  · refine keeps_seq (Q := fun _ => False) (P := fun _ => S.before)
      (Script.Keeps.observe (fun w _ => rfl) fun _ hw => hw) (fun known => ?_) fun _ => False.elim
    cases known with
    | some id => exact Script.Keeps.pure fun w hw => hw
    | none => exact sound.keeps_recorded
  · exact Script.Keeps.pure fun w hw => hw

/-- A session is opened. -/
theorem Sound.keeps_openSession (sound : S.Sound R x agent title) (args : SessionArgs)
    (prior : Option String) :
    Script.Keeps RunState.plain (R.pact x) S.before (h.journaled.openSession args prior)
      (h.openSession args prior) (After (fun _ => S.before) S.before) := by
  unfold Host.openSession
  have hopen : ∀ (call : Backend.Call η) (f : τ → Except Failure η × τ),
      Script.Keeps RunState.plain (R.pact x) S.before
        (h.journaled.perform call f >>= Script.ofExcept) (h.perform call f >>= Script.ofExcept)
        (After (fun _ => S.before) S.before) := by
    intro call f
    refine keeps_seq (keeps_perform (T := fun _ => S.before) sound.before _ _
      fun w v haside hw => sound.before.aside haside hw) (fun r => ?_) fun _ => False.elim
    exact Script.Keeps.ofExcept fun w hw => by cases r <;> exact hw
  cases prior with
  | none =>
    exact keeps_seq (keeps_update sound.before (fun _ => rfl) fun w => ⟨rfl, rfl, rfl, rfl⟩)
      (fun _ => hopen _ _) fun _ => False.elim
  | some id =>
    exact keeps_seq (keeps_update sound.before (fun _ => rfl) fun w => ⟨rfl, rfl, rfl, rfl⟩)
      (fun _ => hopen _ _) fun _ => False.elim

/-- The id that is known when the session opens is kept. -/
theorem Sound.keeps_keepOpened (sound : S.Sound R x agent title) (id : Option String) :
    Script.Keeps RunState.plain (R.pact x) S.before (Host.keepOpened agent.name id)
      (Host.keepOpened agent.name id) (Surely fun _ => S.held id) := by
  cases id with
  | none => exact Script.Keeps.pure fun w hw => sound.opened w hw
  | some id =>
    refine Script.Keeps.update (fun _ _ => rfl) ?_ ?_
    · exact fun w hw => (sound.remember none id w _ (sound.opened w hw) (.refl _)).2
    · exact fun w hw => (sound.remember none id w _ (sound.opened w hw) (.refl _)).1

/-! ## Turns -/

theorem forward_aside (name : String) (event : Event) (usage : Option Usage) (l : Host.Hearing)
    (w : ToldState τ κ δ) :
    (h.journaled.forward name event usage l w).1.sessionId = l.sessionId ∧
      Aside w (h.journaled.forward name event usage l w).2 := by
  simp only [Host.forward]
  split
  · split
    · exact ⟨rfl, rfl, rfl, rfl, rfl⟩
    · exact ⟨rfl, rfl, rfl, rfl, rfl⟩
  · exact ⟨rfl, .refl w⟩

/-- All that a turn does besides giving the session an id is of no interest. -/
theorem hear_aside (name : String) (t : Turn) (l : Host.Hearing) (w : ToldState τ κ δ) :
    (h.journaled.hear name t l w).1.sessionId = (Host.noteSession name t l w).1.sessionId ∧
      Aside (Host.noteSession name t l w).2 (h.journaled.hear name t l w).2 := by
  simp only [Host.hear]
  cases t.event with
  | none => exact ⟨rfl, .refl _⟩
  | some event => exact forward_aside name event _ _ _

/-- A turn gives the session another id, or it changes nothing of interest. -/
theorem hear_cases (name : String) (t : Turn) (l : Host.Hearing) (w : ToldState τ κ δ) :
    (h.journaled.hear name t l w).1.sessionId = l.sessionId ∧
        Aside w (h.journaled.hear name t l w).2 ∨
      ∃ id, (h.journaled.hear name t l w).1.sessionId = some id ∧
        Aside (w.remember name id) (h.journaled.hear name t l w).2 := by
  obtain ⟨hid, haside⟩ := hear_aside (h := h) name t l w
  unfold Host.noteSession at hid haside
  cases hannounced : t.announced with
  | none =>
    rw [hannounced] at hid haside
    exact .inl ⟨hid, haside⟩
  | some id =>
    rw [hannounced] at hid haside
    by_cases hsame : l.sessionId = some id
    · simp only [if_pos hsame] at hid haside
      exact .inl ⟨hid, haside⟩
    · simp only [if_neg hsame] at hid haside
      exact .inr ⟨id, hid, haside⟩

/-- What the next turn of a stream leaves of a session that is open. -/
theorem Sound.takeTurn (sound : S.Sound R x agent title) {take : τ → Except Failure Turn × τ}
    {l : Host.Hearing} {w : ToldState τ κ δ}
    (hw : S.held l.sessionId w) :
    (R.pact x).grant w (h.journaled.takeTurn agent.name take l w).2 ∧
      match (h.journaled.takeTurn agent.name take l w).1 with
      | .ok (l', _, _) => S.held l'.sessionId (h.journaled.takeTurn agent.name take l w).2
      | .error _ => S.failed (h.journaled.takeTurn agent.name take l w).2 := by
  simp only [Host.takeTurn]
  cases hr : take w.backend with
  | mk r backend =>
    have haside : Aside w { w with backend } := ⟨rfl, rfl, rfl, rfl⟩
    cases r with
    | error e =>
      exact ⟨grant_quiet haside.quiet haside.journal,
        sound.breaks _ _ ((sound.held _).aside haside hw)⟩
    | ok t =>
      rcases hear_cases (h := h) agent.name t l { w with backend } with
        ⟨hid, hafter⟩ | ⟨id, hid, hafter⟩
      · have hboth : Aside w (h.journaled.hear agent.name t l { w with backend }).2 :=
          haside.trans hafter
        refine ⟨grant_quiet hboth.quiet hboth.journal, ?_⟩
        show S.held (h.journaled.hear agent.name t l { w with backend }).1.sessionId _
        rw [hid]
        exact (sound.held _).aside hboth hw
      · have hfirst : Aside (w.remember agent.name id)
            (RunState.remember agent.name id { w with backend }) := ⟨rfl, rfl, rfl, rfl⟩
        have hboth := hfirst.trans hafter
        obtain ⟨hheld, hgrant⟩ := sound.remember l.sessionId id w _ hw hboth
        refine ⟨hgrant, ?_⟩
        show S.held (h.journaled.hear agent.name t l { w with backend }).1.sessionId _
        rw [hid]
        exact hheld

/-- A stream is read, up to the first failure. -/
theorem Sound.keeps_listen (sound : S.Sound R x agent title) (stream : TurnStream τ)
    (l : Host.Hearing) :
    Script.Keeps RunState.plain (R.pact x) (S.held l.sessionId)
      (h.journaled.listen agent.name stream l) (h.listen agent.name stream l)
      (After (fun l' => S.held l'.sessionId) S.failed) := by
  induction stream generalizing l with
  | finished leave =>
    refine keeps_seq (keeps_update (sound.held l.sessionId) (fun _ => rfl)
      fun w => ⟨rfl, rfl, rfl, rfl⟩) (fun _ => ?_) fun _ => False.elim
    exact Script.Keeps.pure fun w hw => hw
  | next ms take rest ih =>
    refine keeps_seq (keeps_pause (sound.held l.sessionId) fun _ => rfl) (fun _ => ?_)
      fun _ => False.elim
    refine keeps_seq (P := fun (r : Except Failure (Host.Hearing × Turn × τ)) w => match r with
      | .ok (l', _, _) => S.held l'.sessionId w
      | .error _ => S.failed w) (Q := fun _ => False) ?_ (fun r => ?_) fun _ => False.elim
    · have hcourier : h.journaled.courier = h.courier := rfl
      refine Script.Keeps.act (fun w _ => Host.takeTurn_store hcourier Prod.fst agent.name l w take) ?_ ?_
      · exact fun w hw => (sound.takeTurn hw).1
      · exact fun w hw => (sound.takeTurn hw).2
    · refine keeps_seq (P := fun heard => S.held heard.1.sessionId) (Q := S.failed)
        (Script.Keeps.ofExcept ?_) (fun heard => ?_) fun _ => id
      · intro w hw
        cases r with
        | ok heard => exact hw
        | error e => exact hw
      · obtain ⟨l', t, backend⟩ := heard
        exact ih t backend l'

/-! ## The whole call -/

/-- After a conversation: an answer has been heard, or there is a failure. -/
def answered (S : Stages τ κ δ) (r : Except Failure Host.Hearing) (w : ToldState τ κ δ) : Prop :=
  match r with
  | .ok l => S.held l.sessionId w
  | .error _ => S.failed w

theorem Sound.lasts_answered (sound : S.Sound R x agent title)
    (r : Except Failure Host.Hearing) : Lasts R x (S.answered r) := by
  cases r with
  | ok l => exact sound.held l.sessionId
  | error e => exact sound.failed

/-- The answer is taken and read. -/
theorem Sound.keeps_readAnswer (sound : S.Sound R x agent title) (id : Option String)
    (session : η) :
    Script.Keeps RunState.plain (R.pact x) (S.held id)
      (h.journaled.readAnswer agent.name id session) (h.readAnswer agent.name id session)
      (Surely fun r => S.answered r.1) := by
  unfold Host.readAnswer
  refine keeps_seq (Q := fun _ => False) (P := fun _ => S.held id) (keeps_act (fun _ => rfl)
    (fun w => ⟨rfl, rfl, rfl, rfl⟩) fun w hw => (sound.held id).aside (w := w) ⟨rfl, rfl, rfl, rfl⟩ hw)
    (fun r => ?_) fun _ => False.elim
  obtain ⟨stream, session'⟩ := r
  cases stream with
  | error e => exact Script.Keeps.pure fun w hw => sound.breaks id w hw
  | ok stream =>
    refine keeps_seq (Q := fun _ => False) (P := S.answered)
      ((keeps_hold (sound.keeps_listen stream ⟨.empty, id⟩)).mono (fun _ hw => hw) ?_)
      (fun heard => Script.Keeps.pure fun w hw => hw) fun _ => False.elim
    intro r w hw
    cases r with
    | ok heard => cases heard <;> exact hw
    | error e => exact hw

/-- A session is sent its prompt, and its answer is read. -/
theorem Sound.keeps_converse (sound : S.Sound R x agent title) (prompt : String)
    (id : Option String) (session : η) :
    Script.Keeps RunState.plain (R.pact x) S.before
      (h.journaled.converse agent.name prompt id session) (h.converse agent.name prompt id session)
      (Surely fun r => S.answered r.1) := by
  unfold Host.converse
  refine keeps_seq (sound.keeps_keepOpened id) (fun _ => ?_) fun _ => False.elim
  refine keeps_seq (keeps_perform (T := fun (_ : Except Failure Unit × η) => S.held id)
    (sound.held id) _ _ fun w v haside hw => (sound.held id).aside haside hw) (fun r => ?_)
    fun _ => False.elim
  obtain ⟨sent, session'⟩ := r
  cases sent with
  | error e => exact Script.Keeps.pure fun w hw => sound.breaks id w hw
  | ok u => exact sound.keeps_readAnswer id session'

/-- The record is written. -/
theorem Sound.keeps_record (sound : S.Sound R x agent title) (id : String)
    (hpersists : agent.persists) :
    Script.Keeps RunState.plain (R.pact x) (S.held (some id))
      (h.journaled.record agent.name id title) (h.record agent.name id title)
      (After (fun _ => S.ended) S.failed) := by
  unfold Host.record
  refine keeps_seq (P := fun _ => S.held (some id)) (Q := fun _ => False)
    (Script.Keeps.observe (fun _ _ => rfl) fun _ hw => hw) (fun now => ?_) fun _ => False.elim
  refine keeps_seq (P := fun _ => S.ended) (Q := S.failed) ?_
    (fun _ => Script.Keeps.pure fun w hw => hw) fun _ => fun hw => hw
  refine keeps_seq (keeps_pause (sound.held (some id)) fun _ => rfl) (fun _ => ?_)
    fun _ => False.elim
  refine keeps_seq (Q := fun _ => False) (P := fun (r : Except Failure StoredContent) w => match r with
    | .ok _ => S.ended w
    | .error _ => S.failed w) (Script.Keeps.act (fun _ _ => rfl) ?_ ?_) (fun r => ?_)
    fun _ => False.elim
  · exact fun w hw => (sound.record id now w hpersists hw).1
  · exact fun w hw => (sound.record id now w hpersists hw).2
  · refine Script.Keeps.ofExcept fun w hw => ?_
    cases r with
    | ok receipt => exact hw
    | error e => exact hw

/-- The record is written, if there is one to write. -/
theorem Sound.keeps_recordHeard (sound : S.Sound R x agent title) (l : Host.Hearing) :
    Script.Keeps RunState.plain (R.pact x) (S.held l.sessionId)
      (h.journaled.recordHeard agent l title) (h.recordHeard agent l title)
      (After (fun _ => S.ended) S.failed) := by
  unfold Host.recordHeard
  cases hpersists : agent.persists with
  | false => exact Script.Keeps.pure fun w hw => sound.unrecorded _ w (.inl hpersists) hw
  | true =>
    cases hid : l.sessionId with
    | none => exact Script.Keeps.pure fun w hw => sound.unrecorded none w (.inr rfl) hw
    | some id => exact sound.keeps_record id hpersists

/-- A call goes through its stages. -/
theorem Sound.keeps_call {p : Program} {call : SessionCall} (resume : Bool)
    (sound : ∀ agent, p.agentFor call = .ok agent → S.Sound R x agent call.title)
    (hfails : ∀ w, S.before w → S.failed w) :
    Script.Keeps RunState.plain (R.pact x) S.before (h.journaled.callSession p call resume)
      (h.callSession p call resume) (After (fun _ => S.ended) S.failed) := by
  unfold Host.callSession
  cases hagent : p.agentFor call with
  | error e => exact keeps_broken hfails
  | ok agent =>
    have sound := sound agent hagent
    refine keeps_known (keeps_seq (sound.keeps_priorSession resume) (fun prior => ?_) fun _ => id)
    refine keeps_seq (P := fun _ => S.before) (Q := fun _ => False)
      (Script.Keeps.observe (fun _ _ => rfl) fun _ hw => hw) (fun prompt => ?_) fun _ => False.elim
    refine keeps_seq (keeps_hold (sound.keeps_openSession _ prior)) (fun opened => ?_)
      fun _ => False.elim
    cases opened with
    | error e => exact keeps_broken hfails
    | ok session =>
      refine keeps_known ?_
      refine keeps_seq (sound.keeps_converse prompt _ session) (fun r => ?_) fun _ => False.elim
      obtain ⟨answer, session'⟩ := r
      refine keeps_seq (keeps_perform (T := fun _ => S.answered answer)
        (sound.lasts_answered answer) _ _
        fun w v haside hw => (sound.lasts_answered answer).aside haside hw) (fun _ => ?_)
        fun _ => False.elim
      cases answer with
      | error e => exact keeps_broken fun w hw => hw
      | ok heard =>
        refine keeps_known ?_
        refine keeps_seq (keeps_update (sound.held heard.sessionId) (fun _ => rfl)
          fun w => ⟨rfl, rfl, rfl, rfl⟩) (fun _ => ?_) fun _ => False.elim
        exact keeps_seq (sound.keeps_recordHeard heard) (fun _ => Script.Keeps.pure fun w hw => hw)
          fun _ => id

end Stages

/-! ## What is told -/

namespace Rules

variable {h : Host τ η κ δ} {R : Rules h} {x y : Place} {p : Program}

/-- A call tells that it is made and answered, if it goes through its stages in between. -/
theorem tells_call {call : SessionCall} {resume : Bool} (S : Journal → Nat → Stages τ κ δ)
    (sound : ∀ L n agent, p.agentFor call = .ok agent → (S L n).Sound R x agent call.title)
    (hfails : ∀ L n w, (S L n).before w → (S L n).failed w)
    (hask : ∀ L w, R.Own x L w →
      (R.pact x).grant w (w.tell (.asked y w.journal.length call resume)) ∧
        (S L w.journal.length).before (w.tell (.asked y w.journal.length call resume)))
    (hended : ∀ L n text w, (S L n).ended w →
      (R.pact x).grant w (w.tell (.answered y n (.ok text))) ∧
        R.Own x (L ++ [.asked y n call resume, .answered y n (.ok text)])
          (w.tell (.answered y n (.ok text))))
    (hfailed : ∀ L n e w, (S L n).failed w →
      (R.pact x).grant w (w.tell (.answered y n (.error e))) ∧
        R.Own x (L ++ [.asked y n call resume, .answered y n (.error e)])
          (w.tell (.answered y n (.error e)))) :
    R.Tells x (h.tellCall p y call resume) (h.callSession p call resume) (Asked y call resume) := by
  intro L
  refine Script.Keeps.note (fun n => (S L n).before) (fun _ => rfl)
    (fun w hw => (hask L w hw).1) (fun w hw => (hask L w hw).2) fun n => ?_
  have hanswer : ∀ r w, Stages.After (fun _ => (S L n).ended) (S L n).failed r w →
      (R.pact x).grant w (w.tell (.answered y n r)) ∧
        R.Own x (L ++ [.asked y n call resume, .answered y n r]) (w.tell (.answered y n r)) := by
    intro r w hw
    cases r with
    | ok text => exact hended L n text w hw
    | error e => exact hfailed L n e w hw
  have hcall := Stages.Sound.keeps_call resume (sound L n) (hfails L n)
  refine Script.Keeps.noteAfter hcall (fun _ _ => rfl) (fun r w hw => (hanswer r w hw).1) ?_
  exact fun r w hw => ⟨_, .mk n r, (hanswer r w hw).2⟩

/-- The state after the number of a write is taken. -/
def numbered (y : Place) (name : String) (kind : BindingKind) (text : String)
    (w : ToldState τ κ δ) : ToldState τ κ δ :=
  let n := w.counters.bindingsWritten + 1
  (w.count fun c => { c with bindingsWritten := n }).tell (.writing y n name kind text)

/-- The answer of the store to a write. -/
def receiptOf (h : Host τ η κ δ) (n : Nat) (name text : String) (w : ToldState τ κ δ) :
    Except Failure StoredContent :=
  (h.store.put (Host.bindingKey h.context.runId name n) (Text.Utf8.encode text.toList)
    "text/plain" w.store.1).1

/-- The state after the answer of the store to a write. -/
def putText (h : Host τ η κ δ) (y : Place) (n : Nat) (name text : String) (w : ToldState τ κ δ) :
    ToldState τ κ δ :=
  { w with store := ((h.store.put (Host.bindingKey h.context.runId name n)
      (Text.Utf8.encode text.toList) "text/plain" w.store.1).2,
    w.store.2 ++ [.stored y n (receiptOf h n name text w)]) }

/-- The state after a name is bound. -/
def bindText (y : Place) (n : Nat) (name : String) (kind : BindingKind) (text : String)
    (receipt : StoredContent) (w : ToldState τ κ δ) : ToldState τ κ δ :=
  { w with scope := w.scope.bind (Host.bindingOf name kind text receipt) text }.tell
    (.bound y n (Host.bindingOf name kind text receipt) text)

/-- What holds when the store has answered a write: the text is kept, or all of the write is told. -/
def Settled (R : Rules h) (x y : Place) (name : String) (kind : BindingKind) (text : String)
    (kept : Journal → Nat → StoredContent → ToldState τ κ δ → Prop) (L : Journal) (n : Nat) :
    Except Failure StoredContent → ToldState τ κ δ → Prop
  | .ok receipt => kept L n receipt
  | .error e => R.Own x (L ++ [.writing y n name kind text, .stored y n (.error e)])

/-- The stages of a write: it has a number, and the text is stored. -/
structure Writes (R : Rules h) (x y : Place) (name : String) (kind : BindingKind) (text : String)
    (mid : Journal → Nat → ToldState τ κ δ → Prop)
    (kept : Journal → Nat → StoredContent → ToldState τ κ δ → Prop) : Prop where
  firm : ∀ L n, (R.pact x).Firm (mid L n)
  number : ∀ L w, R.Own x L w →
    (R.pact x).grant w (numbered y name kind text w) ∧
      mid L (w.counters.bindingsWritten + 1) (numbered y name kind text w)
  put : ∀ L n w, mid L n w →
    (R.pact x).grant w (putText h y n name text w) ∧
      Settled R x y name kind text kept L n (receiptOf h n name text w) (putText h y n name text w)
  bind : ∀ L n receipt w, kept L n receipt w →
    (R.pact x).grant w (bindText y n name kind text receipt w) ∧
      R.Own x (L ++ [.writing y n name kind text, .stored y n (.ok receipt),
        .bound y n (Host.bindingOf name kind text receipt) text])
        (bindText y n name kind text receipt w)

/-- The text of a write is stored, or refused. -/
theorem Writes.keeps_put {name text : String} {kind : BindingKind}
    {mid : Journal → Nat → ToldState τ κ δ → Prop}
    {kept : Journal → Nat → StoredContent → ToldState τ κ δ → Prop}
    (writes : Writes R x y name kind text mid kept) (L : Journal) (n : Nat) :
    Script.Keeps RunState.plain (R.pact x) (mid L n) (h.tellPut y n name text)
      (h.storePut (Host.bindingKey h.context.runId name n) (Text.Utf8.encode text.toList)
        "text/plain") (Settled R x y name kind text kept L n) := by
  refine Script.Keeps.bind (P := Stages.Surely fun _ => mid L n)
    (Script.Keeps.pause (fun _ _ => rfl) (writes.firm L n) (fun _ hw => hw) fun _ hw => hw)
    (fun _ => ?_) fun _ _ => False.elim
  refine Script.Keeps.bind (P := Stages.Surely (Settled R x y name kind text kept L n))
    (Script.Keeps.act (fun _ _ => rfl) ?_ ?_) (fun r => Script.Keeps.ofExcept fun _ hw => hw)
    fun _ _ => False.elim
  · exact fun w hw => (writes.put L n w hw).1
  · exact fun w hw => (writes.put L n w hw).2

/-- A write tells how far it has come, if it goes through its stages. -/
theorem tells_write {name text : String} {kind : BindingKind}
    {mid : Journal → Nat → ToldState τ κ δ → Prop}
    {kept : Journal → Nat → StoredContent → ToldState τ κ δ → Prop}
    (writes : Writes R x y name kind text mid kept) :
    R.Tells x (h.tellWrite y name kind text) (h.writeBinding name kind text)
      (Wrote y name kind text) := by
  intro L
  refine Script.Keeps.bind (P := Stages.Surely (mid L))
    (Script.Keeps.act (fun _ _ => rfl) ?_ ?_) (fun n => ?_) fun _ _ => False.elim
  · exact fun w hw => (writes.number L w hw).1
  · exact fun w hw => (writes.number L w hw).2
  · refine Script.Keeps.bind (writes.keeps_put L n) (fun receipt => ?_) ?_
    · refine Script.Keeps.update (fun _ _ => rfl) ?_ ?_
      · exact fun w hw => (writes.bind L n receipt w hw).1
      · exact fun w hw => ⟨_, .bound n receipt, (writes.bind L n receipt w hw).2⟩
    · exact fun e w hw => ⟨_, .refused n e, hw⟩

end Rules

end Playbook
