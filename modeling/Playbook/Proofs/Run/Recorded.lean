import Playbook.Proofs.Run.Resuming
import Playbook.Proofs.Run.Straight
import Playbook.Proofs.Run.Watching

/-!
# `Proofs.Run.Recorded` — what the records of a run say in the end

The record of an agent is written when a call for the agent is over, and by nothing else. So it says what the call said whose record
was the last to be written, whatever other calls, bindings and failures there were in between; and if there was no such call it says
what it said when the run began. The first call for an agent can know of no other session than the one in the record, since a run
knows of a session only if it has asked for one.

## Contents
- **Logs.** What another note changes.
- **The invariant.** `Left`, `Logged`, and what each kind of change leaves of it.
- **Asking.** `Logged.Fits`, `Logged.brings_priorSession`: which session is asked for; `Logged.ask`.
- **Hearing.** `Logged.Faithful`, `Logged.yields_listen`, `Logged.yields_converse`: a session's id after some turns.
- **Calls.** `Logged.leave`, `Logged.watches_record`, `Logged.heeds`.
-/

namespace Playbook

open Digest (Scheme)

variable {τ η κ δ α : Type}

/-! ## Logs -/

namespace Log

variable {l : Log} {agent : String}

theorem lasting_asks (agent : String) : Lasting (Asks · agent) := by
  rintro l m hlm ⟨resume, prior, hmem⟩
  exact ⟨resume, prior, hlm.subset hmem⟩

theorem firstRequest_concat (l : Log) (n : Note) (agent : String) :
    Log.firstRequest (l ++ [n]) agent = (l.firstRequest agent).or (n.request? agent) := by
  rw [firstRequest, List.findSome?_append, List.findSome?_singleton]
  rfl

theorem lastEnded_concat (l : Log) (n : Note) (agent : String) :
    Log.lastEnded (l ++ [n]) agent = (n.ended? agent).or (l.lastEnded agent) := by
  rw [lastEnded, List.filterMap_append]
  cases hn : n.ended? agent with
  | none =>
    rw [List.filterMap_cons_none hn, List.filterMap_nil, List.append_nil]
    rfl
  | some current =>
    rw [List.filterMap_cons_some hn, List.filterMap_nil, List.getLast?_concat]
    rfl

/-- If the backend was asked for a session of an agent, there was a first time. -/
theorem firstRequest_ne_none (h : l.Asks agent) : l.firstRequest agent ≠ none := by
  obtain ⟨resume, prior, hmem⟩ := h
  intro hnone
  have hrequest := List.findSome?_eq_none_iff.1 hnone _ hmem
  rw [Note.request?, if_pos rfl] at hrequest
  cases hrequest

/-- What was asked for first, after another request: it was asked for before, or it is this request that is the first. -/
theorem firstRequest_asked {other : String} {resume : Bool} {prior : Option String} {r : Bool × Option String}
    (h : Log.firstRequest (l ++ [.asked other resume prior]) agent = some r) :
    l.firstRequest agent = some r ∨ other = agent ∧ (resume, prior) = r ∧ ¬l.Asks agent := by
  rw [firstRequest_concat] at h
  cases hbefore : l.firstRequest agent with
  | some request =>
    rw [hbefore] at h
    exact .inl h
  | none =>
    rw [hbefore, Option.none_or, Note.request?] at h
    split at h
    · rename_i hother
      exact .inr ⟨hother, Option.some.inj h, fun hasks => firstRequest_ne_none hasks hbefore⟩
    · cases h

end Log

/-! ## The invariant -/

/-- What the record of an agent says if it said something before and a session was the last whose record was written. -/
inductive Left (h : Host τ η κ δ) (agent : String) (before : Option (List UInt8)) :
    Option (Option String) → Option (List UInt8) → Prop where
  | untouched : Left h agent before none before
  | named (id title : String) (now : Timestamp) :
      Left h agent before (some (some id)) (some (h.recordBytes agent id title now))

/-- What is noted of sessions and records, if this is what was stored when the run began. -/
structure Logged (h : Host τ η κ δ) (p : Program) (content : κ → MemoryStore) (start : MemoryStore)
    (w : WatchState τ κ δ) : Prop where
  /-- The run knows only sessions of agents for which it has asked. -/
  known : ∀ agent id, w.sessions.get? agent = some id → w.log.Asks agent
  /-- The run has written only records of agents for which it has asked. -/
  ended : ∀ agent current, w.log.lastEnded agent = some current → w.log.Asks agent
  record : ∀ agent, Left h agent (start.get? (h.recordKey agent)) (w.log.lastEnded agent)
    ((content w.store.1).get? (h.recordKey agent))
  /-- What is resumed first is the session in the record. -/
  first : ∀ agent a prior, p.agent? agent = some a → a.persists →
    w.log.firstRequest agent = some (true, prior) →
      prior = (start.get? (h.recordKey agent)).bind sessionIdOfBytes?

namespace Logged

variable {h : Host τ η κ δ} {p : Program} {content : κ → MemoryStore} {start : MemoryStore}
  {scheme : Scheme} {w v : WatchState τ κ δ} {agent : Agent}

/-- Where the records say what they said when the run began. -/
theorem of_fresh (h : Host τ η κ δ) (p : Program) (content : κ → MemoryStore) (inputs : KeyMap String) (backend : τ)
    (store : κ) (sink : δ) :
    Logged h p content (content store) (h.watchStart p inputs (.fresh backend store sink)) where
  known _ _ hid := by cases hid
  ended _ _ hcurrent := by cases hcurrent
  record _ := .untouched
  first _ _ _ _ _ hfirst := by cases hfirst

/-- A change that has nothing to do with sessions and records. -/
theorem of_same (hw : Logged h p content start w) (hsessions : v.sessions = w.sessions) (hlog : v.log = w.log)
    (hrecords : ∀ agent, (content v.store.1).get? (h.recordKey agent) = (content w.store.1).get? (h.recordKey agent)) :
    Logged h p content start v := by
  refine ⟨?_, ?_, fun agent => ?_, ?_⟩
  · rw [hsessions, hlog]
    exact hw.known
  · rw [hlog]
    exact hw.ended
  · rw [hlog, hrecords]
    exact hw.record agent
  · rw [hlog]
    exact hw.first

theorem unmoved (hstore : h.store.InMemory scheme content) : Unmoved h (Logged h p content start) := by
  intro w v hcalm hw
  refine hw.of_same hcalm.sessions hcalm.log fun agent => ?_
  rcases hcalm.store with hsame | ⟨key, hread⟩
  · rw [hsame]
  · rw [hread, (hstore.get key w.store.1).1]

/-- The text of a binding is written. -/
theorem put (hstore : h.store.InMemory scheme content) (hw : Logged h p content start w) (name : String) (n : Nat)
    (bytes : List UInt8) :
    Logged h p content start
      { w with store := ((h.store.put (Host.bindingKey h.context.runId name n) bytes "text/plain" w.store.1).2, w.store.2) } :=
  hw.of_same rfl rfl fun _ => hstore.get?_put_of_ne (bindingKey_ne_memoryKey _ _ _ _ _ _).symm bytes "text/plain" w.store.1

/-- The session of an agent is remembered, for which the backend has been asked. -/
theorem remember (hw : Logged h p content start w) {name : String} (hasks : w.log.Asks name) (id : String) :
    Logged h p content start (w.remember name id) where
  known other id' hother := by
    by_cases heq : other = name
    · exact heq ▸ hasks
    · refine hw.known other id' ?_
      rwa [RunState.remember, KeyMap.get?_insert_of_ne heq] at hother
  ended := hw.ended
  record := hw.record
  first := hw.first

/-! ## Asking -/

/-- A session that an agent may be asked to resume: the one in its record, unless the backend has been asked before. -/
def Fits (h : Host τ η κ δ) (start : MemoryStore) (agent : Agent) (resume : Bool) (prior : Option String) (l : Log) :
    Prop :=
  resume → agent.persists →
    l.Asks agent.name ∨ prior = (start.get? (h.recordKey agent.name)).bind sessionIdOfBytes?

/-- The backend is asked for a session. -/
theorem ask (hw : Logged h p content start w) (hnamed : Program.Parser.Named p.agents) {call : SessionCall}
    (hfor : p.agentFor call = .ok agent) {resume : Bool} {prior : Option String}
    (hfits : Fits h start agent resume prior w.log) :
    Logged h p content start (w.note (.asked agent.name resume prior)) := by
  have hgrows : w.log <+: (w.note (.asked agent.name resume prior)).log := List.prefix_append _ _
  have hlast : ∀ name, (w.note (.asked agent.name resume prior)).log.lastEnded name = w.log.lastEnded name :=
    fun name => Log.lastEnded_concat w.log _ name
  refine ⟨fun name id hid => ?_, fun name current hcurrent => ?_, fun name => ?_, fun name a prior' ha hpersists hfirst => ?_⟩
  · exact Log.lasting_asks name _ _ hgrows (hw.known name id hid)
  · rw [hlast] at hcurrent
    exact Log.lasting_asks name _ _ hgrows (hw.ended name current hcurrent)
  · rw [hlast]
    exact hw.record name
  · rcases Log.firstRequest_asked hfirst with hbefore | ⟨rfl, hrequest, hnever⟩
    · exact hw.first name a prior' ha hpersists hbefore
    · -- The call is for the agent that the program has by this name, so whether it persists is known.
      cases hrequest
      have hagent : a = agent := by
        rcases Program.agentFor_cases hnamed hfor with hsome | ⟨_, hnone⟩
        · exact Option.some.inj (ha.symm.trans hsome)
        · rw [ha] at hnone
          cases hnone
      exact (hfits rfl (hagent ▸ hpersists)).resolve_left hnever

/-- What is found in the record of an agent, as long as the backend has not been asked. -/
theorem found (hstore : h.store.InMemory scheme content) (hw : Logged h p content start w) (name : String)
    {bytes : Option (List UInt8)} (hread : (h.store.get (h.recordKey name) w.store.1).1 = .ok bytes) :
    w.log.Asks name ∨ bytes = start.get? (h.recordKey name) := by
  have hrecord := hw.record name
  cases hended : w.log.lastEnded name with
  | some current => exact .inl (hw.ended name current hended)
  | none =>
    -- No call has written the record, so it is as it was.
    rw [hended] at hrecord
    rw [hstore.eq_of_get_ok hread]
    generalize (content w.store.1).get? (h.recordKey name) = record at hrecord
    cases hrecord
    exact .inr rfl

/-- The record of an agent is read. -/
theorem brings_recordedSession (hstore : h.store.InMemory scheme content) (name : String) :
    Brings (Logged h p content start) Always
      (fun prior l => l.Asks name ∨ prior = (start.get? (h.recordKey name)).bind sessionIdOfBytes?)
      (h.watched.recordedSession name) (h.recordedSession name) := by
  have hcalm : ∀ w : WatchState τ κ δ, Calm h w
      { w with store := ((h.store.get (h.recordKey name) w.store.1).2, w.store.2) } :=
    fun _ => ⟨rfl, rfl, .inr ⟨_, rfl⟩⟩
  have hread : Brings (Logged h p content start) Always
      (fun r l => ∀ bytes, r = .ok bytes → l.Asks name ∨ bytes = start.get? (h.recordKey name))
      (Script.act fun w => (h.watched.store.get (h.recordKey name) w.store).map id fun store => { w with store })
      (Script.act fun w => (h.store.get (h.recordKey name) w.store).map id fun store => { w with store }) := by
    refine Script.Keeps.act (fun _ _ => rfl) (fun w _ => ?_) fun w hw => ⟨?_, ?_⟩
    · exact ⟨unmoved hstore w _ (hcalm w), List.prefix_refl _⟩
    · exact unmoved hstore w _ (hcalm w) hw.1
    · intro r hr bytes hbytes
      exact hw.1.found hstore name ((Except.ok.inj hr).trans hbytes)
  have hget : Brings (Logged h p content start) Always
      (fun bytes l => l.Asks name ∨ bytes = start.get? (h.recordKey name)) (h.watched.storeGet (h.recordKey name))
      (h.storeGet (h.recordKey name)) :=
    .bind (.of_watches (Watches.pause lasting_always fun _ => rfl)) fun _ =>
      .bind hread fun r => .ofExcept fun l bytes hr => hr bytes
  refine .bind hget fun bytes => .pure fun l hbytes => ?_
  exact hbytes.imp id (congrArg (Option.bind · sessionIdOfBytes?))

/-- The session that may be taken up again is looked for. -/
theorem brings_priorSession (hstore : h.store.InMemory scheme content) (resume : Bool) :
    Brings (Logged h p content start) Always (Fits h start agent resume) (h.watched.priorSession agent resume)
      (h.priorSession agent resume) := by
  unfold Host.priorSession
  split
  · have hknown : Brings (Logged h p content start) Always (fun known l => ∀ id, known = some id → l.Asks agent.name)
        (Script.observe fun w : WatchState τ κ δ => w.sessions.get? agent.name)
        (Script.observe fun w : RunState τ κ δ => w.sessions.get? agent.name) := by
      refine Script.Keeps.observe (fun _ _ => rfl) fun w hw => ⟨hw.1, ?_⟩
      rintro _ ⟨⟩ id hid
      exact hw.1.known agent.name id hid
    refine .bind hknown fun known => ?_
    cases known with
    -- Of a session that the run knows nothing need be said: it is not the first for which the backend is asked.
    | some id => exact .pure fun l hasks _ _ => .inl (hasks id rfl)
    | none =>
      refine (brings_recordedSession hstore agent.name).mono (fun w hw => ⟨hw.1, trivial⟩) fun r w hw => ⟨hw.1, ?_⟩
      exact fun prior hprior _ _ => hw.2 prior hprior
  · rename_i hresume
    refine .pure fun l _ hresume' hpersists => ?_
    exact absurd (by simp [hresume', hpersists]) hresume

/-! ## Hearing -/

/-- The id that is known when the session opens is kept. -/
theorem watches_keepOpened (name : String) (id : Option String) :
    Watches (Logged h p content start) (Log.Asks · name) (Host.keepOpened name id) (Host.keepOpened name id) := by
  cases id with
  | none => exact Watches.pure ()
  | some id =>
    refine Script.Keeps.update (fun _ _ => rfl) (fun w hw => ⟨fun _ => ?_, List.prefix_refl _⟩) fun w hw => ⟨?_, hw.2⟩
    · exact hw.1.remember hw.2 id
    · exact hw.1.remember hw.2 id

/-- A turn is heard. -/
theorem hear (hstore : h.store.InMemory scheme content) {name : String} (hasks : w.log.Asks name)
    (hw : Logged h p content start w) (t : Turn) (l : Host.Hearing) :
    Logged h p content start (h.watched.hear name t l w).2 ∧ (h.watched.hear name t l w).2.log = w.log := by
  obtain ⟨hsame, hsessions⟩ := Host.hear_leaves (l := l) (s := w) h.watched name t
  have hlog : (h.watched.hear name t l w).2.log = w.log := congrArg Prod.snd hsame
  refine ⟨?_, hlog⟩
  rcases hsessions with hnone | ⟨id, hid⟩
  · exact unmoved hstore w _ ⟨hnone, hlog, .inl (congrArg Prod.fst hsame)⟩ hw
  · exact unmoved hstore _ _ ⟨hid, hlog, .inl (congrArg Prod.fst hsame)⟩ (hw.remember hasks id)

/-- A turn is taken. -/
theorem yields_takeTurn (hstore : h.store.InMemory scheme content) (name : String)
    (take : τ → Except Failure Turn × τ) (l : Host.Hearing) :
    Yields (Logged h p content start) (Log.Asks · name) id
      (fun r => ∀ heard, r = .ok heard → heard.1.sessionId = (heard.2.1.announced <|> l.sessionId))
      (Script.act (h.watched.takeTurn name take l)) (Script.act (h.takeTurn name take l)) := by
  have hcourier : h.watched.courier = h.courier := rfl
  have htaken : ∀ w : WatchState τ κ δ, Holds (Logged h p content start) (Log.Asks · name) w →
      Logged h p content start (h.watched.takeTurn name take l w).2 ∧ (h.watched.takeTurn name take l w).2.log = w.log ∧
        ∀ heard, (h.watched.takeTurn name take l w).1 = .ok heard →
          heard.1.sessionId = (heard.2.1.announced <|> l.sessionId) := by
    intro w hw
    simp only [Host.takeTurn]
    cases take w.backend with
    | mk r backend =>
      have hleft : Logged h p content start { w with backend } := unmoved hstore w _ ⟨rfl, rfl, .inl rfl⟩ hw.1
      cases r with
      | error e =>
        refine ⟨hleft, rfl, ?_⟩
        rintro _ ⟨⟩
      | ok t =>
        obtain ⟨hheard, hlog⟩ := hear (w := { w with backend }) hstore hw.2 hleft t l
        refine ⟨hheard, hlog, ?_⟩
        rintro _ ⟨⟩
        exact Host.hear_sessionId h.watched name t
  refine .of_keeps (Script.Keeps.act (fun w _ => Host.takeTurn_store hcourier Prod.fst name l w take) ?_ ?_)
  · intro w hw
    obtain ⟨hlogged, hlog, _⟩ := htaken w hw
    exact ⟨fun _ => hlogged, hlog ▸ List.prefix_refl _⟩
  · intro w hw
    obtain ⟨hlogged, hlog, hid⟩ := htaken w hw
    refine ⟨⟨hlogged, ?_⟩, ?_⟩
    · rw [hlog]
      exact hw.2
    · rintro _ ⟨⟩
      exact hid

/-- What is known of the session that was heard: its id is the one that the last of its turns left it. -/
def Faithful (opened : Option String) (r : Host.Hearing × List Turn) : Prop :=
  r.1.sessionId = sessionAfter opened r.2

theorem Faithful.turn {opened : Option String} {turns : List Turn} {l l' : Host.Hearing} {t : Turn}
    (h : Faithful opened (l, turns)) (hl : l'.sessionId = (t.announced <|> l.sessionId)) :
    Faithful opened (l', turns ++ [t]) := by
  unfold Faithful sessionAfter at h ⊢
  simp only at h ⊢
  rw [hl, h, List.filterMap_append]
  cases hannounced : t.announced with
  | none => simp [hannounced]
  | some id => simp [hannounced]

/-- A stream is read, up to the first failure. -/
theorem yields_listen (hstore : h.store.InMemory scheme content) (name : String) {opened : Option String}
    (stream : TurnStream τ) {turns : List Turn} {l : Host.Hearing} (hl : Faithful opened (l, turns)) :
    Yields (Logged h p content start) (Log.Asks · name) Prod.fst (Faithful opened)
      (h.watchListen name stream turns l) (h.listen name stream l) := by
  -- The turns before are kept along, so that the hypothesis is about all of them and not about the rest of the stream.
  induction stream generalizing turns l with
  | finished leave =>
    exact .bind (.of_watches (Watches.update (unmoved hstore) (fun _ => rfl) fun _ => ⟨rfl, rfl, .inl rfl⟩))
      fun _ _ => .pure hl
  | next ms take rest ih =>
    refine .bind (.of_watches (Watches.pause (Log.lasting_asks name) fun _ => rfl)) fun _ _ => ?_
    refine .bind (yields_takeTurn hstore name take l) fun r hr => .bind (.ofExcept r) fun heard hheard => ?_
    obtain ⟨l', t, backend⟩ := heard
    exact ih t backend (hl.turn (hr _ hheard))

/-- What a conversation gives that is watched: what was heard, with all turns, and the session for closing. -/
abbrev unheard (r : Except Failure (Host.Hearing × List Turn) × η) : Except Failure Host.Hearing × η :=
  (r.1.map Prod.fst, r.2)

/-- The answer is taken and read. -/
theorem yields_answer (hstore : h.store.InMemory scheme content) (name : String) (opened : Option String)
    (session : η) :
    Yields (Logged h p content start) (Log.Asks · name) unheard (fun r => ∀ heard, r.1 = .ok heard → Faithful opened heard)
      (h.watchAnswer name opened session) (h.readAnswer name opened session) := by
  refine .bind (.of_watches (Watches.quiet (unmoved hstore) (fun _ => rfl) fun _ => ⟨rfl, rfl, .inl rfl⟩)) fun r _ => ?_
  obtain ⟨stream, session'⟩ := r
  cases stream with
  | error e =>
    refine .pure ?_
    rintro _ ⟨⟩
  | ok stream =>
    exact .bind (yields_listen hstore name stream (by simp [Faithful, sessionAfter])).hold fun r hr => .pure hr

/-- A session is sent its prompt, and its answer is read. -/
theorem yields_converse (hstore : h.store.InMemory scheme content) (name prompt : String) (opened : Option String)
    (session : η) :
    Yields (Logged h p content start) (Log.Asks · name) unheard (fun r => ∀ heard, r.1 = .ok heard → Faithful opened heard)
      (h.watchConverse name prompt opened session) (h.converse name prompt opened session) := by
  refine .bind (.of_watches (watches_keepOpened name opened)) fun _ _ => ?_
  refine .bind (.of_watches (Watches.perform (unmoved hstore) (Log.lasting_asks name) _ _)) fun r _ => ?_
  obtain ⟨sent, session'⟩ := r
  cases sent with
  | error e =>
    refine .pure ?_
    rintro _ ⟨⟩
  | ok _ => exact yields_answer hstore name opened session'

/-! ## Calls -/

/-- The record of an agent is written. -/
theorem leave (hstore : h.store.InMemory scheme content) (hw : Logged h p content start w) {name id title : String}
    {opened : Option String} {turns : List Turn} {now : Timestamp} {receipt : StoredContent} {store : κ}
    (hasks : w.log.Asks name) (hid : sessionAfter opened turns = some id)
    (hput : h.store.put (h.recordKey name) (h.recordBytes name id title now) "text/markdown" w.store.1 =
      (.ok receipt, store)) :
    Logged h p content start { w with store := (store, w.store.2 ++ [.recorded name opened turns]) } := by
  have hcontent := hstore.content_put_ok (congrArg Prod.fst hput)
  rw [hput] at hcontent
  have hgrows : w.log <+: w.log ++ [.recorded name opened turns] := List.prefix_append _ _
  have hlast : ∀ other, Log.lastEnded (w.log ++ [.recorded name opened turns]) other =
      (if name = other then some (some id) else none).or (w.log.lastEnded other) := by
    intro other
    rw [Log.lastEnded_concat, Note.ended?, hid]
  refine ⟨fun other id' hid' => ?_, fun other current hcurrent => ?_, fun other => ?_,
    fun other a prior ha hpersists hfirst => ?_⟩
  · exact Log.lasting_asks other _ _ hgrows (hw.known other id' hid')
  · refine Log.lasting_asks other _ _ hgrows ?_
    have hcurrent := (hlast other).symm.trans hcurrent
    split at hcurrent
    · rename_i heq
      exact heq ▸ hasks
    · exact hw.ended other current hcurrent
  · show Left h other _ (Log.lastEnded (w.log ++ [.recorded name opened turns]) other) ((content store).get? _)
    rw [hlast, hcontent]
    split
    · rename_i heq
      rw [← heq, KeyMap.get?_insert_self]
      exact .named id title now
    · -- The records of other agents lie under other keys.
      rename_i hne
      have hkeys : h.recordKey other ≠ h.recordKey name := fun heq => hne (memoryKey_inj heq).symm
      rw [KeyMap.get?_insert_of_ne hkeys]
      exact hw.record other
  · refine hw.first other a prior ha hpersists ?_
    have hsame := Log.firstRequest_concat w.log (.recorded name opened turns) other
    rw [Note.request?, Option.or_none] at hsame
    exact hsame.symm.trans hfirst

/-- The record of an agent is refused. -/
theorem refuse (hstore : h.store.InMemory scheme content) (hw : Logged h p content start w) {key : String}
    {bytes : List UInt8} {mime : String} {e : Failure} {store : κ}
    (hput : h.store.put key bytes mime w.store.1 = (.error e, store)) :
    Logged h p content start { w with store := (store, w.store.2) } := by
  refine hw.of_same rfl rfl fun agent => ?_
  have hcontent := hstore.content_put_error (congrArg Prod.fst hput)
  rw [hput] at hcontent
  exact congrArg (KeyMap.get? · (h.recordKey agent)) hcontent

theorem putNoted_fst (key : String) (bytes : List UInt8) (n : Note) (w : WatchState τ κ δ) :
    (h.putNoted key bytes n w).1 = (h.store.put key bytes "text/markdown" w.store.1).1 := by
  unfold Host.putNoted
  cases h.store.put key bytes "text/markdown" w.store.1 with
  | mk r store => cases r <;> rfl

theorem putNoted_unwatched (key : String) (bytes : List UInt8) (n : Note) (w : WatchState τ κ δ) :
    (h.putNoted key bytes n w).2.unwatched =
      { w.unwatched with store := (h.store.put key bytes "text/markdown" w.store.1).2 } := by
  unfold Host.putNoted
  cases h.store.put key bytes "text/markdown" w.store.1 with
  | mk r store => cases r <;> rfl

/-- A record is written and noted, or it is refused. -/
theorem putNoted (hstore : h.store.InMemory scheme content) (hw : Logged h p content start w) {name id : String}
    (title : String) (now : Timestamp) {opened : Option String} {turns : List Turn} (hasks : w.log.Asks name)
    (hid : sessionAfter opened turns = some id) :
    Logged h p content start (h.putNoted (h.recordKey name) (h.recordBytes name id title now)
        (.recorded name opened turns) w).2 ∧
      w.log <+: (h.putNoted (h.recordKey name) (h.recordBytes name id title now) (.recorded name opened turns) w).2.log := by
  unfold Host.putNoted
  split
  · rename_i receipt store hput
    exact ⟨hw.leave hstore hasks hid hput, List.prefix_append _ _⟩
  · rename_i e store hput
    exact ⟨hw.refuse hstore hput, List.prefix_refl _⟩

/-- A record is left of a session, and noted. -/
theorem watches_record (hstore : h.store.InMemory scheme content) (name : String) {id : String} (title : String)
    {opened : Option String} {turns : List Turn} (hid : sessionAfter opened turns = some id) :
    Watches (Logged h p content start) (Log.Asks · name) (h.watchRecord name id title opened turns)
      (h.record name id title) := by
  refine Watches.bind (Watches.observe fun _ => rfl) fun now => Watches.bind ?_ fun _ => Watches.pure ()
  refine Watches.bind (Watches.pause (Log.lasting_asks name) fun _ => rfl) fun _ =>
    Watches.bind (Script.Keeps.act (fun w _ => ?_) (fun w hw => ?_) fun w hw => ?_) fun r => Watches.ofExcept r
  · rw [putNoted_fst, putNoted_unwatched]
    rfl
  · obtain ⟨hlogged, hgrows⟩ := hw.1.putNoted hstore title now hw.2 hid
    exact ⟨fun _ => hlogged, hgrows⟩
  · obtain ⟨hlogged, hgrows⟩ := hw.1.putNoted hstore title now hw.2 hid
    exact ⟨hlogged, Log.lasting_asks name _ _ hgrows hw.2⟩

/-- A record is left of a session that was heard to its end, if there is one to leave. -/
theorem watches_recordHeard (hstore : h.store.InMemory scheme content) (agent : Agent) {l : Host.Hearing}
    (title : String) {opened : Option String} {turns : List Turn} (hl : Faithful opened (l, turns)) :
    Watches (Logged h p content start) (Log.Asks · agent.name) (h.watchRecordHeard agent l title opened turns)
      (h.recordHeard agent l title) := by
  unfold Host.watchRecordHeard Host.recordHeard
  cases agent.persists with
  | false => exact Watches.pure ()
  | true =>
    cases hid : l.sessionId with
    | none => exact Watches.pure ()
    | some id => exact watches_record hstore agent.name title (hl.symm.trans hid)

/-- A session is opened. -/
theorem watches_openSession (hstore : h.store.InMemory scheme content) (name : String) (args : SessionArgs)
    (prior : Option String) :
    Watches (Logged h p content start) (Log.Asks · name) (h.watched.openSession args prior)
      (h.openSession args prior) := by
  have hcount : ∀ f : Counters → Counters, Watches (Logged h p content start) (Log.Asks · name)
      (Script.update (·.count f)) (Script.update (·.count f)) :=
    fun _ => Watches.update (unmoved hstore) (fun _ => rfl) fun _ => ⟨rfl, rfl, .inl rfl⟩
  unfold Host.openSession
  cases prior with
  | some id => exact (hcount _).bind fun _ =>
      (Watches.perform (unmoved hstore) (Log.lasting_asks name) _ _).bind fun r => Watches.ofExcept r
  | none => exact (hcount _).bind fun _ =>
      (Watches.perform (unmoved hstore) (Log.lasting_asks name) _ _).bind fun r => Watches.ofExcept r

/-- Facts are added to failures only. -/
theorem withFacts_map (facts : List (String × String)) (r : Except Failure (Host.Hearing × List Turn)) :
    Host.withFacts facts (r.map Prod.fst) = (Host.withFacts facts r).map Prod.fst := by
  cases r <;> rfl

theorem withFacts_eq_ok {facts : List (String × String)} {r : Except Failure α} {a : α}
    (h : Host.withFacts facts r = .ok a) : r = .ok a := by
  cases r with
  | ok b => exact h
  | error e => cases h

/-- The answer of a session is heard. -/
theorem yields_hear (hstore : h.store.InMemory scheme content) (agent : Agent) (title prompt : String)
    (opened : Option String) (session : η) :
    Yields (Logged h p content start) (Log.Asks · agent.name) Prod.fst (Faithful opened)
      (h.watchHear agent title prompt opened session) (h.hearSession agent title prompt opened session) := by
  refine .bind (yields_converse hstore agent.name prompt opened session) fun r hr => ?_
  obtain ⟨answer, session'⟩ := r
  refine .bind (.of_watches (Watches.perform (unmoved hstore) (Log.lasting_asks agent.name) _ _)) fun _ _ => ?_
  simp only [withFacts_map]
  refine .bind (.ofExcept_map _) fun heard hheard => ?_
  obtain ⟨l, turns⟩ := heard
  refine .bind (.of_watches (Watches.update (unmoved hstore) (fun _ => rfl) fun _ => ⟨rfl, rfl, .inl rfl⟩)) fun _ _ => ?_
  exact .pure (hr _ (withFacts_eq_ok hheard))

/-- A session is opened, its answer is heard, and a record is left. -/
theorem watches_session (hstore : h.store.InMemory scheme content) (agent : Agent) (title prompt : String)
    (prior : Option String) :
    Watches (Logged h p content start) (Log.Asks · agent.name) (h.watchSession agent title prompt prior)
      (h.askSession agent title prompt prior) := by
  unfold Host.watchSession Host.askSession
  refine Watches.bind (watches_openSession hstore agent.name _ prior).hold fun opened => ?_
  cases opened with
  | error e => exact Watches.ofExcept (.error _)
  | ok session =>
    refine Watches.known (Yields.watches (F := fun _ => True) ?_)
    refine .bind (yields_hear hstore agent title prompt _ session) fun heard hheard => .of_watches ?_
    exact Watches.bind (watches_recordHeard hstore agent title hheard) fun _ => Watches.pure _

/-- A call asks for a session, and notes this. -/
theorem watches_call (hstore : h.store.InMemory scheme content) (hnamed : Program.Parser.Named p.agents)
    (call : SessionCall) (resume : Bool) :
    Watches (Logged h p content start) Always (h.watchCall p call resume) (h.callSession p call resume) := by
  rw [Host.callSession_eq]
  unfold Host.watchCall
  cases hfor : p.agentFor call with
  | error e => exact Watches.ofExcept (.error e)
  | ok agent =>
    refine Watches.known (Brings.watches (F := fun _ => Always) ?_)
    refine .bind (brings_priorSession hstore resume) fun prior => ?_
    refine .bind (.of_watches (Watches.observe fun _ => rfl)) fun prompt => ?_
    -- From the note on others see that the agent's session has been asked for, and so they may find it remembered.
    refine Script.Keeps.note (fun _ => Holds (Logged h p content start) (Log.Asks · agent.name)) (fun _ => rfl)
      (fun w hw => ?_) (fun w hw => ?_) fun _ => ?_
    · exact ⟨fun _ => hw.1.ask hnamed hfor hw.2, List.prefix_append _ _⟩
    · exact ⟨hw.1.ask hnamed hfor hw.2, resume, prior, List.mem_append_right _ List.mem_cons_self⟩
    · exact (watches_session hstore agent call.title prompt prior).mono (fun _ => id)
        fun _ _ hw => ⟨hw.1, fun _ _ => trivial⟩

/-- A program that was read keeps what is noted of sessions and records. -/
theorem heeds (hstore : h.store.InMemory scheme content) (hnamed : Program.Parser.Named p.agents) :
    Heeds h p (Logged h p content start) where
  unmoved := unmoved hstore
  put name n bytes _ hw := hw.put hstore name n bytes
  call := watches_call hstore hnamed

end Logged

end Playbook
