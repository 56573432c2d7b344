import Playbook.Messages.Service
import Playbook.Proofs.Run.Straight

/-!
# `Proofs.Messages.Naming` — what a reply makes of the id of its session

The backend that asks a Messages service gives a session its id when the session is opened, and repeats it in the turn that opens the
answer. Text, thinking and the use of tools announce nothing. But events that stand in the text of a reply are read without regard to
their kinds, so a reply can name another session, and the last one that it names is the one that is remembered and recorded.

## Contents
- **Inline events.** `Event.announcedIn`, the session that a text names last.
- **Turns of a reply.** `Reply.apply_silent` for one report and `Reply.applyAll_silent` for all; `announced_answer`.
- **Sessions.** `Service.replyTo`, `Service.session_named`.
-/

namespace Playbook

/-- The session id that the events in a text announce last. -/
def Event.announcedIn (text : String) : Option String :=
  ((Event.inline text).filterMap Event.announced).getLast?

namespace Messages

/-! ## Turns of a reply -/

/-- Turns that announce no session id. -/
def Silent (turns : List Turn) : Prop :=
  ∀ t ∈ turns, t.announced = none

theorem Silent.append {turns later : List Turn} (h : Silent turns) (h' : Silent later) :
    Silent (turns ++ later) :=
  List.forall_mem_append.2 ⟨h, h'⟩

theorem Silent.announced {turns : List Turn} (h : Silent turns) :
    turns.filterMap (·.announced) = [] :=
  List.filterMap_eq_nil_iff.2 h

theorem silent_events {events : List Event} (h : ∀ e ∈ events, e.announced = none) :
    Silent (events.map .ofEvent) := by
  intro t ht
  obtain ⟨e, he, rfl⟩ := List.mem_map.1 ht
  exact h e he

theorem announced_ofTodos (place : Nat) (items : List Json) :
    ∀ e ∈ Event.ofTodos place items, e.announced = none := by
  induction items generalizing place with
  | nil => simp [Event.ofTodos]
  | cons item rest ih =>
    exact List.forall_mem_cons.2 ⟨rfl, ih (place + 1)⟩

/-- The use of a tool announces nothing. -/
theorem announced_ofToolUse (name : String) (input : Json) :
    ∀ e ∈ Event.ofToolUse name input, e.announced = none := by
  unfold Event.ofToolUse
  split
  · split <;> simp [Event.announced, Event.withoutPath]
  · split <;> simp [Event.announced, Event.withoutPath]
  · split
    · exact announced_ofTodos 1 _
    · simp
  · simp [Event.announced]

namespace Reply

theorem blockTurns_silent (block : OpenBlock) : Silent (blockTurns block) := by
  cases block with
  | text => simp [Silent, blockTurns]
  | thinking text =>
    simp only [blockTurns]
    split
    · simp [Silent]
    · exact List.forall_mem_singleton.2 rfl
  | toolUse name json input => exact silent_events (announced_ofToolUse name _)

theorem extendBlock_silent (r : Reply) (index : Nat) (delta : Delta) :
    Silent (r.extendBlock index delta).2 := by
  unfold extendBlock
  split
  · exact List.forall_mem_singleton.2 rfl
  all_goals simp [Silent]

theorem stopBlock_silent (r : Reply) (index : Nat) : Silent (r.stopBlock index).2 := by
  unfold stopBlock
  split
  · simp [Silent]
  · exact blockTurns_silent _

/-- What a report of the service hands on announces nothing. -/
theorem apply_silent {r r' : Reply} {e : StreamEvent} {turns : List Turn}
    (h : r.apply e = .ok (r', turns)) : Silent turns := by
  have hnone : Silent [] := by simp [Silent]
  cases e with
  | messageStart id usage =>
    cases usage <;> cases h <;> exact hnone
  | blockStart index block =>
    cases h
    exact hnone
  | blockDelta index delta =>
    have hsilent := extendBlock_silent r index delta
    rwa [show r.extendBlock index delta = (r', turns) from Except.ok.inj h] at hsilent
  | blockStop index =>
    have hsilent := stopBlock_silent r index
    rwa [show r.stopBlock index = (r', turns) from Except.ok.inj h] at hsilent
  | messageDelta outputTokens =>
    cases outputTokens <;> cases h <;> exact hnone
  | error kind message => cases h
  | other =>
    cases h
    exact hnone

/-- What the reports of the service hand on, up to a failure, announces nothing. -/
theorem applyAll_silent (r : Reply) (events : List StreamEvent) : Silent (r.applyAll events).1 := by
  induction events generalizing r with
  | nil => simp [Silent, applyAll]
  | cons e rest ih =>
    unfold applyAll
    split
    · simp [Silent]
    · rename_i r' turns happly
      exact (apply_silent happly).append (ih r')

/-- What is handed on at the end announces what the text does. -/
theorem announced_closing (r : Reply) :
    r.closing.filterMap (·.announced) = (Event.inline r.text).filterMap Event.announced := by
  have husage : (r.usage.map Turn.ofUsage).toList.filterMap (·.announced) = [] := by
    cases r.usage <;> rfl
  rw [closing, List.filterMap_append, husage, List.append_nil, List.filterMap_map]
  rfl

end Reply

theorem announced_readChunks (chunks : List (List UInt8)) (broken : Option String) :
    ((readChunks chunks broken).1.filterMap (·.announced)).getLast? =
      match (readChunks chunks broken).2 with
      | .ok r => Event.announcedIn r.text
      | .error _ => none := by
  unfold readChunks
  -- Reports announce nothing, so what is announced comes from the closing turns of a whole reply.
  have hsilent := (Reply.applyAll_silent .empty ((feedAll [] chunks).1.filterMap StreamEvent.ofFrame?)).announced
  simp only
  split
  · rename_i turns e happly
    rw [happly] at hsilent
    simp [hsilent]
  · rename_i turns r reason happly
    rw [happly] at hsilent
    simp [hsilent]
  · rename_i turns r happly
    rw [happly] at hsilent
    simp only at hsilent
    rw [List.filterMap_append, hsilent, List.nil_append, Reply.announced_closing]
    rfl

/-- The turns of a reply announce what its text does, if it is whole, and else nothing. -/
theorem announced_answer (reply : Http.Reply) :
    ((answer reply).1.filterMap (·.announced)).getLast? =
      match (answer reply).2 with
      | .ok text => Event.announcedIn text
      | .error _ => none := by
  cases reply with
  | unanswered reason => rfl
  | answered status chunks broken =>
    unfold answer
    simp only
    split
    · rw [announced_readChunks]
      cases (readChunks chunks broken).2 <;> rfl
    · rfl

/-! ## Sessions -/

namespace Service

variable {ρ κ δ : Type}

/-- What comes back for a prompt. -/
def replyTo (v : Service ρ) (session : Session) (prompt : String) (st : State ρ) : Http.Reply :=
  (v.peer.exchange (request v.config session ((st.push session.id ⟨.user, prompt⟩).transcript session.id))
    st.peer).1

/-- The stream of the answer to a prompt: the opening turn, the turns of the reply, and a failure if it breaks off. -/
theorem stream_sent (v : Service ρ) (session : Session) (hfresh : session.streamed = false) (prompt : String)
    (st : State ρ) :
    let turns := session.opening :: (answer (v.replyTo session prompt st)).1
    ∃ leave session' st',
      v.stream { session with pending := some prompt } st =
        (.ok (.ofList leave (turns.map (fun t => (0, .ok t)) ++
          match (answer (v.replyTo session prompt st)).2 with
          | .ok _ => []
          | .error e => [(0, .error e)])), session', st') := by
  intro turns
  simp only [stream, hfresh, Bool.false_eq_true, if_false]
  split
  · rename_i e hanswer
    have hbroken : (answer (v.replyTo session prompt st)).2 = .error e := hanswer
    rw [hbroken]
    exact ⟨_, _, _, rfl⟩
  · rename_i text hanswer
    have hwhole : (answer (v.replyTo session prompt st)).2 = .ok text := hanswer
    rw [hwhole, List.append_nil]
    exact ⟨_, _, _, rfl⟩

/-- After the turns of a reply a session has the id that the text of the reply names last, if it is whole and names one, and else the
    id with which it was opened. -/
theorem hearAll_reply {τ η : Type} {h : Host τ η κ δ} (config : Config) (args : SessionArgs) (id : String)
    (resumed : Bool) (reply : Http.Reply) {name : String} {s : RunState τ κ δ}
    (hknown : s.sessions.get? name = some id) :
    let turns := (Session.opened config args id resumed).opening :: (answer reply).1
    let named := some ((match (answer reply).2 with
      | .ok text => Event.announcedIn text
      | .error _ => none).getD id)
    (h.hearAll name turns ⟨.empty, some id⟩ s).1.sessionId = named ∧
      Host.Reached name named s (h.hearAll name turns ⟨.empty, some id⟩ s).2 := by
  intro turns named
  -- The opening turn announces the id with which the session was opened, before the reply announces anything.
  have hopening : (Session.opened config args id resumed).opening.announced = some id := by cases resumed <;> rfl
  have hlast : ((turns.filterMap (·.announced)).getLast? <|> some id) = named := by
    simp only [turns, named, List.filterMap_cons_some hopening, List.getLast?_cons, announced_answer]
    rfl
  rw [← hlast]
  exact Host.hearAll_reached turns hknown

/-- Whatever the service answers, a session has in the end the id that the text of the reply names last, in the run's memory and in the
    record that is written if its agent persists; it has the id with which it was opened if the text names none, or the answer
    breaks off. -/
theorem session_named (v : Service ρ) (courier : Courier δ) (store : ContentStore κ) (agent : Agent)
    (title prompt : String) (args : SessionArgs) (id : String) (resumed : Bool)
    (s : RunState (State ρ) κ δ) :
    let h : Host (State ρ) Session κ δ := ⟨courier, v.backend, store⟩
    let session := Session.opened v.config args id resumed
    let work := h.hearSession agent title prompt (some id) session
    match (answer (v.replyTo session prompt s.backend)).2 with
    | .ok text => ∃ heard s',
        work.Straight s (.ok heard) s' ∧
        Host.Reached agent.name (some ((Event.announcedIn text).getD id)) s s' ∧
        h.recordHeard agent heard title =
          if agent.persists then h.record agent.name ((Event.announcedIn text).getD id) title else return ()
    | .error e => ∃ s',
        work.Straight s (.error ((e.withContext "agent" agent.name).withContext "title" title)) s' ∧
        Host.Reached agent.name (some id) s s' := by
  intro h session work
  obtain ⟨leave, session', st', hstream⟩ := v.stream_sent session rfl prompt s.backend
  let turns := session.opening :: (answer (v.replyTo session prompt s.backend)).1
  let start : RunState (State ρ) κ δ := { s.remember agent.name id with backend := st' }
  have hstart : Host.Reached agent.name (some id) s start := Host.reached_remember agent.name id s st'
  obtain ⟨hid, hreached⟩ := hearAll_reply (h := h) v.config args id resumed (v.replyTo session prompt s.backend) hstart.own
  let l := (h.hearAll agent.name turns ⟨.empty, some id⟩ start).1
  let heard := (h.hearAll agent.name turns ⟨.empty, some id⟩ start).2
  -- Nothing in the stream waits, so it is heard up to where it ends or breaks off.
  have hread : ∀ later r s', (h.listen agent.name (.ofList leave later) l).Straight heard r s' →
      (h.listen agent.name (.ofList leave (turns.map (fun t => (0, .ok t)) ++ later)) ⟨.empty, some id⟩).Straight
        start r s' :=
    fun later _ _ => Host.straight_listen turns leave later
  cases hanswer : (answer (v.replyTo session prompt s.backend)).2 with
  | ok text =>
    rw [hanswer] at hstream hid hreached
    have hconverse : (h.converse agent.name prompt (some id) session).Straight s (.ok (.ok l, session'))
        { heard with backend := leave heard.backend } :=
      Host.straight_converse (fun _ _ => rfl) rfl hstream (hread [] _ _ (Host.straight_finished leave))
    obtain ⟨backend, hwork⟩ := Host.straight_hearSession (fun _ _ => rfl) hconverse
    refine ⟨l, _, hwork, hstart.trans ⟨hreached.own, hreached.other, hreached.store⟩, ?_⟩
    rw [Host.recordHeard, hid]
    cases agent.persists <;> rfl
  | error e =>
    rw [hanswer] at hstream hid hreached
    have hconverse : (h.converse agent.name prompt (some id) session).Straight s (.ok (.error e, session'))
        heard :=
      Host.straight_converse (fun _ _ => rfl) rfl hstream (hread _ _ _ (Host.straight_failure leave e))
    obtain ⟨backend, hwork⟩ := Host.straight_hearSession_error (fun _ _ => rfl) hconverse
    exact ⟨_, hwork, hstart.trans ⟨hreached.own, hreached.other, hreached.store⟩⟩

/-- One event in the text is enough. -/
example : Event.announcedIn "Done. <event>\x7b\"type\":\"session_started\",\"session_id\":\"other\"\x7d</event>" =
    some "other" := by
  decide +kernel

end Service

end Messages

end Playbook
