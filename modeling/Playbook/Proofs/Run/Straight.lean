import Playbook.Proofs.Run.Heard
import Playbook.Run.Thread

/-!
# `Proofs.Run.Straight` — what a run does without giving up the floor

A script that does not wait goes *straight* from one state of the world to another, and nobody else gets the floor in between.
A session call goes straight on from where its session is open if its backend takes no time: the turns are heard one after
another, and of what a run knows they change nothing but the session of the agent.

## Contents
- **Scripts.** `Script.Straight`, with one rule for each way in which scripts are made; `Script.Leads`.
- **Calls.** `Host.hearSession`, the part of a call in which its answer is heard; `Host.askSession`; `callSession_eq`.
- **Turns.** `Host.Reached`; `hearAll` with `hearAll_tally`; `hear_reached`, `straight_listen`.
-/

namespace Playbook

variable {σ α β τ η κ δ : Type}

/-! ## Scripts -/

namespace Script

/-- From one state on a script goes to its end, in another state, without giving up the floor. -/
def Straight (s : Script σ α) (w : σ) (r : Except Failure α) (v : σ) : Prop :=
  ∀ next number now stirred, (s next).go number now stirred w = (next r).go number now stirred v

/-- From one state on a script comes to where another script begins, in another state, without giving up the floor. -/
def Leads (s : Script σ α) (w : σ) (s' : Script σ α) (v : σ) : Prop :=
  ∀ next number now stirred, (s next).go number now stirred w = (s' next).go number now stirred v

theorem Leads.refl (s : Script σ α) (w : σ) : s.Leads w s w :=
  fun _ _ _ _ => rfl

namespace Straight

variable {s : Script σ α} {f : α → Script σ β} {w u v : σ} {a : α} {r : Except Failure β}

theorem ofExcept (r : Except Failure α) (w : σ) : (Script.ofExcept r).Straight w r w :=
  fun _ _ _ _ => rfl

theorem pure (a : α) (w : σ) : (Pure.pure a : Script σ α).Straight w (.ok a) w :=
  fun _ _ _ _ => rfl

theorem observe (f : σ → α) (w : σ) : (Script.observe f).Straight w (.ok (f w)) w :=
  fun _ _ _ _ => rfl

theorem act {f : σ → α × σ} (hf : f w = (a, v)) : (Script.act f).Straight w (.ok a) v := by
  intro next number now stirred
  simp only [Script.act, Plan.go]
  rw [hf]

theorem update (f : σ → σ) (w : σ) : (Script.update f).Straight w (.ok ()) (f w) :=
  fun _ _ _ _ => rfl

theorem bind (hs : s.Straight w (.ok a) u) (hf : (f a).Straight u r v) : (s >>= f).Straight w r v :=
  fun next number now stirred => (hs _ number now stirred).trans (hf next number now stirred)

/-- A script comes to what follows its first part. -/
theorem leads {s' : Script σ β} (hs : s.Straight w (.ok a) u) (hf : (f a).Leads u s' v) : (s >>= f).Leads w s' v :=
  fun next number now stirred => (hs _ number now stirred).trans (hf next number now stirred)

/-- A script ends where its first part fails. -/
theorem stop {e : Failure} (hs : s.Straight w (.error e) v) : (s >>= f).Straight w (.error e) v :=
  fun _ number now stirred => hs _ number now stirred

theorem hold {r : Except Failure α} (hs : s.Straight w r v) : s.hold.Straight w (.ok r) v :=
  fun _ number now stirred => hs _ number now stirred

/-- A wait of no time is no wait. -/
theorem pause {ms : σ → Nat} (hms : ms w = 0) : (Script.pause ms).Straight w (.ok ()) w := by
  intro next number now stirred
  simp only [Script.pause, Plan.go]
  rw [if_pos hms]

end Straight

end Script

/-! ## Calls -/

namespace Host

/-- The part of a call in which its session is open: it is sent its prompt, its answer is read, and it is closed. -/
def hearSession (h : Host τ η κ δ) (agent : Agent) (title prompt : String) (id : Option String) (session : η) :
    Work τ κ δ Hearing := do
  let (answer, session) ← h.converse agent.name prompt id session
  h.closeSession session
  let heard ← Script.ofExcept (withFacts [("agent", agent.name), ("title", title)] answer)
  Script.update fun s => { s with usage := s.usage.add heard.tally.usage }
  return heard

/-- The part of a call that is left when it is known which session is to be taken up again: a session is opened, its answer is heard,
    and a record is left. -/
def askSession (h : Host τ η κ δ) (agent : Agent) (title prompt : String) (prior : Option String) :
    Work τ κ δ String := do
  let opened ← (h.openSession ⟨h.context.runId, h.context.principalId, agent.name, agent.model, agent.prompt, title⟩
    prior).hold
  let session ← Script.ofExcept (withFacts [("agent", agent.name)] opened)
  let heard ← h.hearSession agent title prompt (h.backend.sessionId session <|> prior) session
  h.recordHeard agent heard title
  return heard.tally.finalResult

/-- A call looks for the session that it may take up again, and then asks for it. -/
theorem callSession_eq (h : Host τ η κ δ) (p : Program) (call : SessionCall) (resume : Bool) :
    h.callSession p call resume = (do
      let agent ← Script.ofExcept (p.agentFor call)
      let prior ← h.priorSession agent resume
      let prompt ← Script.observe fun s => renderPrompt call.title agent s.scope.bindings
      h.askSession agent call.title prompt prior) := by
  rfl

/-! ## Turns -/

/-- What has become of a run while an agent's session is held. -/
structure Reached (agent : String) (id : Option String) (s s' : RunState τ κ δ) : Prop where
  /-- The session is remembered for its agent. -/
  own : s'.sessions.get? agent = id
  /-- The sessions that are remembered for other agents are the same as before. -/
  other : ∀ other, other ≠ agent → s'.sessions.get? other = s.sessions.get? other
  store : s'.store = s.store

theorem Reached.trans {agent : String} {id id' : Option String} {s s' s'' : RunState τ κ δ}
    (h : Reached agent id s s') (h' : Reached agent id' s' s'') : Reached agent id' s s'' :=
  ⟨h'.own, fun other hother => (h'.other other hother).trans (h.other other hother), h'.store.trans h.store⟩

/-- A session is held with an id from the start. -/
theorem reached_remember (agent id : String) (s : RunState τ κ δ) (backend : τ) :
    Reached agent (some id) s { s.remember agent id with backend } :=
  ⟨KeyMap.get?_insert_self agent id s.sessions, fun _ hother => KeyMap.get?_insert_of_ne hother id s.sessions, rfl⟩

/-- Hear known turns, one after another. -/
def hearAll (h : Host τ η κ δ) (agent : String) : List Turn → Hearing → RunState τ κ δ → Hearing × RunState τ κ δ
  | [], l, s => (l, s)
  | t :: rest, l, s => h.hearAll agent rest (h.hear agent t l s).1 (h.hear agent t l s).2

/-- What they add up to does not depend on the run in which they are heard. -/
theorem hearAll_tally (h : Host τ η κ δ) (agent : String) (turns : List Turn) (l : Hearing) (s : RunState τ κ δ) :
    (h.hearAll agent turns l s).1.tally = turns.foldl Tally.withTurn l.tally := by
  induction turns generalizing l s with
  | nil => rfl
  | cons t rest ih =>
    have hfirst : (h.hear agent t l s).1.tally = l.tally.withTurn t := by rw [hear_fst]
    rw [List.foldl_cons, ← hfirst]
    exact ih _ _

section

variable {h : Host τ η κ δ} {agent : String} {l : Hearing} {s : RunState τ κ δ}

theorem noteSession_reached (t : Turn) (hknown : s.sessions.get? agent = l.sessionId) :
    Reached agent (t.announced <|> l.sessionId) s (noteSession agent t l s).2 := by
  unfold noteSession
  cases t.announced with
  | none => exact ⟨hknown, fun _ _ => rfl, rfl⟩
  | some id =>
    simp only
    split
    · rename_i hsame
      exact ⟨hknown.trans hsame, fun _ _ => rfl, rfl⟩
    · exact ⟨KeyMap.get?_insert_self agent id s.sessions,
        fun _ hother => KeyMap.get?_insert_of_ne hother id s.sessions, rfl⟩

theorem forward_reached (event : Event) (usage : Option Usage) :
    Reached agent (s.sessions.get? agent) s (h.forward agent event usage l s).2 := by
  obtain ⟨-, hstore, hsessions⟩ := h.forward_leaves agent event usage l s
  exact ⟨by rw [hsessions], fun other _ => by rw [hsessions], hstore⟩

/-- After a turn the session's id is the one that the turn announces, if it does, and this is the one that is remembered. -/
theorem hear_reached (t : Turn) (hknown : s.sessions.get? agent = l.sessionId) :
    (h.hear agent t l s).1.sessionId = (t.announced <|> l.sessionId) ∧
      Reached agent (t.announced <|> l.sessionId) s (h.hear agent t l s).2 := by
  have hnoted := noteSession_reached t hknown
  refine ⟨hear_sessionId h agent t, ?_⟩
  simp only [hear, noteSession_fst]
  cases t.event with
  | none => exact hnoted
  | some event =>
    have hsent : ∀ l' usage, Reached agent (t.announced <|> l.sessionId) (noteSession agent t l s).2
        (h.forward agent event usage l' (noteSession agent t l s).2).2 := by
      intro l' usage
      rw [← hnoted.own]
      exact forward_reached event usage
    exact hnoted.trans (hsent _ _)

/-- After some turns the session's id is the one that was announced last. -/
theorem hearAll_reached (turns : List Turn) (hknown : s.sessions.get? agent = l.sessionId) :
    (h.hearAll agent turns l s).1.sessionId = ((turns.filterMap (·.announced)).getLast? <|> l.sessionId) ∧
      Reached agent ((turns.filterMap (·.announced)).getLast? <|> l.sessionId) s
        (h.hearAll agent turns l s).2 := by
  induction turns generalizing l s with
  | nil =>
    rw [List.filterMap_nil, List.getLast?_nil]
    exact ⟨rfl, hknown, fun _ _ => rfl, rfl⟩
  | cons t rest ih =>
    obtain ⟨hid, hreached⟩ := hear_reached (h := h) t hknown
    -- What the other turns announce comes before what this one does, and that before what was there.
    have hlast : (((t :: rest).filterMap (·.announced)).getLast? <|> l.sessionId) =
        ((rest.filterMap (·.announced)).getLast? <|> (t.announced <|> l.sessionId)) := by
      cases hannounced : t.announced with
      | none => simp [hannounced]
      | some id => cases hrest : (rest.filterMap (·.announced)).getLast? <;> simp [hannounced, hrest, List.getLast?_cons]
    obtain ⟨hids, hreacheds⟩ := ih (hreached.own.trans hid.symm)
    rw [hid] at hids hreacheds
    rw [hlast]
    exact ⟨hids, hreached.trans hreacheds⟩

theorem straight_finished (leave : τ → τ) :
    (h.listen agent (.finished leave) l).Straight s (.ok l) { s with backend := leave s.backend } :=
  .bind (.update _ s) (.pure l _)

theorem straight_failure (leave : τ → τ) (e : Failure) :
    (h.listen agent (.ofList leave [(0, .error e)]) l).Straight s (.error e) s :=
  .bind (.pause rfl) (.bind (.act rfl) (.stop (.ofExcept _ _)))

/-- Known turns are heard without a wait. -/
theorem straight_listen (turns : List Turn) (leave : τ → τ) (later : List (Nat × Except Failure Turn))
    {r : Except Failure Hearing} {v : RunState τ κ δ}
    (h' : (h.listen agent (.ofList leave later) (h.hearAll agent turns l s).1).Straight
      (h.hearAll agent turns l s).2 r v) :
    (h.listen agent (.ofList leave (turns.map (fun t => (0, .ok t)) ++ later)) l).Straight s r v := by
  induction turns generalizing l s with
  | nil => exact h'
  | cons t rest ih =>
    refine .bind (.pause rfl) (.bind (.act rfl) (.bind (.ofExcept _ _) ?_))
    exact ih h'

end

/-! ## Conversations -/

section

variable {h : Host τ η κ δ} {s v : RunState τ κ δ} {prompt : String} {session session' session'' : η} {t t' : τ}
  {stream : TurnStream τ} {agent : Agent} {id : Option String}

theorem straight_perform (hnone : ∀ call t, h.backend.latency call t = 0) {call : Backend.Call η}
    {f : τ → α × τ} {a : α} (hf : f s.backend = (a, t)) :
    (h.perform call f).Straight s (.ok a) { s with backend := t } := by
  refine .bind (.pause (hnone call s.backend)) (.act ?_)
  rw [hf]

/-- How a conversation goes that does not wait: the stream of the answer is read once the prompt has been sent. -/
theorem straight_converse (hnone : ∀ call t, h.backend.latency call t = 0)
    (hsend : h.backend.send prompt session s.backend = (.ok (), session', t))
    (hstream : h.backend.stream session' t = (.ok stream, session'', t')) {name id : String}
    {r : Except Failure Hearing}
    (hlisten : (h.listen name stream ⟨.empty, some id⟩).Straight { s.remember name id with backend := t' } r v) :
    (h.converse name prompt (some id) session).Straight s (.ok (r, session'')) v := by
  have hsent : h.backend.send prompt session (s.remember name id).backend = (.ok (), session', t) := hsend
  refine .bind (.update _ s) (.bind (a := (.ok (), session')) (straight_perform hnone (t := t) ?_) ?_)
  · simp only [hsent]
  · refine .bind (a := (.ok stream, session'')) (.act (v := { s.remember name id with backend := t' }) ?_) ?_
    · simp only [hstream]
    · exact .bind hlisten.hold (.pure _ v)

/-- The part of a call in which its session is open, if nothing in it waits and it goes well: its answer has been heard, the tokens are
    counted, and the session is closed. -/
theorem straight_hearSession (hnone : ∀ call t, h.backend.latency call t = 0) {title : String}
    {id : Option String} {heard : Hearing}
    (hconverse : (h.converse agent.name prompt id session).Straight s (.ok (.ok heard, session')) v) :
    ∃ backend, (h.hearSession agent title prompt id session).Straight s (.ok heard)
      { v with backend, usage := v.usage.add heard.tally.usage } :=
  ⟨_, .bind hconverse (.bind (straight_perform hnone rfl) (.bind (.ofExcept _ _) (.bind (.update _ _) (.pure _ _))))⟩

/-- If its answer breaks off, its failure says whose it is and what it was about. -/
theorem straight_hearSession_error (hnone : ∀ call t, h.backend.latency call t = 0) {title : String}
    {id : Option String} {e : Failure}
    (hconverse : (h.converse agent.name prompt id session).Straight s (.ok (.error e, session')) v) :
    ∃ backend, (h.hearSession agent title prompt id session).Straight s
      (.error ((e.withContext "agent" agent.name).withContext "title" title)) { v with backend } :=
  ⟨_, .bind hconverse (.bind (straight_perform hnone rfl) (.stop (.ofExcept _ _)))⟩

end

end Host

end Playbook
