import Playbook.Proofs.Run.Recorded

/-!
# `Proofs.Run.Continuity` — a later run goes on with the sessions of an earlier one

A run leaves a record of each agent that persists, and a later run over the same store resumes the session that it names. This is the
session of the call whose record was the last to be written, under the id that the session had when its answer was over. It does not
matter how the earlier run went, what else it did, or which calls in it were under way at the same time.

## Contents
- **Records.** `Left.read`, `Host.run_store`.
- **Calls.** `Host.straight_priorSession`, `Host.leads_askSession`: the first call for an agent comes straight to its session.
- **Runs.** `sessions_continue`, and `sessions_continue_renamed`.
-/

namespace Playbook

open Digest (Scheme)

variable {τ τ' η η' κ δ δ' : Type}

/-! ## Records -/

/-- What an agent's record gives to resume, if there was none before. -/
theorem Left.read {h : Host τ η κ δ} {agent : String} {ended : Option (Option String)} {record : Option (List UInt8)}
    (hleft : Left h agent none ended record) (hid : ∀ id, ended.join = some id → Recordable id) :
    record.bind sessionIdOfBytes? = ended.join := by
  cases hleft with
  | untouched => rfl
  | named id title now => exact sessionIdOfBytes?_text _ (hid id rfl)

namespace Host

theorem finish_store (h : Host τ η κ δ) (limit : Option Nat) (outcome : Outcome) (s : RunState τ κ δ) :
    (h.finish limit outcome s).1.store = s.store := by
  by_cases hphase : ((s.outbox.beginStop h.courier).settle h.courier limit).phase = .stopping
  · rw [finish_of_stopping h hphase]
  · rw [finish_of_done h hphase]

/-- What a run has stored in the end it had stored when its program was over, or when it was canceled. -/
theorem run_store (h : Host τ η κ δ) (p : Program) (inputs : KeyMap String) (limit : Option Nat) (s : RunState τ κ δ) :
    (h.run p inputs limit s).1.store =
      (h.drive limit 0 true (h.begun p inputs s).1 (h.begun p inputs s).2).1.store := by
  simp only [run]
  split
  · exact h.finish_store limit _ _
  · rfl

/-! ## Calls -/

variable {h : Host τ η MemoryStore δ} {scheme : Scheme} {s : RunState τ MemoryStore δ} {agent : Agent}

/-- If a run knows of no session of an agent that persists, a call that may resume one reads the agent's record. -/
theorem straight_priorSession (hstore : h.store = MemoryStore.operations scheme) (hpersists : agent.persists)
    (hnone : s.sessions.get? agent.name = none) :
    (h.priorSession agent true).Straight s
      (.ok ((s.store.get? (h.recordKey agent.name)).bind sessionIdOfBytes?)) s := by
  obtain ⟨courier, backend, store⟩ := h
  subst hstore
  unfold priorSession
  rw [if_pos (by simpa using hpersists)]
  refine .bind (.observe _ s) ?_
  rw [hnone]
  exact .bind (.bind (.pause rfl) (.bind (.act rfl) (.ofExcept _ s))) (.pure _ s)

/-- If a run knows of no session of an agent that persists, a call that may resume one comes straight to `askSession`, for the session in
    the agent's record. -/
theorem leads_askSession (hstore : h.store = MemoryStore.operations scheme) {p : Program} {call : SessionCall}
    (hfor : p.agentFor call = .ok agent) (hpersists : agent.persists) (hnone : s.sessions.get? agent.name = none) :
    (h.callSession p call true).Leads s
      (h.askSession agent call.title (renderPrompt call.title agent s.scope.bindings)
        ((s.store.get? (h.recordKey agent.name)).bind sessionIdOfBytes?)) s := by
  rw [callSession_eq, hfor]
  exact (Script.Straight.ofExcept (.ok agent) s).leads <| (straight_priorSession hstore hpersists hnone).leads <|
    (Script.Straight.observe _ s).leads <| .refl _ s

end Host

/-! ## Runs -/

/-- A call that is the first for an agent comes straight to asking for the session in the record that the run began with. -/
theorem Logged.leads_first {h : Host τ η MemoryStore δ} {scheme : Scheme}
    (hstore : h.store = MemoryStore.operations scheme) {p : Program} {start : MemoryStore}
    {v : RunState τ MemoryStore δ} {m : Log} (hv : Logged h p id start (v.withLog m)) {agent : Agent}
    {call : SessionCall} (hfor : p.agentFor call = .ok agent) (hpersists : agent.persists)
    (hfirst : m.firstRequest agent.name = none) :
    (h.callSession p call true).Leads v
      (h.askSession agent call.title (renderPrompt call.title agent v.scope.bindings)
        ((start.get? (h.recordKey agent.name)).bind sessionIdOfBytes?)) v := by
  -- Nothing has been asked for, so the run knows of no session, and the record is as it was.
  have hnever : ¬m.Asks agent.name := fun hasks => Log.firstRequest_ne_none hasks hfirst
  have hunknown : v.sessions.get? agent.name = none := by
    cases hknown : v.sessions.get? agent.name with
    | none => rfl
    | some id => exact absurd (hv.known agent.name id hknown) hnever
  have hmemory : h.store.InMemory scheme id := hstore ▸ MemoryStore.inMemory scheme fun _ _ => 0
  have hread : (h.store.get (h.recordKey agent.name) v.store).1 = .ok (v.store.get? (h.recordKey agent.name)) := by
    rw [hstore]
    rfl
  have hsame := (hv.found hmemory agent.name hread).resolve_left hnever
  rw [← hsame]
  exact Host.leads_askSession hstore hfor hpersists hunknown

/-- The first run may be of any program that was read, go in any way and be broken off at any time; the only records of the run that
    the store holds are those that it has left. In a second run over this store, of any other program, the first call that resumes a
    session of an agent asks for the one whose record was the last to be written, under the id that it had in the end, and for a new
    one if there is none. Both runs are the same whether they are watched or not, and what the first one leaves in the store is what it
    has stored when its notes end. -/
theorem sessions_continue {h : Host τ η MemoryStore δ} {h' : Host τ' η' MemoryStore δ'} {scheme scheme' : Scheme}
    {latency : StoreCall → MemoryStore → Nat} (hstore : h.store = { MemoryStore.operations scheme with latency })
    (hstore' : h'.store = MemoryStore.operations scheme') (hrun : h'.context.runId = h.context.runId)
    (hprincipal : h'.context.principalId = h.context.principalId) {source source' : String} {p p' : Program}
    (hparse : Program.parse source = .ok p) (hparse' : Program.parse source' = .ok p') (inputs inputs' : KeyMap String)
    (limit limit' : Option Nat) (backend : τ) (backend' : τ') (sink : δ) (sink' : δ') (store : MemoryStore)
    (hnone : ∀ name, store.get? (h.recordKey name) = none) :
    h.Mirrored p inputs limit (.fresh backend store sink) ∧
    (∃ l w, h.Minuted p inputs limit (.fresh backend store sink) l w ∧
      h.Watched p inputs limit (.fresh backend store sink) l w ∧
      (h.run p inputs limit (.fresh backend store sink)).1.store = w.store) ∧
    ∀ l w, h.Watched p inputs limit (.fresh backend store sink) l w →
      h'.Mirrored p' inputs' limit' (.fresh backend' w.store sink') ∧
      ∀ m v, h'.Watched p' inputs' limit' (.fresh backend' w.store sink') m v →
        ∀ name a, p'.agent? name = some a → a.persists → (∀ id, l.lastRecorded name = some id → Recordable id) →
          (∀ prior, m.firstRequest name = some (true, prior) → prior = l.lastRecorded name) ∧
          (m.firstRequest name = none → ∀ call, p'.agentFor call = .ok a →
            (h'.callSession p' call true).Leads v
              (h'.askSession a call.title (renderPrompt call.title a v.scope.bindings) (l.lastRecorded name)) v) := by
  have hmemory : h.store.InMemory scheme id := hstore ▸ MemoryStore.inMemory scheme latency
  have hmemory' : h'.store.InMemory scheme' id := hstore' ▸ MemoryStore.inMemory scheme' fun _ _ => 0
  have hnamed' := Program.parse_named hparse'
  have heeds : Heeds h p (Logged h p id store) := Logged.heeds hmemory (Program.parse_named hparse)
  have hstart := Logged.of_fresh h p id inputs backend store sink
  have hmirrored : h.Mirrored p inputs limit (.fresh backend store sink) := Host.mirrored heeds hstart
  refine ⟨hmirrored, ?_, fun l w hw => ?_⟩
  · obtain ⟨l, w, hminuted⟩ := hmirrored.minuted
    exact ⟨l, w, hminuted, hminuted.watched, hminuted.last ▸ h.run_store p inputs limit _⟩
  -- What the first run has left is what the second one begins with.
  have heeds' : Heeds h' p' (Logged h' p' id w.store) := Logged.heeds hmemory' hnamed'
  have hstart' := Logged.of_fresh h' p' id inputs' backend' w.store sink'
  refine ⟨Host.mirrored heeds' hstart', fun m v hv name a ha hpersists hid => ?_⟩
  have hlogged' := hv.holds heeds' hstart'
  have hread : (w.store.get? (h'.recordKey name)).bind sessionIdOfBytes? = l.lastRecorded name := by
    have hkey : h'.recordKey name = h.recordKey name := by
      rw [Host.recordKey, Host.recordKey, hrun, hprincipal]
    have hleft := (hw.holds heeds hstart).record name
    rw [id, hnone] at hleft
    rw [hkey]
    exact hleft.read hid
  have hname : a.name = name := (hnamed' name a ha).1
  rw [← hread]
  refine ⟨fun prior hfirst => hlogged'.first name a prior ha hpersists hfirst, fun hfirst call hfor => ?_⟩
  rw [← hname] at hfirst ⊢
  exact hlogged'.leads_first hstore' hfor hpersists hfirst

/-! ## Trials -/

/-- The host of trials, with a store that goes from one run to the next. -/
def Host.lasting : Host Rehearsal RehearsalSession MemoryStore Unit where
  courier := Host.trial.courier
  backend := .rehearsal
  store := MemoryStore.operations ⟨fun _ => [0], fun _ _ => [0]⟩

/-- A program whose only call resumes a session. -/
def Program.returning : Program :=
  ⟨[], [("a", ⟨"a", none, none, some "true"⟩)], [.resume ⟨some "a", "Three"⟩]⟩

/-- A second run resumes the session under the id that it got when it was resumed in the first one. -/
theorem sessions_continue_renamed : ∃ l w m v,
    Host.lasting.Watched .resuming [] none (.fresh RunState.renaming.backend [] ()) l w ∧
    l.lastRecorded "a" = some "s-9" ∧
    Host.lasting.Watched .returning [] none (.fresh (.ofParts []) w.store ()) m v ∧
    m.firstRequest "a" = some (true, some "s-9") := by
  have hparse : Program.parse "agent a:\n  persist: true\nsession: a \"One\"\nresume: a \"Two\"\n" =
      .ok .resuming := rfl
  have hparse' : Program.parse "agent a:\n  persist: true\nresume: a \"Three\"\n" = .ok .returning := rfl
  have hstore : Host.lasting.store =
    { MemoryStore.operations ⟨fun _ => [0], fun _ _ => [0]⟩ with latency := fun _ _ => 0 } := rfl
  obtain ⟨_, _, hcontinue⟩ := sessions_continue hstore hstore rfl rfl hparse hparse' [] [] none none
    RunState.renaming.backend (.ofParts []) () () [] fun _ => rfl
  have hworked : (Host.lasting.watched.driveWithin none 30 0 true
      (Host.lasting.watchStart .resuming [] (.fresh RunState.renaming.backend [] ()))
      (Host.lasting.watchThread .resuming [])).any (fun w => w.1.log.lastRecorded "a" == some "s-9" &&
        (Host.lasting.watched.driveWithin none 30 0 true
          (Host.lasting.watchStart .returning [] (.fresh (.ofParts []) w.1.unwatched.store ()))
          (Host.lasting.watchThread .returning [])).any fun v => (v.1.log.firstRequest "a").any (·.1)) = true := by
    decide +kernel
  obtain ⟨w, hwithin, hw⟩ := (Option.any_eq_true _ _).1 hworked
  rw [Bool.and_eq_true, beq_iff_eq] at hw
  obtain ⟨v, hwithin', hv⟩ := (Option.any_eq_true _ _).1 hw.2
  obtain ⟨⟨resume, prior⟩, hfirst, hresume⟩ := (Option.any_eq_true _ _).1 hv
  have hwatched := Host.watched_of_within hwithin
  have hwatched' := Host.watched_of_within hwithin'
  have hid : ∀ id, w.1.log.lastRecorded "a" = some id → Recordable id := by
    intro id hid
    rw [hw.1, Option.some.injEq] at hid
    rw [← hid]
    exact ⟨by decide, by decide, by decide⟩
  obtain ⟨hagree, _⟩ := (hcontinue _ _ hwatched).2 _ _ hwatched' "a" _ rfl (by decide) hid
  have hresume : resume = true := hresume
  rw [hresume] at hfirst
  refine ⟨w.1.log, w.1.unwatched, v.1.log, v.1.unwatched, hwatched, hw.1, hwatched', ?_⟩
  rw [hfirst, hagree prior hfirst, hw.1]

end Playbook
