import Playbook.Backend.Rehearsal
import Playbook.Proofs.Outbox.Ledger
import Playbook.Proofs.Outbox.Packing
import Playbook.Proofs.Run.Floor
import Playbook.Proofs.Run.Noted

/-!
# `Proofs.Run.Forwarding` — what agents report reaches the sink

A run that is not canceled comes to its end and leaves its outbox stopped, with nothing that waits and nothing under way. The
batches that the sink has taken by then hold the envelopes of all that the turns which it read had to send on, in the order in which
the turns were read and under numbers without a gap, unless some of it had to give way or the sink refused a batch.

## Contents
- **What is numbered.** `issued_after`: a ledger holds the offers made to its outbox.
- **Deliveries.** `Accepts`, `taken`: the batches that a sink takes; `exists_taken`: what they hold.
- **The run.** `drive_noting`, `run_forget`, `run_outcome`; `Supplied.halted` after a stop.
- **Statement.** `Conveyed`, `Forwarded`, and `run_forwards`; a run whose events are delivered.
-/

namespace Playbook

variable {τ η κ δ : Type}

/-- What was handed over for an event. -/
def Posting.offer (p : Posting) : Offer :=
  ⟨p.agent, p.session, p.event, p.usage⟩

/-- What an envelope brings: an event, with the agent and the session that it is of and the usage counted with it. -/
def Envelope.offer (e : Envelope) : Offer :=
  ⟨e.agentName, e.sessionId, e.event, e.usage⟩

namespace Outbox

variable {c : Courier δ} {sink : δ} {l : Ledger δ}

/-! ## What is numbered -/

theorem issued_record {a : Action} (h : a.offer? = none) : (l.record c a).issued = l.issued := by
  cases a with
  | enqueue => cases h
  | _ => rfl

/-- Before a stop all that is offered gets a number. -/
theorem issued_after (ho : Orderly l.outbox) (h : l.outbox.phase = .accepting)
    {as : List Action} (has : .stop ∉ as) :
    (l.after c as).issued.map (·.offer) = l.issued.map (·.offer) ++ as.filterMap (·.offer?) := by
  induction as generalizing l with
  | nil => simp [Ledger.after]
  | cons a as ih =>
    rw [List.mem_cons, not_or] at has
    have hnext := ih (l := l.record c a) (l.record_outbox a ▸ ho.act a)
      (l.record_outbox a ▸ phase_act ho h (Ne.symm has.1)) has.2
    have hrecord : (l.record c a).issued.map (·.offer) =
        l.issued.map (·.offer) ++ a.offer?.toList := by
      cases a with
      | enqueue agent session event usage =>
        simp only [Ledger.record, enqueue_of_accepting _ _ _ _ h, List.map_append]
        rfl
      | _ =>
        rw [issued_record rfl]
        simp [Action.offer?]
    rw [Ledger.after, List.foldl_cons]
    rw [Ledger.after, hrecord] at hnext
    rw [hnext, List.append_assoc]
    cases hoffer : a.offer? <;> simp [hoffer]

/-- A stop and what follows it number nothing. -/
theorem issued_of_times {as : List Action} (h : ∀ a ∈ as, a.offer? = none) :
    (l.after c as).issued = l.issued := by
  induction as generalizing l with
  | nil => rfl
  | cons a as ih =>
    rw [Ledger.after, List.foldl_cons]
    exact (ih fun b hb => h b (List.mem_cons_of_mem _ hb)).trans (issued_record (h a (by simp)))

/-! ## Deliveries -/

/-- Whether a sink takes all of some batches that are brought to it one after another. -/
def Accepts (c : Courier δ) : List Parcel → δ → Prop
  | [], _ => True
  | p :: rest, s =>
    (c.sink.deliver (c.batchOf p.postings) s).1 = .ok () ∧
      Accepts c rest (c.sink.deliver (c.batchOf p.postings) s).2

/-- The batches that a sink takes, of some that are brought to it one after another. -/
def taken (c : Courier δ) : List Parcel → δ → List SignedBatch
  | [], _ => []
  | p :: rest, s =>
    match c.sink.deliver (c.batchOf p.postings) s with
    | (.ok _, s) => c.batchOf p.postings :: taken c rest s
    | (.error _, s) => taken c rest s

theorem taken_of_accepts {parcels : List Parcel} (h : Accepts c parcels sink) :
    taken c parcels sink = parcels.map fun p => c.batchOf p.postings := by
  induction parcels generalizing sink with
  | nil => rfl
  | cons p rest ih =>
    obtain ⟨hok, hrest⟩ := h
    simp only [taken]
    cases hr : c.sink.deliver (c.batchOf p.postings) sink with
    | mk verdict s =>
      rw [hr] at hok hrest
      simp only at hok hrest
      rw [hok]
      simp only
      rw [ih hrest, List.map_cons]

/-- Batches that a sink takes all hold the envelopes of all their events, in order. -/
theorem exists_taken {parcels : List Parcel} (h : Accepts c parcels sink) :
    ∃ envelopes, List.Forall₂ c.Holds (taken c parcels sink) envelopes ∧
      List.Forall₂ c.Bears (parcels.flatMap (·.postings)) envelopes.flatten := by
  have hcarries : List.Forall₂ c.Carries (taken c parcels sink) (parcels.map (·.postings)) := by
    rw [taken_of_accepts h, List.forall₂_map_left_iff, List.forall₂_map_right_iff]
    exact List.forall₂_same.2 fun p _ => c.carries_batchOf p.postings
  rw [List.flatMap_def]
  exact Courier.exists_holds hcarries

/-- With nothing lost all that was numbered was sent, or waits. -/
theorem begun_of_dropped {l : Ledger δ} (hk : Kept c sink l) (h : l.outbox.dropped = 0) :
    l.begun.flatMap (·.postings) ++ l.outbox.queue = l.issued := by
  obtain ⟨front, hissued, hsublist, hperm⟩ := hk.parted
  have hnone : l.lost = [] := by
    rw [← List.length_eq_zero_iff, ← hk.dropped, h]
  rw [hnone, List.nil_append] at hperm
  rw [hsublist.eq_of_length hperm.length_eq, hissued]

end Outbox

open Outbox (Action Course Ledger Kept Orderly)

namespace Host

variable {sink : δ}

/-! ## The run -/

/-- A run that takes notes is driven as far as the run without. -/
theorem drive_noting (h : Host τ η κ δ) (p : Program) (inputs : KeyMap String) (limit : Option Nat)
    (backend : τ) (store : κ) (sink : δ) :
    let started := h.noted.begun p inputs (.fresh (backend, []) store sink)
    let started' := h.begun p inputs (.fresh backend store sink)
    Noting h sink (h.noted.drive limit 0 true started.1 started.2).1
        (h.drive limit 0 true started'.1 started'.2).1 ∧
      (h.noted.drive limit 0 true started.1 started.2).2.result? =
        (h.drive limit 0 true started'.1 started'.2).2.result? := by
  intro started started'
  have hbegun : Noting h sink started.1 started'.1 := by
    refine ⟨rfl, (Supplied.fresh h.courier backend store sink).act (a := .start) nofun rfl ?_⟩
    exact Outbox.seq_act (.inl rfl)
  obtain ⟨hstate, hthread⟩ := drive_alike (tied h sink) limit 0 true started.1 started.2 hbegun
    (.ready false (script_noting p inputs).plan)
  exact ⟨hstate, hthread.result?_eq⟩

/-- With notes and without a run comes to the same end. -/
theorem run_forget (h : Host τ η κ δ) (p : Program) (inputs : KeyMap String) (limit : Option Nat)
    (backend : τ) (store : κ) (sink : δ) :
    ((h.noted.run p inputs limit (.fresh (backend, []) store sink)).1.forget,
        (h.noted.run p inputs limit (.fresh (backend, []) store sink)).2) =
      h.run p inputs limit (.fresh backend store sink) := by
  obtain ⟨hstate, hresult⟩ := drive_noting h p inputs limit backend store sink
  have hforget := hstate.forget
  simp only [run, ← hresult, ← hforget]
  split
  · simp only [finish]
    split
    · rename_i hphase
      rw [if_pos (by exact hphase)]
      rfl
    · rename_i hphase
      rw [if_neg (by exact hphase)]
      rfl
  · rfl

/-- A run that is not canceled comes to an outcome, and has stopped its outbox then. -/
theorem run_outcome (h : Host τ η κ δ) (p : Program) (inputs : KeyMap String) (backend : τ)
    (store : κ) (sink : δ) :
    ∃ s outcome, Supplied h.courier sink s ∧
      h.noted.run p inputs none (.fresh (backend, []) store sink) =
        ({ s with outbox := s.outbox.stop h.courier }, some outcome) := by
  obtain ⟨hstate, _⟩ := drive_noting h p inputs none backend store sink
  have hends : ((h.noted.drive none 0 true
      (h.noted.begun p inputs (.fresh (backend, []) store sink)).1
      (h.noted.begun p inputs (.fresh (backend, []) store sink)).2).2.result?) ≠ none := by
    intro hnone
    have hheeded : (h.noted.begun p inputs (.fresh (backend, []) store sink)).2.Heeded := trivial
    obtain ⟨alarm, _, hreach⟩ := h.noted.drive_result none 0 true _ _ hheeded (.inl rfl) hnone
    cases hreach
  obtain ⟨outcome, hresult⟩ := Option.ne_none_iff_exists'.1 hends
  have hphase := Outbox.stop_phase (c := h.courier) hstate.supplied.orderly
  refine ⟨_, outcome, hstate.supplied, ?_⟩
  simp only [run, hresult]
  refine h.noted.finish_of_done fun hstopping => ?_
  have hsame := hphase.symm.trans hstopping
  cases hsame

end Host

/-- What a stop, and time after it, leave of an outbox that has been offered what the notes say: all of it got numbers. -/
theorem Supplied.halted {c : Courier δ} {sink : δ} {s : RunState (τ × List Heard) κ δ}
    (h : Supplied c sink s) {o : Outbox δ} (ho : Course c (s.outbox.act c .stop) o) :
    ∃ actions : List Action,
      (Ledger.history c sink actions).outbox = o ∧
      actions.filterMap (·.offer?) = s.backend.2.filterMap (·.offer) ∧
      (Ledger.history c sink actions).issued.map (·.offer) = s.backend.2.filterMap (·.offer) ∧
      (Ledger.history c sink actions).issued.map (·.seq) =
        List.range' 1 s.counters.eventsForwarded := by
  obtain ⟨actions, hstop, houtbox, hoffers, hcount⟩ := h
  obtain ⟨rest, hrest, rfl⟩ := ho
  have htimes : ∀ a ∈ .stop :: rest, a.offer? = none := by
    intro a ha
    rcases List.mem_cons.1 ha with rfl | ha
    · rfl
    · exact Action.offer?_of_isTimes (hrest a ha)
  -- The ledger when the program ended, and the one after the stop.
  have hbefore : (Ledger.history c sink actions).outbox = s.outbox :=
    (Ledger.after_outbox _ _).trans houtbox.symm
  have hafter : Ledger.history c sink (actions ++ .stop :: rest) =
      (Ledger.history c sink actions).after c (.stop :: rest) := Ledger.after_append _ _ _
  have hissued : (Ledger.history c sink (actions ++ .stop :: rest)).issued =
      (Ledger.history c sink actions).issued := by
    rw [hafter]
    exact Outbox.issued_of_times htimes
  refine ⟨actions ++ .stop :: rest, ?_, ?_, ?_, ?_⟩
  · rw [hafter, Ledger.after_outbox, hbefore]
    rfl
  · rw [List.filterMap_append, hoffers, List.filterMap_eq_nil_iff.2 htimes, List.append_nil]
  · rw [hissued, ← hoffers]
    exact Outbox.issued_after (Outbox.orderly_empty sink) rfl hstop
  · rw [hissued, (Kept.history c sink actions).numbered, hbefore, hcount]

/-! ## Statement -/

/-- What the envelopes are that a run sends, given the turns that it has read and how many events it says it has sent on. -/
structure Conveyed (c : Courier δ) (heard : List Heard) (count : Nat) (envelopes : List Envelope) :
    Prop where
  /-- The envelopes bring what the turns had to send on, in the order of the turns. -/
  offers : envelopes.map (·.offer) = heard.filterMap (·.offer)
  /-- The envelopes are numbered from one. -/
  numbered : envelopes.map (·.seq) = (List.range' 1 count).map UInt64.ofNat
  /-- Each envelope says which run it is of. -/
  own : ∀ e ∈ envelopes, e.version = eventVersion ∧ e.runId = c.context.runId ∧
    e.programHash = c.context.programHash ∧ e.principalId = c.context.principalId

/-- What a run from start to end leaves, given the turns that it has read. -/
structure Forwarded (c : Courier δ) (sink : δ) (heard : List Heard) (final : RunState τ κ δ) :
    Prop where
  /-- The outbox has stopped. -/
  stopped : final.outbox.phase = .stopped
  /-- Nothing waits, and nothing is under way. -/
  empty : final.outbox.queue = [] ∧ final.outbox.flight = none
  /-- The outbox was offered what the turns had to send on. If none of it gave way and the sink took all that it was brought, the
      batches that it has taken hold an envelope for each event that got a number, and all these bring just what was offered, under
      the numbers from one to the number of events that the run counted. -/
  sent : ∃ actions : List Action,
    (Ledger.history c sink actions).outbox = final.outbox ∧
    actions.filterMap (·.offer?) = heard.filterMap (·.offer) ∧
    final.outbox.sink = Outbox.deliveries c (Ledger.history c sink actions).ended sink ∧
    (final.outbox.dropped = 0 → Outbox.Accepts c (Ledger.history c sink actions).ended sink →
      ∃ envelopes : List (List Envelope),
        List.Forall₂ c.Holds (Outbox.taken c (Ledger.history c sink actions).ended sink) envelopes ∧
        List.Forall₂ c.Bears (Ledger.history c sink actions).issued envelopes.flatten ∧
        Conveyed c heard final.counters.eventsForwarded envelopes.flatten)

/-- Envelopes of events that were numbered from one as the turns offered them are what the run has to send. -/
theorem Conveyed.of_bears {c : Courier δ} {heard : List Heard} {count : Nat} {issued : List Posting}
    {envelopes : List Envelope} (hoffers : issued.map (·.offer) = heard.filterMap (·.offer))
    (hnumbered : issued.map (·.seq) = List.range' 1 count)
    (h : List.Forall₂ c.Bears issued envelopes) : Conveyed c heard count envelopes where
  offers := by
    rw [← hoffers]
    refine Courier.map_of_bears (fun p e he => ?_) h
    simp only [Envelope.offer, Posting.offer, he.agent, he.session, he.event, he.usage]
  numbered := by
    rw [← hnumbered, List.map_map]
    exact Courier.map_of_bears (fun p e he => he.seq) h
  own e he := by
    obtain ⟨p, _, hp⟩ := Courier.exists_of_mem_bears h he
    exact ⟨hp.version, hp.run, hp.program, hp.principal⟩

theorem Supplied.forwarded {c : Courier δ} {sink : δ} {s : RunState (τ × List Heard) κ δ}
    (h : Supplied c sink s) :
    Forwarded c sink s.backend.2 { s with outbox := s.outbox.stop c } := by
  have hphase : (s.outbox.stop c).phase = .stopped := Outbox.stop_phase h.orderly
  obtain ⟨hfree, hempty, _⟩ := (Outbox.orderly_stop h.orderly).stopped hphase
  obtain ⟨actions, hfinal, hoffers, hissued, hnumbered⟩ := h.halted Outbox.stop_course
  have hk := Kept.history c sink actions
  refine ⟨hphase, ⟨hempty, hfree⟩, actions, hfinal, hoffers, ?_, fun hdropped haccepts => ?_⟩
  · rw [← hk.handed, hfinal]
  · have hsent := Outbox.begun_of_dropped hk (by rw [hfinal]; exact hdropped)
    have hsingle := hk.single
    rw [hfinal, hfree, Option.toList_none, List.map_nil, List.append_nil] at hsingle
    rw [hfinal, hempty, List.append_nil, hsingle] at hsent
    obtain ⟨envelopes, hholds, hbears⟩ := Outbox.exists_taken haccepts
    rw [hsent] at hbears
    exact ⟨envelopes, hholds, hbears, .of_bears hissued hnumbered hbears⟩

/-- **What agents report reaches the sink.** A run that is not canceled comes to an outcome, whatever the program, the backend,
    the store and the sink do, and it goes on alike if the turns that it reads are noted; these determine all that it has sent
    on. -/
theorem run_forwards (h : Host τ η κ δ) (p : Program) (inputs : KeyMap String) (backend : τ)
    (store : κ) (sink : δ) :
    ∃ final outcome heard,
      h.run p inputs none (.fresh backend store sink) = (final, some outcome) ∧
      h.noted.run p inputs none (.fresh (backend, []) store sink) =
        ({ final with backend := (final.backend, heard) }, some outcome) ∧
      Forwarded h.courier sink heard final := by
  obtain ⟨s, outcome, hsupplied, hrun⟩ := h.run_outcome p inputs backend store sink
  have hforget := h.run_forget p inputs none backend store sink
  rw [hrun] at hforget
  have hforwarded := hsupplied.forwarded
  exact ⟨_, outcome, s.backend.2, hforget.symm, hrun, hforwarded.stopped, hforwarded.empty,
    hforwarded.sent⟩

/-- A sink in memory that refuses nothing takes all that it is brought. -/
theorem Outbox.accepts_memory {c : Courier MemorySink} (hsink : c.sink = MemorySink.sink)
    (parcels : List Outbox.Parcel) {s : MemorySink} (hs : s.failing = false) :
    Outbox.Accepts c parcels s := by
  induction parcels generalizing s with
  | nil => trivial
  | cons p rest ih =>
    refine ⟨?_, ih ?_⟩
    · simp [hsink, MemorySink.sink, hs]
    · simp [hsink, MemorySink.sink, hs]

/-- A host of rehearsals that sends each event in a batch of its own to a sink that keeps all. -/
def Host.relaying : Host Rehearsal RehearsalSession MemoryStore MemorySink where
  courier := ⟨⟨fun _ => [0], fun _ _ => [0]⟩, ⟨"run", "hash", "user"⟩, ⟨500, 1, 2000, "procflow"⟩,
    none, MemorySink.sink, .ofMillis⟩
  backend := .rehearsal
  store := MemoryStore.operations ⟨fun _ => [0], fun _ _ => [0]⟩

/-- A program of one session. -/
def Program.pondering : Program :=
  ⟨[], [], [.session ⟨none, "Ponder"⟩]⟩

/-- The session says which it is, then thinks and says what that cost, and then breaks off. -/
def Rehearsal.pondering : Rehearsal :=
  .ofParts [("Ponder", [{ Part.plain with turns := some [(0, .ok (.ofEvent (.sessionStarted "s-9"))),
    (20, .ok ⟨none, some ⟨some "m-1", 1, 2, 0⟩, some (.thinking "Hm"), none⟩),
    (0, .error (.ofKind .adapterFailed "cut off"))] }])]

/-- The run fails. Its two events have reached the sink by then, each in a batch, under the id that the session has said. -/
theorem run_forwards_pondering :
    ∃ final e heard actions envelopes,
      Host.relaying.run .pondering [] none (.fresh .pondering [] .empty) =
        (final, some (.error e)) ∧
      Forwarded Host.relaying.courier .empty heard final ∧
      (heard.filterMap (·.offer)).map (fun o => (o.agent, o.session, o.usage)) =
        [("default", some "s-9", none), ("default", some "s-9", some ⟨some "m-1", 1, 2, 0⟩)] ∧
      (Ledger.history Host.relaying.courier .empty actions).outbox = final.outbox ∧
      final.outbox.dropped = 0 ∧
      Outbox.Accepts Host.relaying.courier
        (Ledger.history Host.relaying.courier .empty actions).ended .empty ∧
      List.Forall₂ Host.relaying.courier.Holds
        (Outbox.taken Host.relaying.courier
          (Ledger.history Host.relaying.courier .empty actions).ended .empty) envelopes ∧
      Conveyed Host.relaying.courier heard 2 envelopes.flatten ∧
      final.outbox.sink.batches.map (·.size) = [1, 1] := by
  have hworked : (Host.relaying.noted.driveWithin none 40 0 true
      (Host.relaying.noted.begun .pondering [] (.fresh (.pondering, []) [] .empty)).1
      (Host.relaying.noted.begun .pondering [] (.fresh (.pondering, []) [] .empty)).2).any (fun r =>
        r.2.result?.any fun outcome =>
          let finished := Host.relaying.noted.finish none outcome r.1
          finished.2.any (!·.isOk) &&
          (finished.1.backend.2.filterMap (·.offer)).map (fun o => (o.agent, o.session, o.usage)) ==
            [("default", some "s-9", none), ("default", some "s-9", some ⟨some "m-1", 1, 2, 0⟩)] &&
          finished.1.outbox.dropped == 0 && finished.1.counters.eventsForwarded == 2 &&
          finished.1.outbox.sink.batches.map (·.size) == [1, 1]) = true := by
    decide +kernel
  obtain ⟨r, hwithin, hended⟩ := (Option.any_eq_true _ _).1 hworked
  obtain ⟨outcome, hresult, hfinished⟩ := (Option.any_eq_true _ _).1 hended
  obtain ⟨final, verdict, heard, hrun, hnoted, hforwarded⟩ :=
    run_forwards Host.relaying .pondering [] .pondering [] .empty
  have hfinish : Host.relaying.noted.finish none outcome r.1 =
      ({ final with backend := (final.backend, heard) }, some verdict) := by
    rw [← hnoted]
    unfold Host.run
    simp only [Host.relaying.noted.drive_of_within hwithin, hresult]
  simp only [hfinish, Bool.and_eq_true, beq_iff_eq, Option.any_some, Bool.not_eq_true'] at hfinished
  obtain ⟨⟨⟨⟨hfails, hoffers⟩, hdropped⟩, hcount⟩, hsizes⟩ := hfinished
  obtain ⟨actions, hfinal, _, _, hsent⟩ := hforwarded.sent
  have haccepts := Outbox.accepts_memory (c := Host.relaying.courier) rfl
    (Ledger.history Host.relaying.courier .empty actions).ended (s := .empty) rfl
  obtain ⟨envelopes, hholds, _, hconveyed⟩ := hsent hdropped haccepts
  rw [hcount] at hconveyed
  cases verdict with
  | ok _ => cases hfails
  | error e =>
    exact ⟨final, e, heard, actions, envelopes, hrun, hforwarded, hoffers, hfinal, hdropped, haccepts,
      hholds, hconveyed, hsizes⟩

end Playbook
