import Playbook.Backend.Echo
import Playbook.Proofs.Outbox.Conservation
import Playbook.Proofs.Run.Forwarding
import Playbook.Run.Launch

/-!
# `Proofs.Run.Cancellation` — what becomes of events when a run is canceled

While its program is running a run can be canceled at any time without losing an event: the outbox is stopped, which sends all
that waits. But once the program has ended, the outbox is being stopped already, and a stop that is broken off is not taken up
again: the delivery under way never ends, and what waits is not sent. So the events of a canceled run survive exactly if its
program had not ended by then.

## Contents
- **Ledgers.** `arrived_of_done`, `not_arrived_of_busy`.
- **What survives.** `Told` ties a ledger to the outbox of a canceled run; `Survived`.
- **Runs.** `Supplied.cancel` and `Supplied.abandon` are the two ways in which a run is canceled; `Host.ends` tells them apart.
- **Launches.** `launch_survived_iff`, and a greeting that is lost.
-/

namespace Playbook

variable {τ η κ δ : Type}

open Outbox (Action Course Ledger Kept Orderly)

/-! ## Ledgers -/

namespace Outbox

variable {c : Courier δ} {sink : δ} {l : Ledger δ}

/-- With nothing under way and nothing that waits, all events have been brought to the sink or gave way. -/
theorem arrived_of_done (hk : Kept c sink l) (hfree : l.outbox.flight = none)
    (hempty : l.outbox.queue = []) : (l.arrived ++ l.lost).Perm l.issued := by
  obtain ⟨front, hissued, _, hperm⟩ := hk.parted
  have hbegun := hk.begun_eq
  rw [Ledger.aloft, hfree, Option.toList_none, List.flatMap_nil, List.append_nil] at hbegun
  rw [hempty, List.append_nil] at hissued
  rw [hissued, ← hbegun]
  exact List.perm_append_comm.trans hperm

/-- With a delivery under way some event has neither been brought to the sink nor given way. -/
theorem not_arrived_of_busy (hk : Kept c sink l) {f : Flight} (hf : l.outbox.flight = some f) :
    ¬(l.arrived ++ l.lost).Perm l.issued := by
  intro harrived
  obtain ⟨front, hissued, _, hperm⟩ := hk.parted
  have hbegun := hk.begun_eq
  have haloft : l.aloft = f.postings := by simp [Ledger.aloft, hf]
  have hsome : f.postings ≠ [] := by
    refine (hk.full f.parcel ?_).1
    rw [hk.single, hf]
    simp
  have hpos := List.length_pos_iff.2 hsome
  have hcount := hperm.length_eq
  have hall := harrived.length_eq
  rw [hbegun, haloft] at hcount
  rw [hissued] at hall
  simp only [List.length_append] at hcount hall
  omega

end Outbox

/-! ## What survives -/

/-- What the outbox of a canceled run is, given the turns that the run has read and a ledger. -/
structure Told (c : Courier δ) (sink : δ) (heard : List Heard) (l : Ledger δ) (o : Outbox δ) :
    Prop where
  /-- All that the turns have to send on got numbers. -/
  issued : l.issued.map (·.offer) = heard.filterMap (·.offer)
  /-- The outbox is the one of the ledger, except that a stop may have been broken off. -/
  outbox : o = l.outbox ∨ l.outbox.phase = .stopping ∧ o = l.outbox.abandon
  /-- The sink has been brought the batches whose deliveries have ended, and nothing else. -/
  handed : o.sink = Outbox.deliveries c l.ended sink
  /-- The events that gave way are counted. -/
  dropped : o.dropped = l.lost.length

/-- Whether all events that got numbers and did not give way have been brought to the sink, and none waits. -/
def Survived (l : Ledger δ) (o : Outbox δ) : Prop :=
  (l.arrived ++ l.lost).Perm l.issued ∧ o.queue = []

/-! ## Runs -/

/-- When a run is canceled while its program is running, all its events survive. -/
theorem Supplied.cancel (h : Host τ η κ δ) {sink : δ} {s : RunState (τ × List Heard) κ δ}
    (hs : Supplied h.courier sink s) (limit : Option Nat) :
    ∃ actions,
      Told h.courier sink (h.noted.cancel limit s).backend.2 (.history h.courier sink actions)
        (h.noted.cancel limit s).outbox ∧
      Survived (.history h.courier sink actions) (h.noted.cancel limit s).outbox := by
  have hlater := hs.course (Outbox.advance_course (limit.getD s.outbox.clock))
  obtain ⟨actions, hfinal, _, hissued, _⟩ := hlater.halted Outbox.stop_course
  have hk := Kept.history h.courier sink actions
  have hphase := Outbox.stop_phase (c := h.courier) hlater.orderly
  obtain ⟨hfree, hempty, _⟩ := (Outbox.orderly_stop (c := h.courier) hlater.orderly).stopped hphase
  have hdropped := hk.dropped
  have hhanded := hk.handed
  have harrived := Outbox.arrived_of_done hk (hfinal ▸ hfree) (hfinal ▸ hempty)
  rw [hfinal] at hdropped hhanded
  exact ⟨actions, ⟨hissued, .inl hfinal.symm, hhanded, hdropped⟩, harrived, hempty⟩

/-- When a run is canceled while its outbox is being stopped, some event is lost. -/
theorem Supplied.abandon (h : Host τ η κ δ) {sink : δ} {s : RunState (τ × List Heard) κ δ}
    (hs : Supplied h.courier sink s) {limit : Option Nat} {outcome : Outcome}
    (hnone : (h.noted.finish limit outcome s).2 = none) :
    ∃ actions,
      Told h.courier sink (h.noted.finish limit outcome s).1.backend.2
        (.history h.courier sink actions) (h.noted.finish limit outcome s).1.outbox ∧
      ¬Survived (.history h.courier sink actions) (h.noted.finish limit outcome s).1.outbox := by
  have hcourse : Course h.courier (s.outbox.act h.courier .stop)
      ((s.outbox.beginStop h.courier).settle h.courier limit) := Outbox.settle_course limit
  obtain ⟨actions, hfinal, _, hissued, _⟩ := hs.halted hcourse
  have hk := Kept.history h.courier sink actions
  have horderly := hcourse.orderly (hs.orderly.act .stop)
  by_cases hphase : ((s.outbox.beginStop h.courier).settle h.courier limit).phase = .stopping
  · obtain ⟨f, hf⟩ := Option.ne_none_iff_exists'.1 (horderly.stopping hphase)
    have hhanded := hk.handed
    have hdropped := hk.dropped
    rw [hfinal] at hhanded hdropped
    rw [h.noted.finish_of_stopping (by exact hphase)]
    refine ⟨actions, ⟨hissued, .inr ⟨?_, ?_⟩, hhanded, hdropped⟩, fun hsurvived => ?_⟩
    · rw [hfinal]
      exact hphase
    · rw [hfinal]
      rfl
    · exact Outbox.not_arrived_of_busy hk (hfinal ▸ hf) hsurvived.1
  · rw [h.noted.finish_of_done (by exact hphase)] at hnone
    cases hnone

namespace Host

/-- Whether a program has ended by itself before a limit. -/
def ends (h : Host τ η κ δ) (p : Program) (inputs : KeyMap String) (limit : Option Nat)
    (s : RunState τ κ δ) : Bool :=
  (h.drive limit 0 true (h.begun p inputs s).1 (h.begun p inputs s).2).2.result?.isSome

/-- The events of a run that is canceled survive if and only if its program had not ended by itself. -/
theorem run_survived_iff (h : Host τ η κ δ) (p : Program) (inputs : KeyMap String)
    (limit : Option Nat) (backend : τ) (store : κ) (sink : δ)
    (hnone : (h.run p inputs limit (.fresh backend store sink)).2 = none) :
    ∃ actions,
      Told h.courier sink
        (h.noted.run p inputs limit (.fresh (backend, []) store sink)).1.backend.2
        (.history h.courier sink actions)
        (h.run p inputs limit (.fresh backend store sink)).1.outbox ∧
      (Survived (.history h.courier sink actions)
          (h.run p inputs limit (.fresh backend store sink)).1.outbox ↔
        h.ends p inputs limit (.fresh backend store sink) = false) := by
  obtain ⟨⟨_, hsupplied⟩, hresult⟩ := drive_noting h p inputs limit backend store sink
  rw [← h.run_forget] at hnone ⊢
  simp only [ends, ← hresult]
  simp only [run] at hnone ⊢
  cases hends : Thread.result? _ with
  | none =>
    obtain ⟨actions, htold, hsurvived⟩ := hsupplied.cancel h limit
    exact ⟨actions, htold, fun _ => rfl, fun _ => hsurvived⟩
  | some outcome =>
    simp only [hends] at hnone
    obtain ⟨actions, htold, hlost⟩ := hsupplied.abandon h hnone
    refine ⟨actions, htold, fun hsurvived => absurd hsurvived hlost, fun hends => ?_⟩
    cases hends

end Host

/-! ## Launches -/

namespace Launcher

/-- Only a run without an outcome is reported as canceled. -/
theorem report_canceled {h : Host τ η κ δ} {s : RunState τ κ δ} {outcome : Option Outcome}
    (hcanceled : (report h s outcome).status = .canceled) : outcome = none := by
  match outcome with
  | none => rfl
  | some (.ok ()) => cases hcanceled
  | some (.error e) => cases hcanceled

/-- A manifest that is good is run. -/
theorem launch_of_prepare {l : Launcher τ η κ δ} {m : Manifest} {p : Program}
    (hprepare : l.config.prepare l.scheme m = .ok p) (inputs : KeyMap String)
    (limit : Option Nat) (s : RunState τ κ δ) :
    l.launch m inputs limit s =
      (report (l.host m) ((l.host m).run p inputs limit s).1 ((l.host m).run p inputs limit s).2,
        ((l.host m).run p inputs limit s).1) := by
  unfold launch
  rw [hprepare]

/-- The events of a run that is reported as canceled survive if and only if its program had not ended by itself: once it has,
    the outbox is being stopped, and what the stop has still to send when it is broken off is lost. -/
theorem launch_survived_iff (l : Launcher τ η κ δ) (m : Manifest) (inputs : KeyMap String)
    (limit : Option Nat) (backend : τ) (store : κ) (sink : δ)
    (hcanceled : (l.launch m inputs limit (.fresh backend store sink)).1.status = .canceled) :
    ∃ p actions,
      l.config.prepare l.scheme m = .ok p ∧
      Told (l.host m).courier sink
        ((l.host m).noted.run p inputs limit (.fresh (backend, []) store sink)).1.backend.2
        (.history (l.host m).courier sink actions)
        (l.launch m inputs limit (.fresh backend store sink)).2.outbox ∧
      (Survived (.history (l.host m).courier sink actions)
          (l.launch m inputs limit (.fresh backend store sink)).2.outbox ↔
        (l.host m).ends p inputs limit (.fresh backend store sink) = false) := by
  cases hprepare : l.config.prepare l.scheme m with
  | error e =>
    unfold launch at hcanceled
    rw [hprepare] at hcanceled
    cases hcanceled
  | ok p =>
    rw [launch_of_prepare hprepare] at hcanceled ⊢
    obtain ⟨actions, htold, hiff⟩ :=
      (l.host m).run_survived_iff p inputs limit backend store sink (report_canceled hcanceled)
    exact ⟨p, actions, rfl, htold, hiff⟩

/-- A sink that takes 50 milliseconds for a batch. -/
def slowSink : MemorySink := ⟨50, false, []⟩

/-- Sessions that answer at once. -/
def echoing : Launcher Nat EchoSession MemoryStore MemorySink where
  scheme := ⟨fun _ => [0], fun _ _ => [0]⟩
  config := ⟨⟨"secret", ""⟩, .standard, "user"⟩
  backend := .echo
  store := MemoryStore.operations ⟨fun _ => [0], fun _ _ => [0]⟩
  sink := MemorySink.sink
  time := .ofMillis

/-- A program of one session. -/
def greeting : Manifest :=
  (Manifest.create echoing.scheme "run" "session \"Hi\"\n").sealWith echoing.scheme "secret"

/-- The program ends at once, and 20 milliseconds later its only event is still on its way to the sink. -/
theorem greeting_cut_off :
    ∃ p, echoing.config.prepare echoing.scheme greeting = .ok p ∧
      (echoing.host greeting).ends p [] (some 20) (.fresh 0 [] slowSink) = true ∧
      ((echoing.host greeting).run p [] (some 20) (.fresh 0 [] slowSink)).2 = none := by
  have hworked : (echoing.config.prepare echoing.scheme greeting).toOption.any (fun p =>
      ((echoing.host greeting).driveWithin (some 20) 20 0 true
        ((echoing.host greeting).begun p [] (.fresh 0 [] slowSink)).1
        ((echoing.host greeting).begun p [] (.fresh 0 [] slowSink)).2).any fun r =>
          r.2.result?.any fun outcome =>
            ((echoing.host greeting).finish (some 20) outcome r.1).2.isNone) = true := by
    decide +kernel
  obtain ⟨p, hparsed, hdriven⟩ := (Option.any_eq_true _ _).1 hworked
  obtain ⟨r, hwithin, houtcome⟩ := (Option.any_eq_true _ _).1 hdriven
  obtain ⟨outcome, hresult, hnone⟩ := (Option.any_eq_true _ _).1 houtcome
  have hprepare : echoing.config.prepare echoing.scheme greeting = .ok p := by
    cases hverdict : echoing.config.prepare echoing.scheme greeting with
    | error e =>
      rw [hverdict] at hparsed
      cases hparsed
    | ok program =>
      rw [hverdict] at hparsed
      rw [Option.some.inj hparsed]
  have hdrive := (echoing.host greeting).drive_of_within hwithin
  refine ⟨p, hprepare, ?_, ?_⟩
  · unfold Host.ends
    rw [hdrive, hresult]
    rfl
  · unfold Host.run
    simp only [hdrive, hresult]
    exact Option.isNone_iff_eq_none.1 hnone

/-- The greeting is lost. -/
theorem launch_survived_iff_greeting :
    (echoing.launch greeting [] (some 20) (.fresh 0 [] slowSink)).1.status = .canceled ∧
      ∃ heard actions,
        Told (echoing.host greeting).courier slowSink heard
          (.history (echoing.host greeting).courier slowSink actions)
          (echoing.launch greeting [] (some 20) (.fresh 0 [] slowSink)).2.outbox ∧
        ¬Survived (.history (echoing.host greeting).courier slowSink actions)
          (echoing.launch greeting [] (some 20) (.fresh 0 [] slowSink)).2.outbox := by
  obtain ⟨p, hprepare, hends, hnone⟩ := greeting_cut_off
  have hcanceled :
      (echoing.launch greeting [] (some 20) (.fresh 0 [] slowSink)).1.status = .canceled := by
    rw [launch_of_prepare hprepare, hnone]
    rfl
  obtain ⟨p', actions, hprepare', htold, hiff⟩ :=
    launch_survived_iff echoing greeting [] (some 20) 0 [] slowSink hcanceled
  cases Except.ok.inj (hprepare.symm.trans hprepare')
  refine ⟨hcanceled, _, actions, htold, fun hsurvived => ?_⟩
  rw [hiff.1 hsurvived] at hends
  cases hends

end Launcher

end Playbook
