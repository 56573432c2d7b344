import Playbook.Proofs.Run.Pact
import Playbook.Run.Execution

/-!
# `Proofs.Run.Moments` — the moments of a run

A run goes on in steps, and each step leads through several states of the world: one after every change that is made in it. All
of them are *moments* of the run. What a program grants, and what the outbox does in between, leads from every moment to the
next ones, so whatever outlasts these changes holds at all moments.

A run that keeps a pact next to a plainer run has the same moments as that, seen through the view, and comes to the same result.

## Contents
- **Steps.** `Plan.Visits`, `Thread.Visits`: the worlds through which a step leads.
- **Runs.** `Host.Passes`: the moments of a run. `Host.Overlays`: when a host may stand for a plainer one.
- **To the end.** `Host.drive_keeps`.
- **At all moments.** `Host.passes_keeps`, `Host.passes_view`; `Host.passes_drive`, the last of them.
-/

namespace Playbook

open Relation (ReflTransGen)

variable {σ σ' ω : Type}

/-! ## Steps -/

/-- The worlds through which a plan leads until it waits, splits or ends. -/
inductive Plan.Visits : Plan σ ω → σ → σ → Prop where
  | here {p : Plan σ ω} {w : σ} : Visits p w w
  | look {next : σ → Plan σ ω} {w v : σ} (h : Visits (next w) w v) : Visits (.look next) w v
  | put {u w v : σ} {next : Plan σ ω} (h : Visits next u v) : Visits (.put u next) w v
  | wait {next : Plan σ ω} {w v : σ} (h : Visits next w v) : Visits (.wait 0 next) w v

/-- The worlds through which a step of a thread leads. -/
inductive Thread.Visits : Thread σ ω → σ → σ → Prop where
  | ready {next : Plan σ ω} {stirred : Bool} {w v : σ} (h : next.Visits w v) :
      Visits (.ready next stirred) w v
  | branch {ts : List (Thread σ ω)} {line : Line} {results : List ω} {next : List ω → Plan σ ω}
      {i : Nat} {t : Thread σ ω} {w v : σ} (hqueue : line.queue.head? = some i)
      (ht : ts[i]? = some t) (h : Visits t w v) : Visits (.forked ts line results next) w v

/-- A change that somebody makes, on the way or at the end. -/
inductive Pact.Acts (pact : Pact σ) (ends : ω → σ → σ → Prop) (w v : σ) : Prop where
  | own (h : pact.grant w v)
  | last (r : ω) (h : ends r w v)

section

variable {view : σ → σ'} {pact : Pact σ} {pre : σ → Prop} {ends : ω → σ → σ → Prop} {w v : σ}

theorem Pact.Leads.acts {standing : Standing ω} (h : pact.Leads ends w standing v) :
    ReflTransGen (pact.Acts ends) w v := by
  have hgrant : ∀ u, ReflTransGen pact.grant w u → ReflTransGen (pact.Acts ends) w u :=
    fun u hu => ReflTransGen.mono (fun _ _ => .own) w u hu
  cases standing with
  | last r again =>
    obtain ⟨u, hwu, hends⟩ := h
    exact (hgrant u hwu).tail (.last r hends)
  | kept => exact hgrant v h
  | back again => exact hgrant v h
  | refused => exact hgrant v h

/-- What a branch does is granted to the fork. -/
theorem Pact.Shares.acts_up {part : Nat → Pact σ} {partEnds : Nat → ω → σ → σ → Prop}
    {joint : List (Nat × ω) → σ → Prop} {n i : Nat}
    (hshares : pact.Shares n part partEnds joint) (hi : i < n)
    (h : ReflTransGen ((part i).Acts (partEnds i)) w v) : ReflTransGen (pact.Acts ends) w v := by
  refine ReflTransGen.mono ?_ w v h
  intro w v hact
  cases hact with
  | own h => exact .own (hshares.up i w v hi h)
  | last r h => exact .own (hshares.upLast i r w v hi h)

/-- The worlds through which a plan leads lie between the first and the last. -/
theorem Plan.Keeps.visits {p : Plan σ ω} {p' : Plan σ' ω} (number now : Nat) (stirred : Bool)
    (h : Plan.Keeps view pact pre p p' ends) :
    ∀ {w v}, pre w → p.Visits w v →
      ReflTransGen (pact.Acts ends) w v ∧
        ReflTransGen (pact.Acts ends) v (p.go number now stirred w).1 ∧
        p'.Visits (view w) (view v) := by
  induction h with
  | done hends =>
    intro w v hw hv
    cases hv
    exact ⟨.refl, .refl, .here⟩
  | @finish pact pre r ends f hview hends =>
    intro w v hw hv
    have hlast : ReflTransGen (pact.Acts ends) w (f w) := .single (.last r (hends w hw))
    cases hv with
    | here => exact ⟨.refl, hlast, .here⟩
    | look hv =>
      cases hv with
      | here => exact ⟨.refl, hlast, .here⟩
      | put hv =>
        cases hv
        rw [hview w]
        exact ⟨hlast, .refl, .here⟩
  | @note pact pre f next p' ends hview hgrant h ih =>
    intro w v hw hv
    have hfirst : pact.Acts ends w _ := .own (hgrant w hw)
    have hrest := ((h w hw).go number now stirred (f w) rfl).leads.acts.head hfirst
    cases hv with
    | here => exact ⟨.refl, hrest, .here⟩
    | look hv =>
      cases hv with
      | here => exact ⟨.refl, hrest, .here⟩
      | put hv =>
        obtain ⟨hto, hfrom, hvisits⟩ := ih w hw rfl hv
        rw [hview w] at hvisits
        exact ⟨hto.head hfirst, hfrom, hvisits⟩
  | any hany _ ih =>
    intro w v hw hv
    obtain ⟨i, hi⟩ := hany w hw
    exact ih i hi hv
  | look h ih =>
    intro w v hw hv
    cases hv with
    | here => exact ⟨.refl, ((h w hw).go number now stirred w rfl).leads.acts, .here⟩
    | look hv =>
      obtain ⟨hto, hfrom, hvisits⟩ := ih w hw rfl hv
      exact ⟨hto, hfrom, .look hvisits⟩
  | @put pact pre u next next' ends hgrant h ih =>
    intro w v hw hv
    have hfirst : pact.Acts ends w _ := .own (hgrant w hw)
    cases hv with
    | here =>
      exact ⟨.refl, (h.go number now stirred u rfl).leads.acts.head hfirst, .here⟩
    | put hv =>
      obtain ⟨hto, hfrom, hvisits⟩ := ih rfl hv
      exact ⟨hto.head hfirst, hfrom, .put hvisits⟩
  | @wait pact pre mid ms next next' ends hfirm hmid h ih =>
    intro w v hw hv
    cases hv with
    | here =>
      exact ⟨.refl, ((Plan.Keeps.wait hfirm hmid h).go number now stirred w hw).leads.acts, .here⟩
    | wait hv =>
      obtain ⟨hto, hfrom, hvisits⟩ := ih (hmid w hw) hv
      exact ⟨hto, hfrom, .wait hvisits⟩
  | fork =>
    intro w v hw hv
    cases hv
    exact ⟨.refl, .refl, .here⟩

/-- Each world through which the plainer plan leads is the view of one through which the other leads. -/
theorem Plan.Keeps.visits_view {p : Plan σ ω} {p' : Plan σ' ω}
    (h : Plan.Keeps view pact pre p p' ends) :
    ∀ {w v'}, pre w → p'.Visits (view w) v' → ∃ v, p.Visits w v ∧ view v = v' := by
  induction h with
  | done =>
    intro w v' _ hv
    cases hv
    exact ⟨w, .here, rfl⟩
  | finish =>
    intro w v' _ hv
    cases hv
    exact ⟨w, .here, rfl⟩
  | @note pact pre f next p' ends hview hgrant h ih =>
    intro w v' hw hv
    rw [← hview w] at hv
    obtain ⟨v, hvisits, hv⟩ := ih w hw rfl hv
    exact ⟨v, .look (.put hvisits), hv⟩
  | any hany _ ih =>
    intro w v' hw hv
    obtain ⟨i, hi⟩ := hany w hw
    exact ih i hi hv
  | look h ih =>
    intro w v' hw hv
    cases hv with
    | here => exact ⟨w, .here, rfl⟩
    | look hv =>
      obtain ⟨v, hvisits, hv⟩ := ih w hw rfl hv
      exact ⟨v, .look hvisits, hv⟩
  | put hgrant h ih =>
    intro w v' hw hv
    cases hv with
    | here => exact ⟨w, .here, rfl⟩
    | put hv =>
      obtain ⟨v, hvisits, hv⟩ := ih rfl hv
      exact ⟨v, .put hvisits, hv⟩
  | wait hfirm hmid h ih =>
    intro w v' hw hv
    cases hv with
    | here => exact ⟨w, .here, rfl⟩
    | wait hv =>
      obtain ⟨v, hvisits, hv⟩ := ih (hmid w hw) hv
      exact ⟨v, .wait hvisits, hv⟩
  | fork =>
    intro w v' hw hv
    cases hv
    exact ⟨w, .here, rfl⟩

namespace Thread

variable {t : Thread σ ω} {t' : Thread σ' ω}

/-- The worlds through which a step leads lie between the first and the last. -/
theorem Keeps.visits (number now : Nat) (h : Keeps view pact w t t' ends) (hv : t.Visits w v) :
    ReflTransGen (pact.Acts ends) w v ∧
      ReflTransGen (pact.Acts ends) v (t.step number now w).1 ∧ t'.Visits (view w) (view v) := by
  induction h with
  | ended => cases hv
  | waiting => cases hv
  | ready hfirm hpre h =>
    cases hv with
    | ready hv =>
      obtain ⟨hto, hfrom, hvisits⟩ := h.visits number now _ hpre hv
      exact ⟨hto, hfrom, .ready hvisits⟩
  | @forked pact w ts ts' line rs next next' ends part partEnds joint hshares hlength hjoint hnodup
      hended hthreads h ih =>
    cases hv with
    | @branch _ _ _ _ i t _ _ hqueue ht hv =>
      have hi : i < ts.length := (List.getElem?_eq_some_iff.1 ht).1
      have hlt : i < ts'.length := hlength ▸ hi
      have ht' : ts'[i]? = some ts'[i] := List.getElem?_eq_getElem hlt
      obtain ⟨hto, hfrom, hvisits⟩ := ih i t ts'[i] ht ht' hv
      refine ⟨hshares.acts_up hi hto, ?_, .branch hqueue ht' hvisits⟩
      have hworld : ((Thread.forked ts line (rs.map Prod.snd) next).step number now w).1 =
          (t.step number now w).1 := by
        obtain ⟨queue, hqueue⟩ : ∃ queue, line.queue = i :: queue := by
          cases hq : line.queue with
          | nil => simp [hq] at hqueue
          | cons j queue =>
            rw [hq, List.head?_cons, Option.some.injEq] at hqueue
            exact ⟨queue, by rw [hqueue]⟩
        simp only [Thread.step, hqueue, stepAt_of_some ht]
        cases hr : t.step number now w with
        | mk v rest =>
          obtain ⟨x, standing⟩ := rest
          cases standing with
          | back again =>
            simp only
            split <;> rfl
          | kept => rfl
          | refused => rfl
          | last => rfl
      rw [hworld]
      exact hshares.acts_up hi hfrom

/-- Each world through which a step of the plainer thread leads is the view of one through which the other leads. -/
theorem Keeps.visits_view {v' : σ'} (h : Keeps view pact w t t' ends) (hv : t'.Visits (view w) v') :
    ∃ v, t.Visits w v ∧ view v = v' := by
  induction h with
  | ended => cases hv
  | waiting => cases hv
  | ready hfirm hpre h =>
    cases hv with
    | ready hv =>
      obtain ⟨v, hvisits, hv⟩ := h.visits_view hpre hv
      exact ⟨v, .ready hvisits, hv⟩
  | @forked pact w ts ts' line rs next next' ends part partEnds joint hshares hlength hjoint hnodup
      hended hthreads h ih =>
    cases hv with
    | @branch _ _ _ _ i t' _ _ hqueue ht' hv =>
      have hlt : i < ts.length := hlength ▸ (List.getElem?_eq_some_iff.1 ht').1
      have ht : ts[i]? = some ts[i] := List.getElem?_eq_getElem hlt
      obtain ⟨v, hvisits, hv⟩ := ih i ts[i] t' ht ht' hv
      exact ⟨v, .branch hqueue ht hvisits, hv⟩

end Thread

end

/-! ## Runs -/

namespace Host

variable {τ η κ κ' δ : Type}

/-- The moments of a run: the states through which a program leads from here on, not beyond a limit. -/
inductive Passes (h : Host τ η κ δ) (limit : Option Nat) :
    Nat → Bool → RunState τ κ δ → Running τ κ δ → RunState τ κ δ → Prop where
  | now {number : Nat} {awake : Bool} {s : RunState τ κ δ} {t : Running τ κ δ} :
      Passes h limit number awake s t s
  | within {number : Nat} {s w : RunState τ κ δ} {t : Running τ κ δ} (hw : t.Visits s w) :
      Passes h limit number true s t w
  | step {number : Nat} {s w : RunState τ κ δ} {t : Running τ κ δ}
      (hw : Passes h limit (number + 1) (t.step number s.outbox.clock s).2.2.goesOn
        (h.giveWay (t.step number s.outbox.clock s).2.2 (t.step number s.outbox.clock s).1)
        (t.step number s.outbox.clock s).2.1 w) : Passes h limit number true s t w
  | call {number : Nat} {awake : Bool} {s w : RunState τ κ δ} {t : Running τ κ δ} {alarm : Alarm}
      (hawake : awake ≠ true) (hdue : t.due = some alarm) (hreach : ¬reaches limit alarm.time)
      (hw : Passes h limit number ((t.call alarm).1.due.all (·.time ≠ alarm.time))
        (h.catchUp alarm.time s) (t.call alarm).1 w) : Passes h limit number awake s t w

/-- A host and a plainer one that agree on all but what the second does not know of, and a pact that puts up with the work of the
    outbox. -/
structure Overlays (h : Host τ η κ' δ) (plain : Host τ η κ δ)
    (view : RunState τ κ' δ → RunState τ κ δ) (pact : Pact (RunState τ κ' δ)) : Prop where
  courier : h.courier = plain.courier
  outbox : ∀ s, (view s).outbox = s.outbox
  withOutbox : ∀ s outbox, view { s with outbox } = { view s with outbox }
  rely : ∀ s outbox, pact.rely s { s with outbox }

/-- A change in a run, by its program or by others. -/
def Changes (pact : Pact σ) (ends : ω → σ → σ → Prop) (w v : σ) : Prop :=
  pact.Acts ends w v ∨ pact.rely w v

section

variable {h : Host τ η κ' δ} {plain : Host τ η κ δ} {view : RunState τ κ' δ → RunState τ κ δ}
  {pact : Pact (RunState τ κ' δ)} {ends : Outcome → RunState τ κ' δ → RunState τ κ' δ → Prop}
  {limit : Option Nat} {number : Nat} {awake : Bool} {s : RunState τ κ' δ} {t : Running τ κ' δ}
  {t' : Running τ κ δ}

theorem Overlays.giveWay (hover : Overlays h plain view pact) (standing : Standing Outcome)
    (s : RunState τ κ' δ) : plain.giveWay standing (view s) = view (h.giveWay standing s) := by
  unfold Host.giveWay
  split
  · rw [hover.outbox, ← hover.courier]
    exact (hover.withOutbox s _).symm
  · rfl

theorem Overlays.catchUp (hover : Overlays h plain view pact) (now : Nat) (s : RunState τ κ' δ) :
    plain.catchUp now (view s) = view (h.catchUp now s) := by
  unfold Host.catchUp
  rw [hover.outbox, ← hover.courier]
  exact (hover.withOutbox s _).symm

theorem Overlays.rely_giveWay (hover : Overlays h plain view pact) (standing : Standing Outcome)
    (s : RunState τ κ' δ) : ReflTransGen pact.rely s (h.giveWay standing s) := by
  unfold Host.giveWay
  split
  · exact .single (hover.rely s _)
  · exact .refl

/-! ## To the end -/

/-- What has come of a program that was driven, and of a plainer one next to it. -/
structure DriveKeeps (view : RunState τ κ' δ → RunState τ κ δ) (pact : Pact (RunState τ κ' δ))
    (ends : Outcome → RunState τ κ' δ → RunState τ κ' δ → Prop) (s : RunState τ κ' δ)
    (t : Running τ κ' δ) (r : RunState τ κ' δ × Running τ κ' δ)
    (r' : RunState τ κ δ × Running τ κ δ) : Prop where
  world : r'.1 = view r.1
  result : r'.2.result? = r.2.result?
  changes : ReflTransGen (Changes pact ends) s r.1
  /-- If the program has ended just now, it has ended with its last change. -/
  last : t.result? = none → ∀ outcome, r.2.result? = some outcome →
    ∃ u, ReflTransGen (Changes pact ends) s u ∧ ends outcome u r.1

theorem DriveKeeps.after {s v : RunState τ κ' δ} {t x : Running τ κ' δ}
    {r : RunState τ κ' δ × Running τ κ' δ} {r' : RunState τ κ δ × Running τ κ δ}
    (hs : ReflTransGen (Changes pact ends) s v) (ht : t.result? = none → x.result? = none)
    (h : DriveKeeps view pact ends v x r r') : DriveKeeps view pact ends s t r r' := by
  refine ⟨h.world, h.result, hs.trans h.changes, ?_⟩
  intro hnone outcome hsome
  obtain ⟨u, hu, hends⟩ := h.last (ht hnone) outcome hsome
  exact ⟨u, hs.trans hu, hends⟩

theorem DriveKeeps.stay (hkeeps : Thread.Keeps view pact s t t' ends) :
    DriveKeeps view pact ends s t (s, t) (view s, t') := by
  refine ⟨rfl, hkeeps.result?_eq.symm, .refl, ?_⟩
  intro hnone outcome hsome
  rw [hnone] at hsome
  cases hsome

theorem changes_of_acts {s v : RunState τ κ' δ} (h : ReflTransGen (pact.Acts ends) s v) :
    ReflTransGen (Changes pact ends) s v :=
  ReflTransGen.mono (fun _ _ => .inl) s v h

theorem changes_of_relies {s v : RunState τ κ' δ} (h : ReflTransGen pact.rely s v) :
    ReflTransGen (Changes pact ends) s v :=
  ReflTransGen.mono (fun _ _ => .inr) s v h

/-- Driving a program that has ended does nothing. -/
theorem drive_ended (h : Host τ η κ δ) {limit : Option Nat} {number : Nat} {awake : Bool}
    {s : RunState τ κ δ} {outcome : Outcome} :
    h.drive limit number awake s (.ended outcome) = (s, .ended outcome) := by
  cases awake with
  | true =>
    rw [drive_step]
    exact h.drive_of_none nofun rfl
  | false => exact h.drive_of_none nofun rfl

/-- A program that is driven keeps its pact to the end. -/
theorem drive_keeps (limit : Option Nat) (number : Nat) (awake : Bool)
    (hover : Overlays h plain view pact)
    (hkeeps : Thread.Keeps view pact s t t' ends) :
    DriveKeeps view pact ends s t (h.drive limit number awake s t)
      (plain.drive limit number awake (view s) t') := by
  induction number, awake, s, t using drive.induct h limit generalizing t' with
  | case1 number s t next =>
    rename_i ih
    have hstep := hkeeps.step number s.outbox.clock
    have hturns := t.step_turns number s.outbox.clock s
    have hgive := hover.rely_giveWay next.2.2 next.1
    have hto : ReflTransGen (Changes pact ends) s (h.giveWay next.2.2 next.1) :=
      (changes_of_acts hstep.leads.acts).trans (changes_of_relies hgive)
    have hnext := ih (hstep.thread.relies hgive)
    rw [← hover.giveWay] at hnext
    rw [drive_step, drive_step, hover.outbox, hstep.standing, hstep.world]
    by_cases hlast : ∃ r again, next.2.2 = .last r again
    · obtain ⟨r, again, hlast⟩ := hlast
      have hends := hstep.leads
      rw [hlast] at hturns hends
      obtain ⟨u, hu, hends⟩ := hends
      obtain ⟨hnone, hended⟩ := hturns
      refine ⟨hnext.world, hnext.result, hto.trans hnext.changes, ?_⟩
      intro _ outcome hsome
      rw [hended, drive_ended] at hsome ⊢
      rw [hlast]
      rw [← Option.some.inj hsome]
      exact ⟨u, changes_of_acts (ReflTransGen.mono (fun _ _ => .own) _ _ hu), hends⟩
    · refine hnext.after hto fun hnone => ?_
      revert hturns hlast
      cases next.2.2 with
      | last r again => exact fun _ hlast => absurd ⟨r, again, rfl⟩ hlast
      | kept => exact fun hturns _ => hturns.symm.trans hnone
      | back again => exact fun hturns _ => hturns.symm.trans hnone
      | refused => exact fun hturns _ => hturns.symm.trans hnone
  | case2 number awake s t hawake hnone =>
    have hnone' := hkeeps.due_eq.symm.trans hnone
    rw [h.drive_of_none hawake hnone, plain.drive_of_none hawake hnone']
    exact .stay hkeeps
  | case3 number awake s t hawake alarm hsome hreach =>
    have hsome' := hkeeps.due_eq.symm.trans hsome
    rw [h.drive_of_reaches hawake hsome hreach, plain.drive_of_reaches hawake hsome' hreach]
    exact .stay hkeeps
  | case4 number awake s t hawake alarm hsome hreach called =>
    rename_i ih
    have hsome' := hkeeps.due_eq.symm.trans hsome
    obtain ⟨hcalled, _⟩ := hkeeps.call alarm
    have hrely : pact.rely s (h.catchUp alarm.time s) := hover.rely s _
    rw [h.drive_of_due hawake hsome hreach, plain.drive_of_due hawake hsome' hreach,
      ← hcalled.due_eq, hover.catchUp]
    exact (ih (hcalled.rely hrely)).after (.single (.inr hrely)) t.call_result?

/-! ## At all moments -/

/-- The moments of a run lie between its start and its end, and they are moments of the plainer run. -/
theorem passes_keeps {w : RunState τ κ' δ} (hover : Overlays h plain view pact)
    (hkeeps : Thread.Keeps view pact s t t' ends) (hw : h.Passes limit number awake s t w) :
    ReflTransGen (Changes pact ends) s w ∧
      ReflTransGen (Changes pact ends) w (h.drive limit number awake s t).1 ∧
      plain.Passes limit number awake (view s) t' (view w) := by
  induction hw generalizing t' with
  | now => exact ⟨.refl, (drive_keeps _ _ _ hover hkeeps).changes, .now⟩
  | @within number s w t hw =>
    have hstep := hkeeps.step number s.outbox.clock
    obtain ⟨hto, hfrom, hvisits⟩ := hkeeps.visits number s.outbox.clock hw
    have hgive := hover.rely_giveWay (t.step number s.outbox.clock s).2.2
      (t.step number s.outbox.clock s).1
    have hnext := drive_keeps limit (number + 1) (t.step number s.outbox.clock s).2.2.goesOn hover
      (hstep.thread.relies hgive)
    refine ⟨changes_of_acts hto, ?_, .within hvisits⟩
    rw [drive_step]
    exact ((changes_of_acts hfrom).trans (changes_of_relies hgive)).trans hnext.changes
  | @step number s w t hw ih =>
    have hstep := hkeeps.step number s.outbox.clock
    have hgive := hover.rely_giveWay (t.step number s.outbox.clock s).2.2
      (t.step number s.outbox.clock s).1
    obtain ⟨hto, hfrom, hpasses⟩ := ih (hstep.thread.relies hgive)
    refine ⟨?_, ?_, .step ?_⟩
    · exact ((changes_of_acts hstep.leads.acts).trans (changes_of_relies hgive)).trans hto
    · rw [drive_step]
      exact hfrom
    · rw [hover.outbox, hstep.standing, hstep.world, hover.giveWay]
      exact hpasses
  | @call number awake s w t alarm hawake hdue hreach hw ih =>
    obtain ⟨hcalled, _⟩ := hkeeps.call alarm
    have hrely : pact.rely s (h.catchUp alarm.time s) := hover.rely s _
    obtain ⟨hto, hfrom, hpasses⟩ := ih (hcalled.rely hrely)
    refine ⟨hto.head (.inr hrely), ?_,
      .call hawake (hkeeps.due_eq.symm.trans hdue) hreach ?_⟩
    · rw [h.drive_of_due hawake hdue hreach]
      exact hfrom
    · rw [← hcalled.due_eq, hover.catchUp]
      exact hpasses

/-- Each moment of the plainer run is the view of a moment of the other. -/
theorem passes_view {s' w' : RunState τ κ δ} (hover : Overlays h plain view pact)
    (hkeeps : Thread.Keeps view pact s t t' ends) (hs : s' = view s)
    (hw : plain.Passes limit number awake s' t' w') :
    ∃ w, h.Passes limit number awake s t w ∧ view w = w' := by
  induction hw generalizing s t with
  | now => exact ⟨s, .now, hs.symm⟩
  | within hw =>
    subst hs
    obtain ⟨w, hvisits, hw⟩ := hkeeps.visits_view hw
    exact ⟨w, .within hvisits, hw⟩
  | @step number s' w' t' _ ih =>
    subst hs
    have hstep := hkeeps.step number s.outbox.clock
    have hgive := hover.rely_giveWay (t.step number s.outbox.clock s).2.2
      (t.step number s.outbox.clock s).1
    rw [hover.outbox, hstep.standing, hstep.world] at ih
    obtain ⟨w, hpasses, hw⟩ := ih (hstep.thread.relies hgive) (hover.giveWay _ _)
    exact ⟨w, .step hpasses, hw⟩
  | @call number awake s' w' t' alarm hawake hdue hreach _ ih =>
    subst hs
    obtain ⟨hcalled, _⟩ := hkeeps.call alarm
    have hrely : pact.rely s (h.catchUp alarm.time s) := hover.rely s _
    obtain ⟨w, hpasses, hw⟩ := ih (hcalled.rely hrely) (hover.catchUp _ _)
    rw [← hcalled.due_eq] at hpasses
    exact ⟨w, .call hawake (hkeeps.due_eq.trans hdue) hreach hpasses, hw⟩

/-- A run comes to its end at one of its moments. -/
theorem passes_drive (h : Host τ η κ δ) (limit : Option Nat) (number : Nat) (awake : Bool)
    (s : RunState τ κ δ) (t : Running τ κ δ) :
    h.Passes limit number awake s t (h.drive limit number awake s t).1 := by
  induction number, awake, s, t using drive.induct h limit with
  | case1 number s t next =>
    rename_i ih
    rw [drive_step]
    exact .step ih
  | case2 number awake s t hawake hnone =>
    rw [h.drive_of_none hawake hnone]
    exact .now
  | case3 number awake s t hawake alarm hsome hreach =>
    rw [h.drive_of_reaches hawake hsome hreach]
    exact .now
  | case4 number awake s t hawake alarm hsome hreach called =>
    rename_i ih
    rw [h.drive_of_due hawake hsome hreach]
    exact .call hawake hsome hreach ih

end

end Host

end Playbook
