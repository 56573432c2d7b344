import Playbook.Run.Progress
import Playbook.Run.Statement

/-!
# `Playbook.Run.Execution` — runs from start to end

A run starts the timer of its outbox, runs its program and then stops the outbox, whatever happened. It may be
canceled at any time; then what it was doing is dropped, and events that wait are still sent.

## Contents
- **While the program runs.** `Host.catchUp`, `Host.giveWay`, `Host.drive`, with one equation for each way in which it goes
  on; `Host.driveWithin` counts the rounds, so that it can be worked out.
- **The whole run.** `Host.finish`, `Host.cancel`, `Host.run`; `Host.runToEnd` is a run that is not canceled.
-/

namespace Playbook

namespace Host

variable {τ η κ δ : Type}

/-- A program that has been started. -/
abbrev Running (τ κ δ : Type) := Thread (RunState τ κ δ) Outcome

/-! ## While the program runs -/

/-- Let the outbox catch up with the clock. What comes in it at this very time waits for what the program does
    now. -/
def catchUp (h : Host τ η κ δ) (now : Nat) (s : RunState τ κ δ) : RunState τ κ δ :=
  { s with outbox := s.outbox.advance h.courier now }

/-- When the program gives way, the outbox does what comes at this time before the program goes on. -/
def giveWay (h : Host τ η κ δ) (standing : Standing Outcome) (s : RunState τ κ δ) :
    RunState τ κ δ :=
  match standing with
  | .back true => { s with outbox := s.outbox.linger h.courier }
  | _ => s

/-- Start a program. -/
def begun (h : Host τ η κ δ) (p : Program) (inputs : KeyMap String) (s : RunState τ κ δ) :
    RunState τ κ δ × Running τ κ δ :=
  ({ s with outbox := s.outbox.start h.courier }, .ofPlan (h.script p inputs).plan)

/-- Whether a time lies at or beyond a limit, if there is one. -/
def reaches (limit : Option Nat) (time : Nat) : Bool :=
  match limit with
  | none => false
  | some t => t ≤ time

/-- Let a program go on until it has ended, but not beyond a limit. While it has the floor it goes on step by step;
    then the clock goes on, and all waits that end at one time end before the program gets the floor again. -/
def drive (h : Host τ η κ δ) (limit : Option Nat) (number : Nat) (awake : Bool)
    (s : RunState τ κ δ) (t : Running τ κ δ) : RunState τ κ δ × Running τ κ δ :=
  if _ha : awake then
    let next := t.step number s.outbox.clock s
    h.drive limit (number + 1) next.2.2.goesOn (h.giveWay next.2.2 next.1) next.2.1
  else
    match _h : t.due with
    | none => (s, t)
    | some alarm =>
      if reaches limit alarm.time then (s, t)
      else
        let called := (t.call alarm).1
        h.drive limit number (called.due.all (·.time ≠ alarm.time)) (h.catchUp alarm.time s) called
termination_by t.rank awake
decreasing_by
  · exact _ha ▸ Thread.step_nearer number s.outbox.clock t s
  · exact Thread.call_nearer _h _ _

section

variable (h : Host τ η κ δ) {limit : Option Nat} {number : Nat} {awake : Bool}
  {s : RunState τ κ δ} {t : Running τ κ δ}

/-- A program that has the floor takes a step. -/
theorem drive_step :
    h.drive limit number true s t =
      h.drive limit (number + 1) (t.step number s.outbox.clock s).2.2.goesOn
        (h.giveWay (t.step number s.outbox.clock s).2.2 (t.step number s.outbox.clock s).1)
        (t.step number s.outbox.clock s).2.1 := by
  rw [drive, dif_pos rfl]

/-- With no wait left a program is where it comes to. -/
theorem drive_of_none (ha : awake ≠ true) (hdue : t.due = none) :
    h.drive limit number awake s t = (s, t) := by
  rw [drive, dif_neg ha]
  split
  · rfl
  · rename_i hsome
    rw [hdue] at hsome
    cases hsome

/-- A program does not wait beyond the limit. -/
theorem drive_of_reaches {alarm : Alarm} (ha : awake ≠ true) (hdue : t.due = some alarm)
    (hreach : reaches limit alarm.time) : h.drive limit number awake s t = (s, t) := by
  rw [drive, dif_neg ha]
  split
  · rfl
  · rename_i hsome
    rw [hdue, Option.some.injEq] at hsome
    rw [← hsome, if_pos hreach]

/-- A program that waits goes on when its first wait has ended. -/
theorem drive_of_due {alarm : Alarm} (ha : awake ≠ true) (hdue : t.due = some alarm)
    (hreach : ¬reaches limit alarm.time) :
    h.drive limit number awake s t =
      h.drive limit number ((t.call alarm).1.due.all (·.time ≠ alarm.time)) (h.catchUp alarm.time s)
        (t.call alarm).1 := by
  rw [drive, dif_neg ha]
  split
  · rename_i hnone
    rw [hdue] at hnone
    cases hnone
  · rename_i hsome
    rw [hdue, Option.some.injEq] at hsome
    rw [← hsome, if_neg hreach]

end

/-- Let a program go on for a number of rounds at most, each a step or a wait that ends; nothing if that is not enough. -/
def driveWithin (h : Host τ η κ δ) (limit : Option Nat) :
    Nat → Nat → Bool → RunState τ κ δ → Running τ κ δ → Option (RunState τ κ δ × Running τ κ δ)
  | 0, _, _, _, _ => none
  | rounds + 1, number, awake, s, t =>
    if awake then
      let next := t.step number s.outbox.clock s
      h.driveWithin limit rounds (number + 1) next.2.2.goesOn (h.giveWay next.2.2 next.1) next.2.1
    else
      match t.due with
      | none => some (s, t)
      | some alarm =>
        if reaches limit alarm.time then some (s, t)
        else
          let called := (t.call alarm).1
          h.driveWithin limit rounds number (called.due.all (·.time ≠ alarm.time))
            (h.catchUp alarm.time s) called

/-- A program that is where it comes to after some rounds is there for good. -/
theorem drive_of_within (h : Host τ η κ δ) {limit : Option Nat} {rounds number : Nat}
    {awake : Bool} {s : RunState τ κ δ} {t : Running τ κ δ}
    {r : RunState τ κ δ × Running τ κ δ}
    (hwithin : h.driveWithin limit rounds number awake s t = some r) :
    h.drive limit number awake s t = r := by
  induction rounds generalizing number awake s t with
  | zero => cases hwithin
  | succ rounds ih =>
    unfold driveWithin at hwithin
    split at hwithin
    · rename_i hawake
      subst hawake
      rw [drive_step]
      exact ih hwithin
    · rename_i hawake
      split at hwithin
      · rename_i hdue
        rw [drive_of_none h hawake hdue]
        exact Option.some.inj hwithin
      · rename_i alarm hdue
        split at hwithin
        · rename_i hreach
          rw [drive_of_reaches h hawake hdue hreach]
          exact Option.some.inj hwithin
        · rename_i hreach
          rw [drive_of_due h hawake hdue hreach]
          exact ih hwithin

/-! ## The whole run -/

/-- Stop the outbox of a run whose program has ended. If the limit comes first, the stop is left where
    it is, and the run has no outcome. -/
def finish (h : Host τ η κ δ) (limit : Option Nat) (outcome : Outcome) (s : RunState τ κ δ) :
    RunState τ κ δ × Option Outcome :=
  let outbox := (s.outbox.beginStop h.courier).settle h.courier limit
  if outbox.phase = .stopping then ({ s with outbox := outbox.abandon }, none)
  else ({ s with outbox }, some outcome)

section

variable (h : Host τ η κ δ) {limit : Option Nat} {outcome : Outcome} {s : RunState τ κ δ}

/-- A stop that is not done by the limit is left. -/
theorem finish_of_stopping
    (hphase : ((s.outbox.beginStop h.courier).settle h.courier limit).phase = .stopping) :
    h.finish limit outcome s =
      ({ s with outbox := ((s.outbox.beginStop h.courier).settle h.courier limit).abandon },
        none) := by
  unfold finish
  rw [if_pos hphase]

/-- A stop that is done by the limit leaves the outcome of the program. -/
theorem finish_of_done
    (hphase : ((s.outbox.beginStop h.courier).settle h.courier limit).phase ≠ .stopping) :
    h.finish limit outcome s =
      ({ s with outbox := (s.outbox.beginStop h.courier).settle h.courier limit }, some outcome) := by
  unfold finish
  rw [if_neg hphase]

end

/-- Drop what a run is doing at a time, and send the events that wait. -/
def cancel (h : Host τ η κ δ) (limit : Option Nat) (s : RunState τ κ δ) : RunState τ κ δ :=
  let s := h.catchUp (limit.getD s.outbox.clock) s
  { s with outbox := s.outbox.stop h.courier }

/-- Run a program, up to a limit. There is no outcome if the limit came first. -/
def run (h : Host τ η κ δ) (p : Program) (inputs : KeyMap String) (limit : Option Nat)
    (s : RunState τ κ δ) : RunState τ κ δ × Option Outcome :=
  let started := h.begun p inputs s
  let (s, t) := h.drive limit 0 true started.1 started.2
  -- A program that has ended by itself can still meet the limit while its events are being sent.
  match t.result? with
  | some outcome => h.finish limit outcome s
  | none => (h.cancel limit s, none)

/-- Run a program to its end, and show what it has done. -/
def runToEnd (h : Host τ η κ δ) (p : Program) (inputs : KeyMap String) (s : RunState τ κ δ) :
    RunState τ κ δ × Except Failure RunOutcome :=
  match h.run p inputs none s with
  | (s, some (.ok ())) => (s, .ok (h.outcome s))
  | (s, some (.error e)) => (s, .error e)
  | (s, none) => (s, Failure.raise (.canceled "run canceled"))

end Host

end Playbook
