import Playbook.Failure.Cause
import Playbook.Run.Plan

/-!
# `Playbook.Run.Script` — scripts

A script is a part of a plan that gives a value or fails; what comes after it is a function of how it went.
Scripts follow one another, and the first failure ends them, unless it is held.

## Contents
- **The type.** `Outcome`, `Script`, and its monad.
- **Failures.** `fail`, `ofExcept`, `hold`.
- **The world.** `observe`, `act`, `update`, `pause`.
- **Branches.** `together`, `repeatTimes`.
-/

namespace Playbook

/-- How a script without a value went. -/
abbrev Outcome := Except Failure Unit

/-- A part of a plan: given what follows it, the rest of the plan. -/
def Script (σ α : Type) := (Except Failure α → Plan σ Outcome) → Plan σ Outcome

namespace Script

variable {σ α β : Type}

/-- Give a value. -/
def pure (a : α) : Script σ α :=
  fun next => next (.ok a)

/-- Go on with a value. -/
def bind (s : Script σ α) (f : α → Script σ β) : Script σ β :=
  fun next => s fun
    | .ok a => f a next
    | .error e => next (.error e)

instance : Monad (Script σ) where
  pure := Script.pure
  bind := Script.bind

/-! ## Failures -/

/-- Fail. -/
def fail (e : Failure) : Script σ α :=
  fun next => next (.error e)

/-- Give a value or fail. -/
def ofExcept (r : Except Failure α) : Script σ α :=
  fun next => next r

/-- Run a script and give how it went, without failing. -/
def hold (s : Script σ α) : Script σ (Except Failure α) :=
  fun next => s fun r => next (.ok r)

/-! ## The world -/

/-- Look at the world. -/
def observe (f : σ → α) : Script σ α :=
  fun next => .look fun world => next (.ok (f world))

/-- Do something in the world and take what it gives. -/
def act (f : σ → α × σ) : Script σ α :=
  fun next => .look fun world => .put (f world).2 (next (.ok (f world).1))

/-- Change the world. -/
def update (f : σ → σ) : Script σ Unit :=
  act fun world => ((), f world)

/-- Wait for as many milliseconds as the world says. -/
def pause (ms : σ → Nat) : Script σ Unit :=
  fun next => .look fun world => .wait (ms world) (next (.ok ()))

/-! ## Branches -/

/-- The plan that is nothing but the script. -/
def plan (s : Script σ Unit) : Plan σ Outcome :=
  s .done

/-- Run scripts side by side; gives how they went, in the order in which they ended. -/
def together (branches : List (Script σ Unit)) : Script σ (List Outcome) :=
  fun next => .fork (branches.map plan) fun outcomes => next (.ok outcomes)

/-- Run a script a number of times. -/
def repeatTimes (body : Script σ Unit) : Nat → Script σ Unit
  | 0 => Script.pure ()
  | n + 1 => do
    -- The look keeps the next round from being laid out before this one has run.
    observe fun _ => ()
    body
    repeatTimes body n

end Script

end Playbook
