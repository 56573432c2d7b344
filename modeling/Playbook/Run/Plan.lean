/-!
# `Playbook.Run.Plan` — plans

What a run has still to do is a *plan*: look at the world, change it, wait, split into branches that go on side by side,
and end with a result. Waiting is measured in a clock of its own. Nothing but waiting takes time.

## Contents
- **The type.** `Plan`.
-/

namespace Playbook

/-- What is still to be done in a world `σ` for a result of type `ω`. -/
inductive Plan (σ ω : Type) where
  /-- End. -/
  | done (result : ω)
  /-- Look at the world. -/
  | look (next : σ → Plan σ ω)
  /-- Change the world. -/
  | put (world : σ) (next : Plan σ ω)
  /-- Wait for some milliseconds. -/
  | wait (ms : Nat) (next : Plan σ ω)
  /-- Start branches in order, let them go on side by side, and take their results in the order in
      which they ended. -/
  | fork (branches : List (Plan σ ω)) (next : List ω → Plan σ ω)

end Playbook
