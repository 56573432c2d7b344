import Playbook.Run.Plan

/-!
# `Playbook.Run.Thread` — threads and the floor

A plan that has been started is a *thread*. All threads of a run share one world, and one of them at a time has the
*floor*. It keeps the floor until it waits, ends or gives way.

A fork that has the floor hands it on to the branches that want it, which stand in a queue. A branch that waits wants the
floor again when its wait ends; until then it is not in the queue. So that nobody is kept waiting for long, a fork gives way
as soon as it has handed on the floor as often as it has branches, or two branches that got it have given way themselves;
both are counted anew whenever a branch ends. What gives way stands in its queue again at once, at the end, and so does
what holds a branch that gave way.

Waits that end at one time end in the order in which they began.

## Contents
- **Waits.** `Alarm`, the end of a wait.
- **Queues.** `Line`, the queue of a fork and what the fork counts.
- **Threads.** `Thread`, and `Thread.due`, when the first wait in it ends.
- **Steps.** `Thread.step` is one step of a thread that has the floor, and `Standing` how the thread stands after it.
- **Calls.** `Thread.call` ends a wait.
-/

namespace Playbook

/-! ## Waits -/

/-- The end of a wait. -/
structure Alarm where
  /-- What the clock shows then. -/
  time : Nat
  /-- The number of the step in which the wait began. -/
  since : Nat
  deriving DecidableEq, Repr

namespace Alarm

/-- Whether a wait ends no later than another one. -/
def notAfter (a b : Alarm) : Bool :=
  a.time < b.time || (a.time = b.time && a.since ≤ b.since)

/-- The one of two waits that ends first, if there is any. -/
def earlier : Option Alarm → Option Alarm → Option Alarm
  | none, b => b
  | a, none => a
  | some a, some b => some (if a.notAfter b then a else b)

end Alarm

/-! ## Queues -/

/-- The queue of a fork and what the fork counts. -/
structure Line where
  /-- The branches that want the floor, by their positions. -/
  queue : List Nat
  /-- How often the floor was handed on, since it came or a branch ended. -/
  handed : Nat
  /-- How many of those who got it gave way. -/
  yielded : Nat
  /-- Whether anything has given way since the floor came to the thread. -/
  stirred : Bool
  deriving DecidableEq, Repr

namespace Line

/-- The queue of a fork that has just begun: all of its branches want the floor. -/
def fresh (branches : Nat) (stirred : Bool) : Line :=
  ⟨List.range branches, 0, 0, stirred⟩

/-- The queue after a branch at the head that has ended long ago. -/
def skip (l : Line) : Line :=
  { l with queue := l.queue.tail }

/-- The queue after a branch at the head that has ended now. -/
def leave (l : Line) (again : Bool) : Line :=
  ⟨l.queue.tail, 0, 0, l.stirred || again⟩

/-- The queue after a branch at the head that has had the floor and may want it again at once. -/
def pass (l : Line) (again : Bool) : Line where
  queue := if again then l.queue.tail ++ l.queue.head?.toList else l.queue.tail
  handed := l.handed + 1
  yielded := l.yielded + (if again then 1 else 0)
  stirred := l.stirred || again

/-- Whether a fork has to give way, with a number of branches that have not ended. -/
def isSpent (l : Line) (live : Nat) : Bool :=
  2 ≤ l.yielded || live ≤ l.handed

/-- The queue of a fork that does not have the floor. -/
def rest (l : Line) : Line :=
  ⟨l.queue, 0, 0, false⟩

/-- The queue with branches that have come to want the floor. -/
def join (l : Line) (called : List Nat) : Line :=
  { l with queue := l.queue ++ called.filter (!l.queue.contains ·) }

end Line

/-! ## Threads -/

/-- A plan that has been started. -/
inductive Thread (σ ω : Type) where
  | ended (result : ω)
  /-- It waits. -/
  | waiting (alarm : Alarm) (next : Plan σ ω)
  /-- It can go on when it has the floor; the flag says whether anything in it has given way since the floor came. -/
  | ready (next : Plan σ ω) (stirred : Bool)
  /-- It goes on when its branches have ended; the results of those that have stand in the order in which they
      ended. -/
  | forked (branches : List (Thread σ ω)) (line : Line) (results : List ω)
      (next : List ω → Plan σ ω)

variable {σ ω : Type}

namespace Thread

/-- The thread of a plan that has yet to begin. -/
def ofPlan (p : Plan σ ω) : Thread σ ω :=
  ready p false

/-- The result of a thread that has ended. -/
def result? : Thread σ ω → Option ω
  | ended result => some result
  | _ => none

/-- How many of some threads have not ended. -/
def live (threads : List (Thread σ ω)) : Nat :=
  threads.countP (·.result?.isNone)

mutual

/-- When the first wait in the thread ends. -/
def due : Thread σ ω → Option Alarm
  | waiting alarm _ => some alarm
  | forked branches _ _ _ => dueAll branches
  | _ => none

/-- When the first wait in any of the threads ends. -/
def dueAll : List (Thread σ ω) → Option Alarm
  | [] => none
  | t :: threads => Alarm.earlier (due t) (dueAll threads)

end

end Thread

/-! ## Steps -/

/-- How a thread stands after a step. -/
inductive Standing (ω : Type) where
  /-- It still has the floor. -/
  | kept
  /-- It has handed the floor back, and may want it again at once. -/
  | back (again : Bool)
  /-- It has ended; the flag says whether it had wanted the floor again. -/
  | last (result : ω) (again : Bool)
  /-- It had ended before. -/
  | refused

/-- Whether the thread has the floor after a step, or gets it again at once if nobody else wants it. -/
def Standing.goesOn : Standing ω → Bool
  | kept => true
  | back again => again
  | last _ _ | refused => false

/-- Go as far as a plan can without waiting or splitting. -/
def Plan.go (number now : Nat) (stirred : Bool) : Plan σ ω → σ → σ × Thread σ ω × Standing ω
  | done result, world => (world, .ended result, .last result stirred)
  | look next, world => go number now stirred (next world) world
  | put world next, _ => go number now stirred next world
  | wait ms next, world =>
    if ms = 0 then go number now stirred next world
    else (world, .waiting ⟨now + ms, number⟩ next, .back stirred)
  | fork branches next, world =>
    (world, .forked (branches.map .ofPlan) (.fresh branches.length stirred) [] next, .kept)

namespace Thread

mutual

/-- One step of a thread that has the floor: the step of a number, at one time of the clock. -/
def step (number now : Nat) : Thread σ ω → σ → σ × Thread σ ω × Standing ω
  | ended result, world => (world, ended result, .refused)
  | waiting alarm next, world => (world, waiting alarm next, .back false)
  | ready next stirred, world => next.go number now stirred world
  | forked branches line results next, world =>
    match line.queue with
    | [] =>
      -- With its last branch ended the thread goes on by itself, without handing back the floor.
      if live branches = 0 then (world, ready (next results) line.stirred, .kept)
      else (world, forked branches line.rest results next, .back line.stirred)
    | i :: _ =>
      match stepAt number now i branches world with
      | (world, branches, .kept) => (world, forked branches line results next, .kept)
      | (world, branches, .refused) => (world, forked branches line.skip results next, .kept)
      | (world, branches, .last result again) =>
        (world, forked branches (line.leave again) (results ++ [result]) next, .kept)
      | (world, branches, .back again) =>
        if (line.pass again).isSpent (live branches) then
          (world, forked branches (line.pass again).rest results next, .back true)
        else (world, forked branches (line.pass again) results next, .kept)

/-- One step of the thread at a position. -/
def stepAt (number now : Nat) :
    Nat → List (Thread σ ω) → σ → σ × List (Thread σ ω) × Standing ω
  | _, [], world => (world, [], .refused)
  | 0, t :: threads, world =>
    let (world, t, standing) := step number now t world
    (world, t :: threads, standing)
  | i + 1, t :: threads, world =>
    let (world, threads, standing) := stepAt number now i threads world
    (world, t :: threads, standing)

end

/-! ## Calls -/

mutual

/-- End the wait with an alarm; also says whether there was one. -/
def call (alarm : Alarm) : Thread σ ω → Thread σ ω × Bool
  | waiting own next => if own = alarm then (ready next false, true) else (waiting own next, false)
  | forked branches line results next =>
    let (branches, called) := callAll alarm 0 branches
    (forked branches (line.join called) results next, !called.isEmpty)
  | t => (t, false)

/-- End the waits with an alarm in threads that stand from a position on; also gives the positions of those that
    waited. -/
def callAll (alarm : Alarm) (position : Nat) :
    List (Thread σ ω) → List (Thread σ ω) × List Nat
  | [] => ([], [])
  | t :: threads =>
    let (t, called) := call alarm t
    let (threads, positions) := callAll alarm (position + 1) threads
    (t :: threads, if called then position :: positions else positions)

end

end Thread

end Playbook
