import Playbook.Outbox.Clock

/-!
# `Proofs.Outbox.Action` — all that can happen to an outbox, one step at a time

An *action* is what a caller does, what time brings, or the clock going on. Any list of actions is a history: callers may
come in any order, deliveries may end and the timer may tick at any time between them. So what holds after every list of
actions holds for all sinks, all delays and all ways in which flushes, stops and ticks can overlap.

## Contents
- **Actions.** `Action`, `act`, `after`.
- **Batches.** `Loads` says what a delivery is that begins; `launch` and `drain` are stated with it.
- **What a step can do.** `Calm` for steps in which no delivery ends, `Landing` for the others; `acted` for all actions.
- **Phases.** `Orderly` ties the phase to the delivery under way, and holds after any actions (`orderly_after`).
-/

namespace Playbook.Outbox

variable {δ : Type} {c : Courier δ} {o o' : Outbox δ}

/-! ## Actions -/

/-- What can happen to an outbox. -/
inductive Action where
  /-- A caller starts the timer. -/
  | start
  /-- A caller queues an event. -/
  | enqueue (agent : String) (session : Option String) (event : Event) (usage : Option Usage)
  /-- A caller begins a flush. -/
  | flush
  /-- A caller stops the outbox. -/
  | stop
  /-- The delivery under way ends. -/
  | land
  /-- The timer ticks. -/
  | tick
  /-- The clock goes on. -/
  | pass (time : Nat)

/-- An outbox after an action. The timer waits for its own delivery, so it does not tick while that is under way. -/
def act (c : Courier δ) (o : Outbox δ) : Action → Outbox δ
  | .start => o.start c
  | .enqueue agent session event usage => (o.enqueue c agent session event usage).1
  | .flush => o.beginFlush c false
  | .stop => o.beginStop c
  | .land =>
    match o.flight with
    | some f => o.complete c f
    | none => o
  | .tick =>
    match o.timer with
    | some t => if o.flight.any (·.isTimers) then o else o.tick c t
    | none => o
  | .pass time => { o with clock := max o.clock time }

/-- An outbox after some actions. -/
def after (c : Courier δ) (o : Outbox δ) (actions : List Action) : Outbox δ :=
  actions.foldl (act c) o

@[simp] theorem after_nil : o.after c [] = o := rfl

@[simp] theorem after_cons (a : Action) (as : List Action) :
    o.after c (a :: as) = (o.act c a).after c as := rfl

theorem after_append (as bs : List Action) :
    o.after c (as ++ bs) = (o.after c as).after c bs := List.foldl_append

/-! ## Batches -/

/-- What a delivery is that begins in an outbox: it has taken as many of the oldest events as fit. -/
structure Loads (c : Courier δ) (o : Outbox δ) (errand : Errand) (taken : Nat) (f : Flight) : Prop where
  waiting : o.queue ≠ []
  postings : f.postings = o.queue.take c.config.batchLimit
  batch : f.batch = c.batchOf f.postings
  errand : f.errand = errand
  taken : f.taken = taken + f.postings.length

/-- With nothing to send no delivery begins. -/
theorem launch_of_nil {errand : Errand} {taken : Nat} (h : o.queue = []) :
    o.launch c errand taken = o := by
  simp [launch, h]

/-- With something to send a delivery begins. -/
theorem launch_of_ne_nil (errand : Errand) (taken : Nat) (h : o.queue ≠ []) :
    ∃ f, Loads c o errand taken f ∧
      o.launch c errand taken =
        { o with queue := o.queue.drop c.config.batchLimit, flight := some f } := by
  have hpos := batchLimit_pos c.config
  unfold launch
  split
  · rename_i hq
    rw [List.take_eq_nil_iff] at hq
    rcases hq with hq | hq
    · omega
    · exact absurd hq h
  · rename_i p postings hq
    refine ⟨_, ⟨h, hq.symm, rfl, rfl, ?_⟩, rfl⟩
    simp

/-- Sending all that is left begins a delivery, or is done. -/
theorem drain_of_nil {taken : Nat} (h : o.queue = []) :
    o.drain c taken = { o with phase := .stopped, drained := taken } := by
  simp [drain, h]

theorem drain_of_ne_nil (taken : Nat) (h : o.queue ≠ []) :
    ∃ f, Loads c o .drain taken f ∧
      o.drain c taken =
        { o with queue := o.queue.drop c.config.batchLimit, flight := some f } := by
  unfold drain
  rw [if_neg h]
  exact launch_of_ne_nil .drain taken h

/-! ## What a step can do -/

/-- What a step can do in which no event is queued and no delivery ends. -/
inductive Calm (c : Courier δ) (o : Outbox δ) : Outbox δ → Prop where
  /-- Nothing that counts. -/
  | rest (clock : Nat) {timer : Option Nat} (flushed drained : Nat)
      (unset : o.isStopped → timer = none ∨ timer = o.timer) :
      Calm c o { o with clock, timer, flushed, drained }
  /-- A stop waits for the delivery under way. -/
  | heed {f : Flight} (accepting : o.phase = .accepting) (busy : o.flight = some f) :
      Calm c o { o with phase := .stopping }
  /-- A stop finds nothing to send. -/
  | close (accepting : o.phase = .accepting) (free : o.flight = none) (empty : o.queue = []) :
      Calm c o { o with phase := .stopped, timer := none, drained := 0 }
  /-- A flush takes its first batch. -/
  | flush {byTimer : Bool} {f : Flight} (clock : Nat) {timer : Option Nat} (flushed : Nat)
      (free : o.flight = none) (loads : Loads c o (.flush byTimer false) 0 f)
      (unset : o.isStopped → timer = none ∨ timer = o.timer) :
      Calm c o
        { o with
          clock, timer, flushed, queue := o.queue.drop c.config.batchLimit, flight := some f }
  /-- A stop takes its first batch. -/
  | drain {f : Flight} (accepting : o.phase = .accepting) (free : o.flight = none)
      (loads : Loads c o .drain 0 f) :
      Calm c o
        { o with
          phase := .stopping, timer := none, queue := o.queue.drop c.config.batchLimit
          flight := some f }

theorem Calm.refl (o : Outbox δ) : Calm c o o :=
  Calm.rest o.clock o.flushed o.drained fun _ => .inr rfl

/-- A flush that finds a delivery under way gives zero and leaves all else as it is. -/
theorem beginFlush_of_busy {byTimer : Bool} {f : Flight} (h : o.flight = some f) :
    o.beginFlush c byTimer = { o with flushed := if byTimer then o.flushed else 0 } := by
  simp [beginFlush, h]

/-- A flush that finds none takes a batch. -/
theorem beginFlush_of_free {byTimer : Bool} (h : o.flight = none) :
    o.beginFlush c byTimer =
      { o with flushed := if byTimer then o.flushed else 0 }.launch c (.flush byTimer false) 0 := by
  simp [beginFlush, h]

/-- A flush that begins, with the clock and the timer as they may be by then. -/
theorem beginFlush_calm (byTimer : Bool) (clock : Nat) {timer : Option Nat}
    (unset : o.isStopped → timer = none ∨ timer = o.timer) :
    Calm c o ({ o with clock, timer }.beginFlush c byTimer) := by
  rcases Option.eq_none_or_eq_some o.flight with hfree | ⟨f, hbusy⟩
  · rw [beginFlush_of_free (o := { o with clock, timer }) hfree]
    by_cases hq : o.queue = []
    · rw [launch_of_nil (by exact hq)]
      exact Calm.rest clock _ o.drained unset
    · obtain ⟨f, hf, heq⟩ := launch_of_ne_nil (c := c)
        (o := { o with clock, timer, flushed := if byTimer then o.flushed else 0 })
        (.flush byTimer false) 0 hq
      rw [heq]
      exact Calm.flush clock _ hfree ⟨hq, hf.postings, hf.batch, hf.errand, hf.taken⟩ unset
  · rw [beginFlush_of_busy (o := { o with clock, timer }) hbusy]
    exact Calm.rest clock _ o.drained unset

/-- Only the first stop does anything. -/
theorem beginStop_of_stopped (h : o.isStopped) : o.beginStop c = { o with drained := 0 } := by
  simp [beginStop, h]

/-- A stop that finds a delivery under way waits for it. -/
theorem beginStop_of_busy {f : Flight} (h : o.phase = .accepting) (hf : o.flight = some f) :
    o.beginStop c = { o with phase := .stopping } := by
  simp [beginStop, isStopped, h, hf]

/-- A stop that finds none begins to send what is left. -/
theorem beginStop_of_free (h : o.phase = .accepting) (hf : o.flight = none) :
    o.beginStop c = { o with phase := .stopping, timer := none }.drain c 0 := by
  simp [beginStop, isStopped, h, hf]

theorem isStopped_iff : o.isStopped = true ↔ o.phase ≠ .accepting := by
  simp [isStopped]

theorem beginStop_calm : Calm c o (o.beginStop c) := by
  by_cases hphase : o.phase = .accepting
  · rcases Option.eq_none_or_eq_some o.flight with hfree | ⟨f, hbusy⟩
    · rw [beginStop_of_free hphase hfree]
      by_cases hq : o.queue = []
      · rw [drain_of_nil (by exact hq)]
        exact Calm.close hphase hfree hq
      · obtain ⟨f, hf, heq⟩ := drain_of_ne_nil (c := c)
          (o := { o with phase := .stopping, timer := none }) 0 hq
        rw [heq]
        exact Calm.drain hphase hfree ⟨hq, hf.postings, hf.batch, hf.errand, hf.taken⟩
    · rw [beginStop_of_busy hphase hbusy]
      exact Calm.heed hphase hbusy
  · rw [beginStop_of_stopped (isStopped_iff.2 hphase)]
    exact Calm.rest o.clock o.flushed 0 fun _ => .inr rfl

theorem tick_calm (t : Nat) : Calm c o (o.tick c t) := by
  simp only [tick]
  split
  · exact Calm.rest _ o.flushed o.drained fun _ => .inl rfl
  · rename_i hgoing
    exact beginFlush_calm true _ fun h => absurd h hgoing

/-- Whether an action neither queues an event nor ends a delivery. -/
def Action.isCalm : Action → Bool
  | .enqueue .. | .land => false
  | _ => true

theorem act_calm {a : Action} (h : a.isCalm) : Calm c o (o.act c a) := by
  cases a with
  | enqueue => cases h
  | land => cases h
  | start =>
    simp only [act, start]
    split
    · exact Calm.refl o
    · rename_i hset
      refine Calm.rest o.clock o.flushed o.drained fun h => absurd ?_ hset
      rw [h, Bool.or_true]
  | flush => exact beginFlush_calm false o.clock fun _ => .inr rfl
  | stop => exact beginStop_calm
  | pass time => exact Calm.rest _ o.flushed o.drained fun _ => .inr rfl
  | tick =>
    simp only [act]
    split
    · split
      · exact Calm.refl o
      · exact tick_calm _
    · exact Calm.refl o

/-- An outbox whose delivery has just ended, before what follows it. -/
def landed (c : Courier δ) (f : Flight) (o : Outbox δ) : Outbox δ :=
  { o with clock := max o.clock f.due, flight := none, sink := (c.sink.deliver f.batch o.sink).2 }

/-- What the end of a delivery can lead to. -/
inductive Landing (c : Courier δ) (o : Outbox δ) (f : Flight) : Outbox δ → Prop where
  /-- A flush takes its second batch. -/
  | again {byTimer : Bool} {g : Flight} (errand : f.errand = .flush byTimer false)
      (loads : Loads c o (.flush byTimer true) f.taken g) :
      Landing c o f
        { o.landed c f with queue := o.queue.drop c.config.batchLimit, flight := some g }
  /-- A flush is done. -/
  | done {byTimer last : Bool} (errand : f.errand = .flush byTimer last)
      (going : o.phase ≠ .stopping) :
      Landing c o f { o.landed c f with flushed := if byTimer then o.flushed else f.taken }
  /-- A flush is done, and the stop that has waited for it finds nothing to send. -/
  | close {byTimer last : Bool} (errand : f.errand = .flush byTimer last)
      (stopping : o.phase = .stopping) (empty : o.queue = []) :
      Landing c o f
        { o.landed c f with
          flushed := if byTimer then o.flushed else f.taken, phase := .stopped, timer := none
          drained := 0 }
  /-- A flush is done, and the stop that has waited for it takes its first batch. -/
  | relay {byTimer last : Bool} {g : Flight} (errand : f.errand = .flush byTimer last)
      (stopping : o.phase = .stopping) (loads : Loads c o .drain 0 g) :
      Landing c o f
        { o.landed c f with
          flushed := if byTimer then o.flushed else f.taken, timer := none
          queue := o.queue.drop c.config.batchLimit, flight := some g }
  /-- A stop takes its next batch. -/
  | drain {g : Flight} (errand : f.errand = .drain) (loads : Loads c o .drain f.taken g) :
      Landing c o f
        { o.landed c f with queue := o.queue.drop c.config.batchLimit, flight := some g }
  /-- A stop is done. -/
  | drained (errand : f.errand = .drain) (empty : o.queue = []) :
      Landing c o f { o.landed c f with phase := .stopped, drained := f.taken }

theorem isTimers_of_flush {f : Flight} {byTimer last : Bool} (h : f.errand = .flush byTimer last) :
    f.isTimers = byTimer := by
  simp [Flight.isTimers, h]

/-- What follows the last batch of a flush. -/
theorem afterFlush_landing {f : Flight} {byTimer last : Bool}
    (h : f.errand = .flush byTimer last) : Landing c o f ((o.landed c f).afterFlush c f) := by
  simp only [afterFlush, isTimers_of_flush h]
  split
  · rename_i hphase
    by_cases hq : o.queue = []
    · rw [drain_of_nil (by exact hq)]
      exact Landing.close h hphase hq
    · obtain ⟨g, hg, heq⟩ := drain_of_ne_nil (c := c)
        (o := { o.landed c f with
          flushed := if byTimer then o.flushed else f.taken, timer := none }) 0 hq
      exact heq ▸ Landing.relay h hphase ⟨hq, hg.postings, hg.batch, hg.errand, hg.taken⟩
  · rename_i hphase
    exact Landing.done h hphase

/-- The end of a delivery of a stop. -/
theorem complete_of_drain {f : Flight} (h : f.errand = .drain) :
    o.complete c f = (o.landed c f).drain c f.taken := by
  unfold complete
  rw [h]
  rfl

/-- The end of a delivery of a flush. -/
theorem complete_of_flush {f : Flight} {byTimer last : Bool} (h : f.errand = .flush byTimer last) :
    o.complete c f =
      if last || o.queue = [] then (o.landed c f).afterFlush c f
      else (o.landed c f).launch c (.flush byTimer true) f.taken := by
  unfold complete
  rw [h]
  rfl

theorem complete_landing (f : Flight) : Landing c o f (o.complete c f) := by
  cases h : f.errand with
  | drain =>
    rw [complete_of_drain h]
    by_cases hq : o.queue = []
    · rw [drain_of_nil (by exact hq)]
      exact Landing.drained h hq
    · obtain ⟨g, hg, heq⟩ := drain_of_ne_nil (c := c) (o := o.landed c f) f.taken hq
      exact heq ▸ Landing.drain h ⟨hq, hg.postings, hg.batch, hg.errand, hg.taken⟩
  | flush byTimer last =>
    rw [complete_of_flush h]
    split
    · exact afterFlush_landing h
    · rename_i hgo
      simp only [Bool.or_eq_true, decide_eq_true_eq, not_or, Bool.not_eq_true] at hgo
      obtain ⟨hlast, hq⟩ := hgo
      obtain ⟨g, hg, heq⟩ := launch_of_ne_nil (c := c) (o := o.landed c f)
        (.flush byTimer true) f.taken hq
      rw [hlast] at h
      exact heq ▸ Landing.again h ⟨hq, hg.postings, hg.batch, hg.errand, hg.taken⟩

theorem act_land {f : Flight} (h : o.flight = some f) : o.act c .land = o.complete c f := by
  simp [act, h]

/-- What an action can do. -/
inductive Acted (c : Courier δ) (o : Outbox δ) : Action → Outbox δ → Prop where
  | calm {a : Action} {o' : Outbox δ} (still : a.isCalm) (step : Calm c o o') : Acted c o a o'
  | landing {f : Flight} {o' : Outbox δ} (flight : o.flight = some f) (step : Landing c o f o') :
      Acted c o .land o'
  /-- No delivery is under way that could end. -/
  | idle (free : o.flight = none) : Acted c o .land o
  | enqueue (agent : String) (session : Option String) (event : Event) (usage : Option Usage) :
      Acted c o (.enqueue agent session event usage) (o.enqueue c agent session event usage).1

theorem acted (c : Courier δ) (o : Outbox δ) (a : Action) : Acted c o a (o.act c a) := by
  by_cases hcalm : a.isCalm
  · exact .calm hcalm (act_calm hcalm)
  · cases a with
    | enqueue agent session event usage => exact .enqueue agent session event usage
    | land =>
      rcases Option.eq_none_or_eq_some o.flight with hfree | ⟨f, hf⟩
      · have hact : o.act c .land = o := by simp [act, hfree]
        rw [hact]
        exact .idle hfree
      · rw [act_land hf]
        exact .landing hf (complete_landing f)
    | _ => simp [Action.isCalm] at hcalm

/-! ## Phases -/

/-- How the phase of an outbox and the delivery under way go together. -/
structure Orderly (o : Outbox δ) : Prop where
  /-- Only a stop sends all that is left, and it has ended the timer by then. -/
  draining : ∀ f, o.flight = some f → f.errand = .drain → o.phase = .stopping ∧ o.timer = none
  /-- A stop that is not done has a delivery to wait for. -/
  stopping : o.phase = .stopping → o.flight ≠ none
  /-- A stop that is done has left nothing. -/
  stopped : o.phase = .stopped → o.flight = none ∧ o.queue = [] ∧ o.timer = none

theorem orderly_empty (sink : δ) : Orderly (empty sink) where
  draining := by simp [empty]
  stopping := by simp [empty]
  stopped := by simp [empty]

/-- An outbox that has been stopped takes no events. -/
theorem enqueue_of_stopped {agent : String} {session : Option String} {event : Event}
    {usage : Option Usage} (h : o.isStopped) :
    o.enqueue c agent session event usage = (o, none) := by
  simp [enqueue, h]

/-- An outbox that takes an event: as many of the oldest give way as there are too many. -/
theorem enqueue_of_accepting (agent : String) (session : Option String) (event : Event)
    (usage : Option Usage) (h : o.phase = .accepting) :
    o.enqueue c agent session event usage =
      ({ o with
          queue := o.queue.drop (o.queue.length + 1 - c.config.queueLimit) ++
            [⟨o.seq + 1, o.clock, agent, session, event, usage⟩]
          seq := o.seq + 1
          dropped := o.dropped + (o.queue.length + 1 - c.config.queueLimit) }, some (o.seq + 1)) := by
  have hpos : 0 < c.config.queueLimit := by
    unfold Config.queueLimit
    omega
  have hle : o.queue.length + 1 - c.config.queueLimit ≤ o.queue.length := by omega
  simp only [enqueue, isStopped, h, List.length_append, List.length_cons, List.length_nil]
  rw [List.drop_append_of_le_length hle]
  simp

theorem Orderly.calm (h : Orderly o) (hstep : Calm c o o') : Orderly o' := by
  cases hstep with
  | rest clock flushed drained unset =>
    refine ⟨fun f hf he => ?_, h.stopping, fun hs => ?_⟩
    · obtain ⟨hphase, htimer⟩ := h.draining f hf he
      refine ⟨hphase, ?_⟩
      rcases unset (isStopped_iff.2 (by simp [hphase])) with ht | ht
      · exact ht
      · exact ht.trans htimer
    · obtain ⟨hf, hq, htimer⟩ := h.stopped hs
      refine ⟨hf, hq, ?_⟩
      have hphase : o.phase = .stopped := hs
      rcases unset (isStopped_iff.2 (by simp [hphase])) with ht | ht
      · exact ht
      · exact ht.trans htimer
  | heed accepting busy =>
    refine ⟨fun f hf he => ?_, fun _ => by simp [busy], nofun⟩
    have := (h.draining f hf he).1
    rw [accepting] at this
    cases this
  | close accepting free empty =>
    exact ⟨fun f hf => by simp [free] at hf, nofun, fun _ => ⟨free, empty, rfl⟩⟩
  | flush clock flushed free loads unset =>
    refine ⟨fun f hf he => ?_, fun _ => by simp, fun hs => ?_⟩
    · cases hf
      rw [loads.errand] at he
      cases he
    · exact absurd (h.stopped hs).2.1 loads.waiting
  | drain accepting free loads =>
    exact ⟨fun _ _ _ => ⟨rfl, rfl⟩, fun _ => by simp, nofun⟩

theorem Orderly.landing (h : Orderly o) {f : Flight} (hf : o.flight = some f)
    (hstep : Landing c o f o') : Orderly o' := by
  have hbusy : o.phase ≠ .stopped := fun hs => by simp [(h.stopped hs).1] at hf
  cases hstep with
  | again errand loads =>
    refine ⟨fun g hg he => ?_, fun _ => by simp, fun hs => absurd hs hbusy⟩
    cases hg
    rw [loads.errand] at he
    cases he
  | done errand going =>
    exact ⟨nofun, fun hs => absurd hs going, fun hs => absurd hs hbusy⟩
  | close errand stopping empty =>
    exact ⟨nofun, nofun, fun _ => ⟨rfl, empty, rfl⟩⟩
  | relay errand stopping loads =>
    exact ⟨fun _ _ _ => ⟨stopping, rfl⟩, fun _ => by simp, fun hs => absurd hs hbusy⟩
  | drain errand loads =>
    have hd := h.draining f hf errand
    exact ⟨fun _ _ _ => hd, fun _ => by simp, fun hs => absurd hs hbusy⟩
  | drained errand empty =>
    have hd := h.draining f hf errand
    exact ⟨nofun, nofun, fun _ => ⟨rfl, empty, hd.2⟩⟩

theorem Orderly.act (h : Orderly o) (a : Action) : Orderly (o.act c a) := by
  have hacted := o.acted c a
  generalize o.act c a = o' at hacted ⊢
  cases hacted with
  | calm _ step => exact h.calm step
  | landing flight step => exact h.landing flight step
  | idle => exact h
  | enqueue agent session event usage =>
    by_cases hs : o.isStopped
    · rw [enqueue_of_stopped hs]
      exact h
    · have hphase : o.phase = .accepting := by simpa [isStopped] using hs
      simp only [enqueue, hs]
      exact ⟨h.draining, h.stopping, fun hs => by simp [hphase] at hs⟩

/-- What a single step keeps holds after any actions. -/
theorem after_induction {P : Outbox δ → Prop} (hstep : ∀ o a, P o → P (o.act c a)) (h : P o)
    (as : List Action) : P (o.after c as) := by
  induction as generalizing o with
  | nil => exact h
  | cons a as ih => exact ih (hstep o a h)

theorem orderly_after (h : Orderly o) (as : List Action) : Orderly (o.after c as) :=
  after_induction (fun _ a h => h.act a) h as

theorem Calm.isStopped (hstep : Calm c o o') (h : o.isStopped) : o'.isStopped := by
  cases hstep with
  | rest => exact h
  | heed => rfl
  | close => rfl
  | flush => exact h
  | drain => rfl

theorem Landing.isStopped {f : Flight} (hstep : Landing c o f o') (h : o.isStopped) :
    o'.isStopped := by
  cases hstep with
  | again => exact h
  | done => exact h
  | close => rfl
  | relay => exact h
  | drain => exact h
  | drained => rfl

/-- A stop is final. -/
theorem isStopped_act (h : o.isStopped) (a : Action) : (o.act c a).isStopped := by
  have hacted := o.acted c a
  generalize o.act c a = o' at hacted ⊢
  cases hacted with
  | calm _ step => exact step.isStopped h
  | landing _ step => exact step.isStopped h
  | idle => exact h
  | enqueue agent session event usage =>
    rw [enqueue_of_stopped h]
    exact h

theorem isStopped_after (h : o.isStopped) (as : List Action) : (o.after c as).isStopped :=
  after_induction (P := fun o => o.isStopped = true) (fun _ a h => isStopped_act h a) h as

theorem isStopped_beginStop : (o.beginStop c).isStopped := by
  by_cases hphase : o.phase = .accepting
  · rcases Option.eq_none_or_eq_some o.flight with hfree | ⟨f, hbusy⟩
    · rw [beginStop_of_free hphase hfree]
      by_cases hq : o.queue = []
      · rw [drain_of_nil (by exact hq)]
        rfl
      · obtain ⟨f, _, heq⟩ := drain_of_ne_nil (c := c)
          (o := { o with phase := .stopping, timer := none }) 0 hq
        rw [heq]
        rfl
    · rw [beginStop_of_busy hphase hbusy]
      rfl
  · have hstopped := isStopped_iff.2 hphase
    rw [beginStop_of_stopped hstopped]
    exact hstopped

theorem phase_launch (errand : Errand) (taken : Nat) :
    (o.launch c errand taken).phase = o.phase := by
  unfold launch
  split <;> rfl

theorem phase_beginFlush (byTimer : Bool) : (o.beginFlush c byTimer).phase = o.phase := by
  unfold beginFlush
  simp only
  split
  · rfl
  · exact phase_launch _ _

/-- Only a stop ends the time in which an outbox takes events. -/
theorem phase_act (ho : Orderly o) (h : o.phase = .accepting) {a : Action} (ha : a ≠ .stop) :
    (o.act c a).phase = .accepting := by
  have hgoing : o.isStopped = false := by simp [isStopped, h]
  cases a with
  | stop => exact absurd rfl ha
  | pass => exact h
  | flush => exact (phase_beginFlush false).trans h
  | start =>
    simp only [act, start]
    split
    · exact h
    · exact h
  | enqueue =>
    simp only [act, enqueue, hgoing]
    exact h
  | tick =>
    simp only [act]
    split
    · split
      · exact h
      · simp only [tick]
        split
        · exact h
        · exact (phase_beginFlush true).trans h
    · exact h
  | land =>
    have hacted := o.acted c .land
    generalize o.act c .land = o' at hacted ⊢
    cases hacted with
    | calm still => cases still
    | idle => exact h
    | landing flight step =>
      have hsame := fun hd => (ho.draining _ flight hd).1.symm.trans h
      cases step with
      | again => exact h
      | done => exact h
      | close errand stopping => simp [h] at stopping
      | relay errand stopping => simp [h] at stopping
      | drain errand => exact nomatch hsame errand
      | drained errand => exact nomatch hsame errand

theorem phase_of_not_mem (ho : Orderly o) (h : o.phase = .accepting) {as : List Action}
    (has : .stop ∉ as) : (o.after c as).phase = .accepting := by
  induction as generalizing o with
  | nil => exact h
  | cons a as ih =>
    rw [List.mem_cons, not_or] at has
    exact ih (ho.act a) (phase_act ho h (Ne.symm has.1)) has.2

/-! ## Numbers -/

theorem Calm.seq (hstep : Calm c o o') : o'.seq = o.seq := by
  cases hstep <;> rfl

theorem Landing.seq {f : Flight} (hstep : Landing c o f o') : o'.seq = o.seq := by
  cases hstep <;> rfl

/-- Only an event that is queued gets a number. -/
theorem seq_act {a : Action} (h : a.isCalm ∨ a = .land) : (o.act c a).seq = o.seq := by
  have hacted := o.acted c a
  generalize o.act c a = o' at hacted ⊢
  cases hacted with
  | calm _ step => exact step.seq
  | landing _ step => exact step.seq
  | idle => rfl
  | enqueue => simp [Action.isCalm] at h

end Playbook.Outbox
