import Playbook.Outbox.Basic

/-!
# `Playbook.Outbox.Clock` — the outbox as time goes by

Deliveries end and the timer ticks when their times come. A tick that comes while the timer's own delivery is
under way waits for the end of it, and ticks that are late follow at once. At one time callers come first: what time
brings then happens after what they do.

## Contents
- **What comes next.** `Moment`, `next?`, `fire`.
- **A bound.** `size_complete_lt`: the end of a delivery leaves less to do.
- **Letting time pass.** `advance` to a time, `linger` at it, `settle` until a stop is done, `awaitFlight` for a
  caller's flush.
- **Whole calls.** `flush`, `stop`.
-/

namespace Playbook.Outbox

variable {δ : Type}

/-! ## What comes next -/

/-- Something that time brings. -/
inductive Moment where
  /-- A delivery ends. -/
  | landing (flight : Flight)
  /-- The timer ticks. -/
  | ticking (at_ : Nat)

/-- The time at which a moment comes. -/
def Moment.time : Moment → Nat
  | landing f => f.due
  | ticking at_ => at_

/-- What comes next. -/
def next? (o : Outbox δ) : Option Moment :=
  match o.flight, o.timer with
  | some f, none => some (.landing f)
  -- The timer waits for its own delivery and cannot tick before that has ended.
  | some f, some t => some (if f.isTimers || f.due ≤ t then .landing f else .ticking t)
  | none, some t => some (.ticking t)
  | none, none => none

/-- Let it happen. -/
def fire (c : Courier δ) (m : Moment) (o : Outbox δ) : Outbox δ :=
  match m with
  | .landing f => o.complete c f
  | .ticking t => o.tick c t

/-! ## A bound -/

/-- How much an errand may still lead to, besides what is queued. -/
def Errand.size : Errand → Nat
  | .flush _ false => 3
  | .flush _ true => 2
  | .drain => 1

/-- How much the queue and the delivery that is under way may still lead to. -/
def size (o : Outbox δ) : Nat :=
  o.queue.length + (o.flight.map (·.errand.size)).getD 0

/-- How many ticks may come up to a time. -/
def ticksUpTo (limit : Nat) (o : Outbox δ) : Nat :=
  (o.timer.map (limit + 1 - ·)).getD 0

theorem batchLimit_pos (c : Outbox.Config) : 0 < c.batchLimit := by
  unfold Outbox.Config.batchLimit
  omega

theorem interval_pos (c : Outbox.Config) : 0 < c.interval := by
  unfold Outbox.Config.interval
  omega

/-- Beginning a delivery takes an event from the queue. -/
theorem size_launch (c : Courier δ) (errand : Errand) (taken : Nat) {o : Outbox δ}
    (h : o.flight = none) :
    (o.launch c errand taken).size ≤ o.queue.length + (errand.size - 1) := by
  have hpos := batchLimit_pos c.config
  unfold launch
  split
  · simp [size, h]
  · rename_i p postings hq
    have hne : o.queue.length ≠ 0 := by
      intro h0
      rw [List.length_eq_zero_iff.1 h0] at hq
      simp at hq
    have he : 1 ≤ errand.size := by
      cases errand with
      | flush byTimer last => cases last <;> simp [Errand.size]
      | drain => simp [Errand.size]
    -- The batch is not empty, which makes up for the step that the errand itself may still take.
    simp only [size, List.length_drop, Option.map_some, Option.getD_some]
    omega

theorem size_drain (c : Courier δ) (taken : Nat) {o : Outbox δ} (h : o.flight = none) :
    (o.drain c taken).size ≤ o.queue.length := by
  unfold drain
  split
  · simp [size, h]
  · simpa [Errand.size] using size_launch c .drain taken h

theorem timer_launch (c : Courier δ) (errand : Errand) (taken : Nat) (o : Outbox δ) :
    (o.launch c errand taken).timer = o.timer := by
  unfold launch
  split <;> rfl

theorem timer_drain (c : Courier δ) (taken : Nat) (o : Outbox δ) :
    (o.drain c taken).timer = o.timer := by
  unfold drain
  split
  · rfl
  · exact timer_launch _ _ _ _

theorem size_afterFlush (c : Courier δ) (f : Flight) {o : Outbox δ} (h : o.flight = none) :
    (o.afterFlush c f).size ≤ o.queue.length := by
  unfold afterFlush
  simp only
  split
  · exact size_drain c 0 h
  · simp [size, h]

theorem timer_afterFlush (c : Courier δ) (f : Flight) (o : Outbox δ) :
    (o.afterFlush c f).timer = o.timer ∨ (o.afterFlush c f).timer = none := by
  unfold afterFlush
  simp only
  split
  · exact .inr (timer_drain _ _ _)
  · exact .inl rfl

/-- The end of a delivery leaves less to do. -/
theorem size_complete_lt (c : Courier δ) {f : Flight} {o : Outbox δ} (h : o.flight = some f) :
    (o.complete c f).size < o.size := by
  have hsize : o.size = o.queue.length + f.errand.size := by simp [size, h]
  rw [hsize]
  unfold complete
  cases he : f.errand with
  | drain =>
    refine Nat.lt_of_le_of_lt (size_drain c f.taken rfl) ?_
    simp [Errand.size]
  | flush byTimer last =>
    simp only
    split
    · refine Nat.lt_of_le_of_lt (size_afterFlush c f rfl) ?_
      cases last <;> simp [Errand.size]
    · rename_i hlast
      have hl : last = false := by
        cases last with
        | false => rfl
        | true => simp at hlast
      subst hl
      refine Nat.lt_of_le_of_lt (size_launch c _ f.taken rfl) ?_
      simp [Errand.size]

/-- The end of a delivery leaves the timer as it is, or ends it. -/
theorem timer_complete (c : Courier δ) (f : Flight) (o : Outbox δ) :
    (o.complete c f).timer = o.timer ∨ (o.complete c f).timer = none := by
  unfold complete
  cases f.errand with
  | drain => exact .inl (timer_drain _ _ _)
  | flush byTimer last =>
    simp only
    split
    · exact timer_afterFlush _ _ _
    · exact .inl (timer_launch _ _ _ _)

/-- A tick leads to three more steps at most. -/
theorem size_tick (c : Courier δ) (at_ : Nat) (o : Outbox δ) :
    (o.tick c at_).size ≤ o.size + 2 := by
  unfold tick
  simp only
  split
  · simp [size]
  · unfold beginFlush
    simp only
    split
    · simp_all [size]
    · rename_i h
      refine Nat.le_trans (size_launch c _ 0 h) ?_
      simp [size, Errand.size]

/-- A tick ends the timer or sets it to a later time. -/
theorem timer_tick (c : Courier δ) (at_ : Nat) (o : Outbox δ) :
    (o.tick c at_).timer = none ∨ (o.tick c at_).timer = some (at_ + c.config.interval) := by
  unfold tick
  simp only
  split
  · exact .inl rfl
  · right
    unfold beginFlush
    simp only
    split
    · rfl
    · exact timer_launch _ _ _ _

/-- What comes next is the end of the delivery that is under way, or the tick that the timer is set
    for. -/
theorem next?_eq_some {o : Outbox δ} {m : Moment} (h : o.next? = some m) :
    (∃ f, m = .landing f ∧ o.flight = some f) ∨ (∃ t, m = .ticking t ∧ o.timer = some t) := by
  unfold next? at h
  split at h
  · rename_i f hf _
    cases h
    exact .inl ⟨f, rfl, hf⟩
  · rename_i f t hf ht
    simp only [Option.some.injEq] at h
    split at h
    · exact .inl ⟨f, h.symm, hf⟩
    · exact .inr ⟨t, h.symm, ht⟩
  · rename_i t _ ht
    cases h
    exact .inr ⟨t, rfl, ht⟩
  · cases h

/-- How much may still happen up to a time. -/
def stepsUpTo (limit : Nat) (o : Outbox δ) : Nat :=
  3 * o.ticksUpTo limit + o.size

/-- Letting happen what comes next leaves less to happen. -/
theorem stepsUpTo_fire_lt (c : Courier δ) {limit : Nat} {o : Outbox δ} {m : Moment}
    (h : o.next? = some m) (hm : m.time ≤ limit) :
    (o.fire c m).stepsUpTo limit < o.stepsUpTo limit := by
  rcases next?_eq_some h with ⟨f, rfl, hf⟩ | ⟨t, rfl, ht⟩
  · have hsize := size_complete_lt c hf
    have hticks : (o.complete c f).ticksUpTo limit ≤ o.ticksUpTo limit := by
      rcases timer_complete c f o with h | h <;> simp [ticksUpTo, h]
    simp only [fire, stepsUpTo]
    omega
  -- A tick may lead to new deliveries, but it uses up one of the ticks that are left.
  · have hsize := size_tick c t o
    have hpos := interval_pos c.config
    simp only [Moment.time] at hm
    have hticks : (o.tick c t).ticksUpTo limit < o.ticksUpTo limit := by
      rcases timer_tick c t o with h | h <;> simp [ticksUpTo, h, ht] <;> omega
    simp only [fire, stepsUpTo]
    omega

/-! ## Letting time pass -/

/-- Let all happen that comes before a time, and set the clock to it. -/
def advance (c : Courier δ) (limit : Nat) (o : Outbox δ) : Outbox δ :=
  match _h : o.next? with
  | none => { o with clock := max o.clock limit }
  | some m =>
    if _hm : m.time < limit then (o.fire c m).advance c limit
    else { o with clock := max o.clock limit }
termination_by o.stepsUpTo limit
decreasing_by exact stepsUpTo_fire_lt c _h (Nat.le_of_lt _hm)

/-- Let all happen that comes at this very time. -/
def linger (c : Courier δ) (o : Outbox δ) : Outbox δ :=
  { o.advance c (o.clock + 1) with clock := o.clock }

/-- Let time pass until the delivery of a caller's flush has ended. It stays under way until then, since a tick that
    finds it does nothing. -/
def awaitFlight (c : Courier δ) (o : Outbox δ) : Outbox δ :=
  match o.flight with
  | none => o
  | some f => if f.isTimers then o else (o.advance c f.due).complete c f

/-- Whether the next moment lies beyond a limit, if there is one. -/
def beyond (limit : Option Nat) (m : Moment) : Bool :=
  match limit with
  | none => false
  | some t => t < m.time

/-- Let time pass until a stop is done, but not beyond a limit. -/
def settle (c : Courier δ) (limit : Option Nat) (o : Outbox δ) : Outbox δ :=
  if _hp : o.phase = .stopping then
    match _h : o.next? with
    | none => o
    | some m => if beyond limit m then o else (o.fire c m).settle c limit
  else o
termination_by 3 * (if o.timer.isSome then 1 else 0) + o.size
decreasing_by
  rcases next?_eq_some _h with ⟨f, rfl, hf⟩ | ⟨t, rfl, ht⟩
  · have hsize := size_complete_lt c hf
    simp only [fire]
    rcases timer_complete c f o with h | h <;> simp only [h] <;> simp <;> omega
  · simp [fire, tick, isStopped, _hp, ht, size]

/-! ## Whole calls -/

/-- Flush, and wait until that is done. -/
def flush (c : Courier δ) (o : Outbox δ) : Outbox δ :=
  (((o.beginFlush c false).awaitFlight c).awaitFlight c)

/-- Stop, and wait until that is done. -/
def stop (c : Courier δ) (o : Outbox δ) : Outbox δ :=
  (o.beginStop c).settle c none

end Playbook.Outbox
