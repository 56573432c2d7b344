import Playbook.Proofs.Outbox.Action

/-!
# `Proofs.Outbox.Course` — the clock brings nothing but actions

Letting time pass, in each of its forms, is some list of deliveries that end, ticks of the timer and steps of the clock. So
what holds after any actions holds of an outbox that is left to the clock.

## Contents
- **Actions of time.** `Action.isTimes`, `Course`.
- **Single moments.** `fire_eq_act`, `clock_fire`.
- **Letting time pass.** `advance_course`, `linger_course`, `settle_course`, `stop_course`.
- **A stop ends.** `settle_phase`.
-/

namespace Playbook.Outbox

variable {δ : Type} {c : Courier δ} {o o' o'' : Outbox δ}

/-! ## Actions of time -/

/-- Whether an action comes without a caller. -/
def Action.isTimes : Action → Bool
  | .land | .tick | .pass _ => true
  | _ => false

/-- What time can make of an outbox without a caller. -/
def Course (c : Courier δ) (o o' : Outbox δ) : Prop :=
  ∃ as : List Action, (∀ a ∈ as, a.isTimes) ∧ o' = o.after c as

theorem Course.refl (o : Outbox δ) : Course c o o :=
  ⟨[], by simp, rfl⟩

theorem Course.act {a : Action} (h : a.isTimes) : Course c o (o.act c a) :=
  ⟨[a], by simpa using h, rfl⟩

theorem Course.trans (h : Course c o o') (h' : Course c o' o'') : Course c o o'' := by
  obtain ⟨as, has, rfl⟩ := h
  obtain ⟨bs, hbs, rfl⟩ := h'
  refine ⟨as ++ bs, fun a ha => ?_, (after_append as bs).symm⟩
  rcases List.mem_append.1 ha with ha | ha
  · exact has a ha
  · exact hbs a ha

/-! ## Single moments -/

/-- What comes next is an action. -/
theorem fire_eq_act {m : Moment} (h : o.next? = some m) :
    ∃ a : Action, a.isTimes ∧ o.fire c m = o.act c a := by
  unfold next? at h
  split at h
  · rename_i f hf ht
    cases h
    exact ⟨.land, rfl, (act_land hf).symm⟩
  · rename_i f t hf ht
    rw [Option.some.injEq] at h
    split at h
    · subst h
      exact ⟨.land, rfl, (act_land hf).symm⟩
    · rename_i hlate
      subst h
      have hother : f.isTimers = false := by
        simp only [Bool.or_eq_true, not_or, Bool.not_eq_true] at hlate
        exact hlate.1
      exact ⟨.tick, rfl, by simp [act, ht, hf, hother, fire]⟩
  · rename_i t hf ht
    cases h
    exact ⟨.tick, rfl, by simp [act, ht, hf, fire]⟩
  · cases h

theorem fire_course {m : Moment} (h : o.next? = some m) : Course c o (o.fire c m) := by
  obtain ⟨a, ha, heq⟩ := fire_eq_act (c := c) h
  rw [heq]
  exact Course.act ha

@[simp] theorem clock_launch (errand : Errand) (taken : Nat) :
    (o.launch c errand taken).clock = o.clock := by
  unfold launch
  split <;> rfl

@[simp] theorem clock_drain (taken : Nat) : (o.drain c taken).clock = o.clock := by
  unfold drain
  split
  · rfl
  · exact clock_launch _ _

@[simp] theorem clock_beginFlush (byTimer : Bool) : (o.beginFlush c byTimer).clock = o.clock := by
  unfold beginFlush
  simp only
  split
  · rfl
  · exact clock_launch _ _

@[simp] theorem clock_afterFlush (f : Flight) : (o.afterFlush c f).clock = o.clock := by
  unfold afterFlush
  simp only
  split
  · exact clock_drain _
  · rfl

/-- A moment brings the clock to its own time, unless the clock is beyond it. -/
theorem clock_fire (m : Moment) : (o.fire c m).clock = max o.clock m.time := by
  cases m with
  | landing f =>
    simp only [fire, complete]
    split
    · exact clock_drain _
    · split
      · exact clock_afterFlush _
      · exact clock_launch _ _
  | ticking t =>
    simp only [fire, tick]
    split
    · rfl
    · exact clock_beginFlush true

/-! ## Letting time pass -/

theorem advance_course (limit : Nat) : Course c o (o.advance c limit) := by
  induction o using advance.induct c limit with
  | case1 o hnone =>
    rw [advance, hnone]
    exact Course.act (a := .pass limit) rfl
  | case2 o m hsome hm ih =>
    rw [advance, hsome]
    simp only [hm]
    exact (fire_course hsome).trans ih
  | case3 o m hsome hm =>
    rw [advance, hsome]
    simp only [hm]
    exact Course.act (a := .pass limit) rfl

/-- What comes by a time at which the clock stands leaves the clock there. -/
theorem advance_succ_course {now : Nat} (h : o.clock = now) :
    Course c o { o.advance c (now + 1) with clock := now } := by
  induction o using advance.induct c (now + 1) with
  | case1 o hnone =>
    rw [advance, hnone, ← h]
    exact Course.refl o
  | case2 o m hsome hm ih =>
    have hclock : (o.fire c m).clock = now := by
      rw [clock_fire, h]
      omega
    rw [advance, hsome]
    simp only [hm]
    exact (fire_course hsome).trans (ih hclock)
  | case3 o m hsome hm =>
    rw [advance, hsome]
    simp only [dif_neg hm]
    rw [← h]
    exact Course.refl o

theorem linger_course : Course c o (o.linger c) :=
  advance_succ_course rfl

theorem settle_course (limit : Option Nat) : Course c o (o.settle c limit) := by
  induction o using settle.induct c limit with
  | case1 o hphase hnone =>
    rw [settle, dif_pos hphase, hnone]
    exact Course.refl o
  | case2 o hphase m hsome hbeyond =>
    rw [settle, dif_pos hphase, hsome]
    simp only [hbeyond]
    exact Course.refl o
  | case3 o hphase m hsome hbeyond ih =>
    rw [settle, dif_pos hphase, hsome]
    simp only [hbeyond]
    exact (fire_course hsome).trans ih
  | case4 o hphase =>
    rw [settle, dif_neg hphase]
    exact Course.refl o

/-- A stop is one action of its caller, and what time brings until it is done. -/
theorem stop_course : Course c (o.act c .stop) (o.stop c) :=
  settle_course none

/-! ## A stop ends -/

/-- A stop that is left to the clock comes to its end. -/
theorem settle_phase (h : Orderly o) : (o.settle c none).phase ≠ .stopping := by
  induction o using settle.induct c none with
  | case1 o hphase hnone =>
    have hbusy := h.stopping hphase
    unfold next? at hnone
    split at hnone <;> simp_all
  | case2 o hphase m hsome hbeyond => simp [beyond] at hbeyond
  | case3 o hphase m hsome hbeyond ih =>
    rw [settle, dif_pos hphase, hsome]
    simp only [hbeyond]
    obtain ⟨a, _, heq⟩ := fire_eq_act (c := c) hsome
    exact ih (heq ▸ h.act a)
  | case4 o hphase =>
    rw [settle, dif_neg hphase]
    exact hphase

theorem Course.orderly (h : Course c o o') (ho : Orderly o) : Orderly o' := by
  obtain ⟨as, _, rfl⟩ := h
  exact orderly_after ho as

/-- Time gives no numbers. -/
theorem seq_act_of_isTimes {a : Action} (h : a.isTimes) : (o.act c a).seq = o.seq := by
  cases a with
  | land => exact seq_act (.inr rfl)
  | tick => exact seq_act (.inl rfl)
  | pass => exact seq_act (.inl rfl)
  | _ => cases h

theorem Course.seq (h : Course c o o') : o'.seq = o.seq := by
  obtain ⟨as, has, rfl⟩ := h
  induction as generalizing o with
  | nil => rfl
  | cons a as ih =>
    have hfirst := seq_act_of_isTimes (c := c) (o := o) (has a (List.mem_cons_self ..))
    exact (ih fun b hb => has b (List.mem_cons_of_mem a hb)).trans hfirst

theorem orderly_stop (h : Orderly o) : Orderly (o.stop c) :=
  stop_course.orderly (h.act .stop)

/-- After a stop the outbox is done. -/
theorem stop_phase (h : Orderly o) : (o.stop c).phase = .stopped := by
  have hstop : Orderly (o.beginStop c) := h.act (c := c) .stop
  have hgoing : (o.stop c).phase ≠ .stopping := settle_phase hstop
  have hhalted : (o.stop c).phase ≠ .accepting := by
    obtain ⟨as, _, heq⟩ := stop_course (c := c) (o := o)
    rw [heq]
    exact isStopped_iff.1 (isStopped_after isStopped_beginStop as)
  cases hphase : (o.stop c).phase with
  | accepting => exact absurd hphase hhalted
  | stopping => exact absurd hphase hgoing
  | stopped => rfl

end Playbook.Outbox
