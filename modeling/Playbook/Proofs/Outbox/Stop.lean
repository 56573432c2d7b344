import Playbook.Proofs.Outbox.Conservation
import Playbook.Proofs.Outbox.Course

/-!
# `Proofs.Outbox.Stop` — a stop sends all that is left, once and for all

A stop may come at any time, with or without the timer, and while a flush is sending its first or its second batch. From then on
each end of a delivery either begins the next one, which takes as much as fits, or finds nothing left, and then the stop is done.
So it takes as many deliveries as the events that wait fill, after the one that was under way.

## Contents
- **Rounds.** `Config.rounds`, the number of batches that some events fill.
- **Steps.** `act_of_stopped`, `Calm.of_stopped` and `Landing.resumes`: what can still happen.
- **How a stop goes on.** `Underway`, kept by every step (`Underway.record`).
- **Statement.** `Closing`, and `stop_drains`.
-/

namespace Playbook.Outbox

variable {δ : Type} {c : Courier δ} {sink : δ} {o o' : Outbox δ} {l called : Ledger δ}

/-! ## Rounds -/

/-- How many batches some events fill. -/
def Config.rounds (config : Config) (events : Nat) : Nat :=
  (events + config.batchLimit - 1) / config.batchLimit

theorem rounds_zero (config : Config) : config.rounds 0 = 0 := by
  have hpos := batchLimit_pos config
  simp only [Config.rounds, Nat.zero_add]
  exact Nat.div_eq_of_lt (by omega)

/-- A batch is one round. -/
theorem rounds_of_pos (config : Config) {events : Nat} (h : 0 < events) :
    config.rounds events = config.rounds (events - config.batchLimit) + 1 := by
  have hpos := batchLimit_pos config
  by_cases hle : config.batchLimit ≤ events
  · have hsplit : events + config.batchLimit - 1 =
        events - config.batchLimit + config.batchLimit - 1 + config.batchLimit := by omega
    simp only [Config.rounds]
    rw [hsplit, Nat.add_div_right _ hpos]
  · have hnone : events - config.batchLimit = 0 := by omega
    have hsplit : events + config.batchLimit - 1 = events - 1 + config.batchLimit := by omega
    rw [hnone, rounds_zero, Config.rounds, hsplit, Nat.add_div_right _ hpos,
      Nat.div_eq_of_lt (by omega)]

/-- A delivery that begins takes one round. -/
theorem rounds_of_loads {errand : Errand} {taken : Nat} {f : Flight}
    (h : Loads c o errand taken f) :
    c.config.rounds o.queue.length =
      c.config.rounds (o.queue.drop c.config.batchLimit).length + 1 := by
  rw [rounds_of_pos _ (List.length_pos_iff.2 h.waiting), List.length_drop]

/-! ## Steps -/

/-- Whether an action is the end of a delivery. -/
def Action.isLand : Action → Bool
  | .land => true
  | _ => false

/-- With the outbox stopped nothing happens any more. -/
theorem act_of_stopped (ho : Orderly o) (h : o.phase = .stopped) (a : Action) :
    o.act c a =
      match a with
      | .flush => { o with flushed := 0 }
      | .stop => { o with drained := 0 }
      | .pass time => { o with clock := max o.clock time }
      | _ => o := by
  obtain ⟨hfree, hempty, htimer⟩ := ho.stopped h
  have hstopped : o.isStopped := isStopped_iff.2 (by simp [h])
  cases a with
  | start => simp [act, start, hstopped]
  | enqueue => simp [act, enqueue_of_stopped hstopped]
  | flush =>
    simp only [act]
    rw [beginFlush_of_free hfree, launch_of_nil (by exact hempty)]
    rfl
  | stop => simp [act, beginStop_of_stopped hstopped]
  | land => simp [act, hfree]
  | tick => simp [act, htimer]
  | pass => rfl

/-- In an outbox that has been stopped a step in which no delivery ends leaves all that counts as it is. -/
theorem Calm.of_stopped (hstep : Calm c o o') (ho : Orderly o) (h : o.isStopped) :
    ∃ clock timer flushed drained, o' = { o with clock, timer, flushed, drained } := by
  have hphase := isStopped_iff.1 h
  cases hstep with
  | rest clock flushed drained _ => exact ⟨_, _, _, _, rfl⟩
  | heed accepting => exact absurd accepting hphase
  | close accepting => exact absurd accepting hphase
  | drain accepting => exact absurd accepting hphase
  | flush clock flushed free loads =>
    -- A stop that is not done is busy, and one that is done has left nothing.
    cases hp : o.phase with
    | accepting => exact absurd hp hphase
    | stopping => exact absurd free (ho.stopping hp)
    | stopped => exact absurd (ho.stopped hp).2.1 loads.waiting

/-- What the end of a delivery leads to once there is a stop that waits for it. -/
inductive Resumes (c : Courier δ) (o : Outbox δ) (f : Flight) (o' : Outbox δ) : Prop where
  /-- The next batch. -/
  | more {errand : Errand} {taken : Nat} {g : Flight} (loads : Loads c o errand taken g)
      (queue : o'.queue = o.queue.drop c.config.batchLimit) (flight : o'.flight = some g)
      (phase : o'.phase = .stopping)
  /-- The end of the stop. -/
  | last (waiting : o.queue = []) (queue : o'.queue = []) (phase : o'.phase = .stopped)

theorem Landing.resumes {f : Flight} (hstep : Landing c o f o') (h : o.phase = .stopping) :
    Resumes c o f o' ∧ o'.seq = o.seq ∧ o'.dropped = o.dropped := by
  cases hstep with
  | again errand loads => exact ⟨.more loads rfl rfl h, rfl, rfl⟩
  | done errand going => exact absurd h going
  | close errand stopping empty => exact ⟨.last empty empty rfl, rfl, rfl⟩
  | relay errand stopping loads => exact ⟨.more loads rfl rfl h, rfl, rfl⟩
  | drain errand loads => exact ⟨.more loads rfl rfl h, rfl, rfl⟩
  | drained errand empty => exact ⟨.last empty empty rfl, rfl, rfl⟩

/-! ## How a stop goes on -/

/-- How many deliveries have to end until a stop is done. -/
def left (c : Courier δ) (o : Outbox δ) : Nat :=
  if o.phase = .stopped then 0 else c.config.rounds o.queue.length + 1

/-- The events that waited at a call leave the queue from the front, in batches of which each is one round. -/
def Sent (c : Courier δ) (called l : Ledger δ) : Prop :=
  ∃ more, l.begun = called.begun ++ more ∧
    more.flatMap (·.postings) ++ l.outbox.queue = called.outbox.queue ∧
    more.length + c.config.rounds l.outbox.queue.length =
      c.config.rounds called.outbox.queue.length

theorem Sent.rest (h : Sent c called l) {ended : List Parcel} (hqueue : o'.queue = l.outbox.queue) :
    Sent c called (l.note ended o') := by
  obtain ⟨more, hbegun, hsplit, hrounds⟩ := h
  refine ⟨more, ?_, ?_, ?_⟩
  · simp [Ledger.note, loaded_of_queue_eq hqueue, hbegun]
  · simpa [Ledger.note, hqueue] using hsplit
  · simpa [Ledger.note, hqueue] using hrounds

theorem Sent.loads (h : Sent c called l) (hk : Kept c sink l) {ended : List Parcel}
    {errand : Errand} {taken : Nat} {f : Flight} (loads : Loads c l.outbox errand taken f)
    (hqueue : o'.queue = l.outbox.queue.drop c.config.batchLimit) (hflight : o'.flight = some f) :
    Sent c called (l.note ended o') := by
  obtain ⟨more, hbegun, hsplit, hrounds⟩ := h
  have hloaded := loaded_of_loads loads hk.nodup hqueue hflight
  refine ⟨more ++ [f.parcel], ?_, ?_, ?_⟩
  · simp [Ledger.note, hloaded, hbegun]
  · rw [← hsplit]
    simp [Ledger.note, Flight.parcel, loads.postings, hqueue]
  · rw [rounds_of_loads loads] at hrounds
    simp only [Ledger.note, hqueue, List.length_append, List.length_cons, List.length_nil]
    omega

/-- How many deliveries are to end after a call that stops an outbox: the one under way, and those of all that waits. -/
def ahead (c : Courier δ) (o : Outbox δ) : Nat :=
  o.flight.toList.length + c.config.rounds o.queue.length

/-- How far a stop has come, given the ledger at the call of it and how many deliveries have ended since. -/
structure Underway (c : Courier δ) (called : Ledger δ) (landings : Nat) (l : Ledger δ) : Prop where
  halted : l.outbox.isStopped
  issued : l.issued = called.issued
  lost : l.lost = called.lost
  seq : l.outbox.seq = called.outbox.seq
  dropped : l.outbox.dropped = called.outbox.dropped
  sent : Sent c called l
  left : l.outbox.left c = called.outbox.ahead c - landings

namespace Underway

variable {landings : Nat}

/-- The call. -/
theorem call (hk : Kept c sink called) (h : called.outbox.phase = .accepting) :
    Underway c called 0 (called.record c .stop) := by
  have hnone : Sent c called called := ⟨[], by simp, by simp, by simp⟩
  rw [Ledger.record_of_calm rfl]
  simp only [act]
  rcases Option.eq_none_or_eq_some called.outbox.flight with hfree | ⟨f, hbusy⟩
  · rw [beginStop_of_free h hfree]
    by_cases hq : called.outbox.queue = []
    · rw [drain_of_nil (by exact hq)]
      refine ⟨rfl, rfl, rfl, rfl, rfl, hnone.rest rfl, ?_⟩
      simp [Ledger.note, Outbox.left, ahead, hfree, hq, rounds_zero]
    · obtain ⟨f, loads, heq⟩ := drain_of_ne_nil (c := c)
        (o := { called.outbox with phase := .stopping, timer := none }) 0 hq
      have hloads : Loads c called.outbox .drain 0 f :=
        ⟨hq, loads.postings, loads.batch, loads.errand, loads.taken⟩
      have hrounds := rounds_of_loads hloads
      rw [heq]
      refine ⟨rfl, rfl, rfl, rfl, rfl, hnone.loads hk hloads rfl rfl, ?_⟩
      simp only [Ledger.note, Outbox.left, ahead, hfree, Option.toList_none, List.length_nil]
      simp only [reduceCtorEq, if_false]
      omega
  · rw [beginStop_of_busy h hbusy]
    refine ⟨rfl, rfl, rfl, rfl, rfl, hnone.rest rfl, ?_⟩
    simp [Ledger.note, Outbox.left, ahead, hbusy, Nat.add_comm]

/-- A step in which no event is queued and no delivery ends. -/
theorem calm (h : Underway c called landings l) (ho : Orderly l.outbox)
    (hstep : Calm c l.outbox o') : Underway c called landings (l.note [] o') := by
  obtain ⟨clock, timer, flushed, drained, rfl⟩ := hstep.of_stopped ho h.halted
  exact ⟨h.halted, h.issued, h.lost, h.seq, h.dropped, h.sent.rest rfl, h.left⟩

/-- The end of a delivery. -/
theorem landing (h : Underway c called landings l) (hk : Kept c sink l) (ho : Orderly l.outbox)
    {f : Flight} (hf : l.outbox.flight = some f) (hstep : Landing c l.outbox f o') :
    Underway c called (landings + 1) (l.note [f.parcel] o') := by
  have hphase : l.outbox.phase = .stopping := by
    have hgoing := isStopped_iff.1 h.halted
    cases hp : l.outbox.phase with
    | accepting => exact absurd hp hgoing
    | stopping => rfl
    | stopped => simp [(ho.stopped hp).1] at hf
  have hleft := h.left
  simp only [Outbox.left, hphase, reduceCtorEq, if_false] at hleft
  obtain ⟨hresumes, hseq, hdropped⟩ := hstep.resumes hphase
  have hhalted := hstep.isStopped h.halted
  cases hresumes with
  | more loads queue flight phase =>
    refine ⟨hhalted, h.issued, h.lost, hseq.trans h.seq, hdropped.trans h.dropped,
      h.sent.loads hk loads queue flight, ?_⟩
    rw [rounds_of_loads loads] at hleft
    simp only [Ledger.note, Outbox.left, phase, queue, reduceCtorEq, if_false]
    omega
  | last waiting queue phase =>
    refine ⟨hhalted, h.issued, h.lost, hseq.trans h.seq, hdropped.trans h.dropped,
      h.sent.rest (queue.trans waiting.symm), ?_⟩
    simp only [waiting, List.length_nil, rounds_zero] at hleft
    simp only [Ledger.note, Outbox.left, phase, if_true]
    omega

/-- With no delivery under way none can end, and the stop is done. -/
theorem idle (h : Underway c called landings l) (ho : Orderly l.outbox)
    (hfree : l.outbox.flight = none) : Underway c called (landings + 1) (l.note [] l.outbox) := by
  have hnote := h.calm ho (Calm.refl l.outbox)
  have hphase : l.outbox.phase = .stopped := by
    have hgoing := isStopped_iff.1 h.halted
    cases hp : l.outbox.phase with
    | accepting => exact absurd hp hgoing
    | stopping => exact absurd hfree (ho.stopping hp)
    | stopped => rfl
  have hleft := h.left
  simp only [Outbox.left, hphase, if_true] at hleft
  refine { hnote with left := ?_ }
  simp only [Ledger.note, Outbox.left, hphase, if_true]
  omega

/-- A stop that is under way stays `Underway` in every step. -/
theorem record (h : Underway c called landings l) (hk : Kept c sink l) (ho : Orderly l.outbox)
    (a : Action) :
    Underway c called (landings + if a.isLand then 1 else 0) (l.record c a) := by
  have hrecorded := l.recorded c a
  generalize l.record c a = l' at hrecorded ⊢
  cases hrecorded with
  | calm still step =>
    have hstays : a.isLand = false := by
      cases a with
      | land => cases still
      | _ => rfl
    rw [hstays]
    exact h.calm ho step
  | landing flight step => exact h.landing hk ho flight step
  | idle free => exact h.idle ho free
  | enqueue agent session event usage =>
    simp only [Ledger.record, enqueue_of_stopped h.halted, gone_of_queue_eq, Option.toList_none,
      List.map_nil, List.append_nil]
    exact h

/-- A stop that is under way stays `Underway` through any actions. -/
theorem after (h : Underway c called landings l) (hk : Kept c sink l) (ho : Orderly l.outbox)
    (as : List Action) :
    Underway c called (landings + as.countP (·.isLand)) (l.after c as) := by
  induction as generalizing l landings with
  | nil => exact h
  | cons a as ih =>
    have hnext := ih (h.record hk ho a) (hk.record a) (l.record_outbox a ▸ ho.act a)
    rw [List.countP_cons, Nat.add_comm (as.countP _), ← Nat.add_assoc]
    exact hnext

end Underway

/-! ## Statement -/

/-- What a stop has come to when some actions have followed it, given the ledger at the call and the sink as it was at first. -/
structure Closing (c : Courier δ) (sink : δ) (called : Ledger δ) (later : List Action)
    (l : Ledger δ) : Prop where
  /-- No event is taken any more. -/
  refuses : ∀ agent session event usage,
    l.outbox.enqueue c agent session event usage = (l.outbox, none)
  /-- No event has been taken, and none has given way, since the call. -/
  frozen : l.issued = called.issued ∧ l.lost = called.lost ∧
    l.outbox.seq = called.outbox.seq ∧ l.outbox.dropped = called.outbox.dropped
  /-- The events that waited at the call waited in order. -/
  rising : called.outbox.queue.Pairwise (·.seq < ·.seq)
  /-- The events that waited at the call leave in that order, each once, in no more batches than they fill. Once the stop is done it
      gives back how many of them it has sent itself. Since the call the sink has been brought the batch that was under way then and
      these batches, in order, as far as they have landed, and nothing else. -/
  sent : ∃ more landed, l.begun = called.begun ++ more ∧
    more.flatMap (·.postings) ++ l.outbox.queue = called.outbox.queue ∧
    more.length ≤ c.config.rounds called.outbox.queue.length ∧
    l.answer =
      (if l.outbox.phase = .stopped then some (total (more.filter (·.isDrains))) else none) ∧
    l.ended = called.ended ++ landed ∧
    landed ++ l.outbox.flight.toList.map (·.parcel) =
      called.outbox.flight.toList.map (·.parcel) ++ more ∧
    l.outbox.sink = deliveries c landed called.outbox.sink
  /-- In all, the sink has been brought just the batches whose deliveries have ended, in order. -/
  handed : l.outbox.sink = deliveries c l.ended sink
  /-- Each batch whose delivery has ended carries its events, and so does the one under way. -/
  carried : (∀ p ∈ l.ended, c.Carries (c.batchOf p.postings) p.postings) ∧
    ∀ f, l.outbox.flight = some f → c.Carries f.batch f.postings
  /-- The stop is done as soon as the delivery that was under way and all others that it takes have ended. -/
  ends : l.outbox.phase = .stopped ↔
    called.outbox.flight.toList.length + c.config.rounds called.outbox.queue.length ≤
      later.countP (·.isLand)
  /-- When the stop is done nothing waits and nothing is under way. -/
  done : l.outbox.phase = .stopped →
    l.outbox.queue = [] ∧ l.outbox.flight = none ∧ l.ended = l.begun
  /-- When the stop is done nothing is done any more: flushes and stops give back zero. -/
  final : l.outbox.phase = .stopped → ∀ a,
    l.outbox.act c a =
      match a with
      | .flush => { l.outbox with flushed := 0 }
      | .stop => { l.outbox with drained := 0 }
      | .pass time => { l.outbox with clock := max l.outbox.clock time }
      | _ => l.outbox

/-- Before a stop nothing has been sent by one. -/
theorem undrained_of_accepting (hc : Counted l) (ho : Orderly l.outbox)
    (h : l.outbox.phase = .accepting) : l.begun.filter (·.isDrains) = [] := by
  refine hc.undrained (fun f hf he => ?_) (by simp [h])
  have hphase := (ho.draining f hf he).1
  rw [h] at hphase
  cases hphase

theorem left_eq_zero_iff : o.left c = 0 ↔ o.phase = .stopped := by
  simp [left]

/-- Between two ledgers of an outbox the sink is brought what was under way and what has begun since, as far as it has landed. -/
theorem landed_since {more : List Parcel} (hcalled : Kept c sink called) (hk : Kept c sink l)
    (hended : called.ended <+: l.ended) (hbegun : l.begun = called.begun ++ more) :
    ∃ landed, l.ended = called.ended ++ landed ∧
      landed ++ l.outbox.flight.toList.map (·.parcel) =
        called.outbox.flight.toList.map (·.parcel) ++ more ∧
      l.outbox.sink = deliveries c landed called.outbox.sink := by
  obtain ⟨landed, hlanded⟩ := hended
  refine ⟨landed, hlanded.symm, ?_, ?_⟩
  · rw [hk.single, hcalled.single, ← hlanded, List.append_assoc, List.append_assoc] at hbegun
    exact List.append_cancel_left hbegun
  · rw [hk.handed, hcalled.handed, ← hlanded, deliveries_append]

/-- What is kept on the way comes to the statement. -/
theorem Underway.closing {later : List Action}
    (h : Underway c called (0 + later.countP (·.isLand)) l) (hcalled : Kept c sink called)
    (hcounted : Counted called) (horderly : Orderly called.outbox)
    (haccepting : called.outbox.phase = .accepting) (hended : called.ended <+: l.ended)
    (hk : Kept c sink l) (hc : Counted l) (ho : Orderly l.outbox) :
    Closing c sink called later l where
  refuses _ _ _ _ := enqueue_of_stopped h.halted
  frozen := ⟨h.issued, h.lost, h.seq, h.dropped⟩
  rising := by
    obtain ⟨front, hissued, _, _⟩ := hcalled.parted
    exact pairwise_seq_of_sublist (hissued ▸ List.sublist_append_right front _) hcalled.numbered
  sent := by
    obtain ⟨more, hbegun, hsplit, hrounds⟩ := h.sent
    obtain ⟨landed, hlanded⟩ := landed_since hcalled hk hended hbegun
    refine ⟨more, landed, hbegun, hsplit, by omega, ?_, hlanded⟩
    have hnone := undrained_of_accepting hcounted horderly haccepting
    rw [hc.answered, hbegun, List.filter_append, hnone, List.nil_append]
  handed := hk.handed
  carried := hk.carried
  ends := by
    rw [← left_eq_zero_iff (c := c), h.left, Nat.zero_add]
    exact Nat.sub_eq_zero_iff_le
  done hphase := by
    obtain ⟨hfree, hempty, _⟩ := ho.stopped hphase
    refine ⟨hempty, hfree, ?_⟩
    rw [hk.single, hfree]
    simp
  final hphase a := act_of_stopped ho hphase a

/-- **A stop sends all that is left, and is final.** Whatever has happened before the first stop and happens after it, the stop
    goes on as `Closing` says; left to the clock it comes to its end. -/
theorem stop_drains (c : Courier δ) (sink : δ) (before later : List Action)
    (hfirst : .stop ∉ before) :
    Closing c sink (.history c sink before) later (.history c sink (before ++ .stop :: later)) ∧
      ∃ rest, (∀ a ∈ rest, a.isTimes) ∧
        (Ledger.history c sink before).outbox.stop c =
          (Ledger.history c sink (before ++ .stop :: rest)).outbox ∧
        ((Ledger.history c sink before).outbox.stop c).phase = .stopped := by
  have hcalled := Kept.history c sink before
  have hcounted := Counted.history c sink before
  have horderly : Orderly (Ledger.history c sink before).outbox :=
    Ledger.after_outbox (.fresh sink) before ▸ orderly_after (orderly_empty sink) before
  have haccepting : (Ledger.history c sink before).outbox.phase = .accepting :=
    Ledger.after_outbox (.fresh sink) before ▸ phase_of_not_mem (orderly_empty sink) rfl hfirst
  have hbegan := Underway.call hcalled haccepting
  have hafter : ∀ as, Ledger.history c sink (before ++ .stop :: as) =
      ((Ledger.history c sink before).record c .stop).after c as :=
    fun as => Ledger.after_append _ _ _
  constructor
  · have hk := Kept.history c sink (before ++ .stop :: later)
    have hc := Counted.history c sink (before ++ .stop :: later)
    have ho : Orderly (Ledger.history c sink (before ++ .stop :: later)).outbox :=
      Ledger.after_outbox (.fresh sink) _ ▸ orderly_after (orderly_empty sink) _
    have hunder := hbegan.after (hcalled.record .stop)
      ((Ledger.history c sink before).record_outbox .stop ▸ horderly.act .stop) later
    rw [← hafter] at hunder
    have hended : (Ledger.history c sink before).ended <+:
        (Ledger.history c sink (before ++ .stop :: later)).ended := by
      rw [hafter]
      exact (Ledger.ended_record _ _).trans (Ledger.ended_after _ _)
    exact hunder.closing hcalled hcounted horderly haccepting hended hk hc ho
  · obtain ⟨rest, hrest, heq⟩ :=
      stop_course (c := c) (o := (Ledger.history c sink before).outbox)
    refine ⟨rest, hrest, ?_, stop_phase horderly⟩
    rw [heq, hafter, Ledger.after_outbox, Ledger.record_outbox]

/-- A courier that sends one event at a time to a sink that keeps all. -/
def onePerBatch : Courier MemorySink where
  scheme := .standard
  context := ⟨"run-1", "", "user-1"⟩
  config := ⟨500, 1, 2000, "procflow"⟩
  security := none
  sink := MemorySink.sink
  time := .ofMillis

/-- Three events, of which the timer is sending the first. -/
def midTick : List Action :=
  [.start, .enqueue "a" none (.thinking "1") none, .enqueue "a" none (.thinking "2") none,
    .enqueue "b" none (.thinking "3") none, .tick]

/-- A stop that comes while the timer sends is done after three deliveries: the one under way, the timer's second, and one of
    its own. Then the sink has three batches of one event each. -/
theorem stop_drains_midTick :
    .stop ∉ midTick ∧
      Closing onePerBatch .empty (.history onePerBatch .empty midTick) [.land, .flush, .land, .land]
        (.history onePerBatch .empty (midTick ++ .stop :: [.land, .flush, .land, .land])) ∧
      (Ledger.history onePerBatch .empty
        (midTick ++ .stop :: [.land, .flush, .land, .land])).outbox.phase = .stopped ∧
      (Ledger.history onePerBatch .empty
        (midTick ++ .stop :: [.land, .flush, .land, .land])).outbox.sink.batches.map (·.size) =
          [1, 1, 1] := by
  have hfirst : .stop ∉ midTick := by simp [midTick]
  have hclosing := (stop_drains onePerBatch .empty midTick [.land, .flush, .land, .land] hfirst).1
  exact ⟨hfirst, hclosing, hclosing.ends.2 (by decide), rfl⟩

end Playbook.Outbox
