import Playbook.Proofs.Outbox.Action

/-!
# `Proofs.Outbox.Ledger` — what has become of every event

A *ledger* goes along with an outbox and writes down, step by step, what can be seen of it from outside: which events got
numbers, which of them left the queue and how, which batches were sent and which have arrived, and what flushes and the stop
gave back. It is filled by comparing the outbox before and after a step, so that it does not depend on how a step is done.

## Contents
- **The ledger.** `Parcel`, `Ledger`, `Ledger.record` for one action, `Ledger.history` for many. `Ledger.recorded` says what one
  action can come to.
- **What left the queue.** `gone` and `loaded`, computed for the steps that there are.
- **Conservation.** `Kept`, kept by every step (`Kept.record`): no event is lost, doubled or reordered.
- **Counting.** `Counted`, kept by every step (`Counted.record`): flushes and the stop give back what they sent.
-/

namespace Playbook.Outbox

variable {δ : Type} {c : Courier δ} {o o' : Outbox δ}

/-! ## The ledger -/

/-- A batch, and what its delivery is part of. -/
structure Parcel where
  errand : Errand
  postings : List Posting

/-- The batch of a delivery. -/
def Flight.parcel (f : Flight) : Parcel := ⟨f.errand, f.postings⟩

/-- How many events some batches hold. -/
def total (parcels : List Parcel) : Nat :=
  (parcels.flatMap (·.postings)).length

/-- Whether a batch was sent by a stop. -/
def Parcel.isDrains (p : Parcel) : Bool :=
  p.errand = .drain

/-- What has become of the events of an outbox so far. -/
structure Ledger (δ : Type) where
  outbox : Outbox δ
  /-- The events that got numbers, in order. -/
  issued : List Posting
  /-- The events that gave way because the queue was full. -/
  lost : List Posting
  /-- The batches whose deliveries have begun, in order. -/
  begun : List Parcel
  /-- The batches whose deliveries have ended, in order. -/
  ended : List Parcel
  /-- The batches that the flush under way has taken. -/
  taking : List Parcel
  /-- The flushes that have sent something and are done: the batches that they took, and how many events they say they
      sent. -/
  flushes : List (List Parcel × Nat)
  /-- How many events the first stop says it sent, once it is done. -/
  answer : Option Nat

/-- The events that waited before and do not wait any more. -/
def gone (o o' : Outbox δ) : List Posting :=
  o.queue.filter fun p => !o'.queue.any (·.seq == p.seq)

/-- What left the queue, as a batch of the delivery that is under way afterwards. -/
def loaded (o o' : Outbox δ) : List Parcel :=
  if (o.gone o').isEmpty then []
  else [⟨(o'.flight.map (·.errand)).getD .drain, o.gone o'⟩]

/-- Whether the delivery under way is part of a flush. -/
def isFlushing (o : Outbox δ) : Bool :=
  o.flight.any (·.errand ≠ .drain)

/-- How many events a flush that is done in a step says it sent. Nobody asks the timer, so for its flushes that is the count
    kept with the delivery. -/
def flushCount (o o' : Outbox δ) : Nat :=
  match o.flight with
  | some f => if f.isTimers then f.taken else o'.flushed
  | none => 0

namespace Ledger

/-- The ledger of an outbox in which nothing has happened. -/
def fresh (sink : δ) : Ledger δ :=
  ⟨empty sink, [], [], [], [], [], [], none⟩

/-- Write down a step in which no event is queued; some deliveries may have ended in it. -/
def note (l : Ledger δ) (ended : List Parcel) (o' : Outbox δ) : Ledger δ :=
  { l with
    outbox := o'
    begun := l.begun ++ l.outbox.loaded o'
    ended := l.ended ++ ended
    taking := if o'.isFlushing then l.taking ++ l.outbox.loaded o' else []
    flushes :=
      if l.outbox.isFlushing && !o'.isFlushing then
        l.flushes ++ [(l.taking, l.outbox.flushCount o')]
      else l.flushes
    answer := if l.outbox.phase ≠ .stopped ∧ o'.phase = .stopped then some o'.drained else l.answer }

/-- Write down an action. -/
def record (c : Courier δ) (l : Ledger δ) (a : Action) : Ledger δ :=
  match a with
  | .enqueue agent session event usage =>
    let (o', number) := l.outbox.enqueue c agent session event usage
    { l with
      outbox := o'
      issued := l.issued ++
        number.toList.map fun n => ⟨n, l.outbox.clock, agent, session, event, usage⟩
      lost := l.lost ++ l.outbox.gone o' }
  | .land => l.note (l.outbox.flight.toList.map (·.parcel)) (l.outbox.act c .land)
  | a => l.note [] (l.outbox.act c a)

/-- The ledger after some actions, from the one before them. -/
def after (c : Courier δ) (l : Ledger δ) (actions : List Action) : Ledger δ :=
  actions.foldl (record c) l

/-- The ledger of an outbox to which some actions have happened since it was new. -/
def history (c : Courier δ) (sink : δ) (actions : List Action) : Ledger δ :=
  (fresh sink).after c actions

@[simp] theorem record_outbox (l : Ledger δ) (a : Action) :
    (l.record c a).outbox = l.outbox.act c a := by
  cases a <;> rfl

theorem record_of_calm {l : Ledger δ} {a : Action} (h : a.isCalm) :
    l.record c a = l.note [] (l.outbox.act c a) := by
  cases a with
  | enqueue => cases h
  | land => cases h
  | _ => rfl

theorem after_append (l : Ledger δ) (as bs : List Action) :
    l.after c (as ++ bs) = (l.after c as).after c bs := List.foldl_append

/-- Deliveries that have ended stay written down. -/
theorem ended_record (l : Ledger δ) (a : Action) : l.ended <+: (l.record c a).ended := by
  cases a with
  | enqueue => exact List.prefix_rfl
  | _ => exact List.prefix_append _ _

/-- An action is written down in one of four ways. -/
inductive Recorded (c : Courier δ) (l : Ledger δ) : Action → Ledger δ → Prop
  /-- No event is queued, and no delivery ends. -/
  | calm {a : Action} {o' : Outbox δ} (still : a.isCalm) (step : Calm c l.outbox o') :
    Recorded c l a (l.note [] o')
  /-- A delivery ends. -/
  | landing {f : Flight} {o' : Outbox δ} (flight : l.outbox.flight = some f)
    (step : Landing c l.outbox f o') : Recorded c l .land (l.note [f.parcel] o')
  /-- No delivery is under way that could end. -/
  | idle (free : l.outbox.flight = none) : Recorded c l .land (l.note [] l.outbox)
  /-- An event comes. -/
  | enqueue (agent : String) (session : Option String) (event : Event) (usage : Option Usage) :
    Recorded c l (.enqueue agent session event usage)
      (l.record c (.enqueue agent session event usage))

theorem recorded (c : Courier δ) (l : Ledger δ) (a : Action) : Recorded c l a (l.record c a) := by
  have hacted := l.outbox.acted c a
  generalize hact : l.outbox.act c a = o' at hacted
  cases hacted with
  | calm still step =>
    rw [record_of_calm still, hact]
    exact .calm still step
  | landing flight step =>
    simp only [record, flight, hact]
    exact .landing flight step
  | idle free =>
    simp only [record, free, hact]
    exact .idle free
  | enqueue agent session event usage => exact .enqueue agent session event usage

/-- What a single action keeps holds after any actions. -/
theorem after_induction {P : Ledger δ → Prop} (hstep : ∀ l a, P l → P (l.record c a))
    {l : Ledger δ} (h : P l) (as : List Action) : P (l.after c as) := by
  induction as generalizing l with
  | nil => exact h
  | cons a as ih => exact ih (hstep l a h)

theorem ended_after (l : Ledger δ) (as : List Action) : l.ended <+: (l.after c as).ended :=
  after_induction (P := fun l' => l.ended <+: l'.ended) (fun l' a h => h.trans (l'.ended_record a)) List.prefix_rfl as

/-- A ledger goes along with its outbox. -/
theorem after_outbox (l : Ledger δ) (as : List Action) :
    (l.after c as).outbox = l.outbox.after c as := by
  induction as generalizing l with
  | nil => rfl
  | cons a as ih =>
    simp only [after, List.foldl_cons, Outbox.after_cons]
    rw [← record_outbox]
    exact ih _

end Ledger

/-! ## What left the queue -/

/-- If some events leave at the front and some come at the end, then those at the front are gone. -/
theorem gone_of_append {front middle back : List Posting} (h : o.queue = front ++ middle)
    (h' : o'.queue = middle ++ back)
    (hnodup : ((front ++ middle ++ back).map (·.seq)).Nodup) : o.gone o' = front := by
  have hfront : ∀ p ∈ front, o'.queue.any (·.seq == p.seq) = false := by
    intro p hp
    rw [h', List.any_eq_false]
    intro q hq heq
    rw [List.append_assoc, List.map_append, List.nodup_append] at hnodup
    exact hnodup.2.2 p.seq (List.mem_map_of_mem hp) q.seq (List.mem_map_of_mem hq)
      (eq_of_beq heq).symm
  have hmiddle : ∀ p ∈ middle, o'.queue.any (·.seq == p.seq) = true := by
    intro p hp
    rw [h', List.any_eq_true]
    exact ⟨p, List.mem_append_left _ hp, by simp⟩
  unfold gone
  rw [h, List.filter_append, List.filter_eq_self.2, List.filter_eq_nil_iff.2, List.append_nil]
  · intro p hp
    simp [hmiddle p hp]
  · intro p hp
    simp [hfront p hp]

theorem gone_of_queue_eq (h : o'.queue = o.queue) : o.gone o' = [] := by
  unfold gone
  rw [h, List.filter_eq_nil_iff]
  intro p hp
  simp only [Bool.not_eq_true', Bool.not_eq_false, List.any_eq_true]
  exact ⟨p, hp, by simp⟩

theorem loaded_of_queue_eq (h : o'.queue = o.queue) : o.loaded o' = [] := by
  simp [loaded, gone_of_queue_eq h]

/-- A delivery that begins is what has left the queue. -/
theorem loaded_of_loads {errand : Errand} {taken : Nat} {f : Flight} (h : Loads c o errand taken f)
    (hnodup : (o.queue.map (·.seq)).Nodup) (hq : o'.queue = o.queue.drop c.config.batchLimit)
    (hf : o'.flight = some f) : o.loaded o' = [f.parcel] := by
  have hgone : o.gone o' = f.postings := by
    rw [h.postings]
    have hrest : o'.queue = o.queue.drop c.config.batchLimit ++ [] := by
      rw [hq, List.append_nil]
    apply gone_of_append (List.take_append_drop _ _).symm hrest
    rw [List.append_nil, List.take_append_drop]
    exact hnodup
  have hne : f.postings ≠ [] := by
    have hpos := batchLimit_pos c.config
    rw [h.postings, ne_eq, List.take_eq_nil_iff, not_or]
    exact ⟨by omega, h.waiting⟩
  simp [loaded, hgone, hf, hne, Flight.parcel]

/-! ## Conservation -/

/-- What the sink has become by the deliveries of some batches. -/
def deliveries (c : Courier δ) (parcels : List Parcel) (sink : δ) : δ :=
  parcels.foldl (fun s p => (c.sink.deliver (c.batchOf p.postings) s).2) sink

theorem deliveries_append (ps qs : List Parcel) (sink : δ) :
    deliveries c (ps ++ qs) sink = deliveries c qs (deliveries c ps sink) := List.foldl_append

/-- No event is lost, doubled or reordered. -/
structure Kept (c : Courier δ) (sink : δ) (l : Ledger δ) : Prop where
  /-- The numbers are given in order. -/
  numbered : l.issued.map (·.seq) = List.range' 1 l.outbox.seq
  /-- What waits came last. Of what came before, some gave way and all else was sent, in order. -/
  parted : ∃ front, l.issued = front ++ l.outbox.queue ∧
    (l.begun.flatMap (·.postings)).Sublist front ∧
    (l.lost ++ l.begun.flatMap (·.postings)).Perm front
  /-- No more events wait than may. -/
  bounded : l.outbox.queue.length ≤ c.config.queueLimit
  /-- Events that gave way are counted. -/
  dropped : l.outbox.dropped = l.lost.length
  /-- All deliveries have ended but at most one. -/
  single : l.begun = l.ended ++ l.outbox.flight.toList.map (·.parcel)
  /-- A batch holds some events, not too many, that came one after another. -/
  full : ∀ p ∈ l.begun, p.postings ≠ [] ∧ p.postings.length ≤ c.config.batchLimit ∧
    p.postings <:+: l.issued
  /-- The delivery under way brings the sink the batch of its events. -/
  aboard : ∀ f, l.outbox.flight = some f → f.batch = c.batchOf f.postings
  /-- The sink was brought the batches whose deliveries have ended, and nothing else. -/
  handed : l.outbox.sink = deliveries c l.ended sink

namespace Kept

variable {sink : δ} {l : Ledger δ}

theorem fresh (c : Courier δ) (sink : δ) : Kept c sink (.fresh sink) where
  numbered := rfl
  parted := ⟨[], rfl, List.Sublist.refl _, List.Perm.refl _⟩
  bounded := Nat.zero_le _
  dropped := rfl
  single := rfl
  full := by simp [Ledger.fresh]
  aboard := by simp [Ledger.fresh, empty]
  handed := rfl

/-- The numbers of the events that wait differ. -/
theorem nodup (h : Kept c sink l) : (l.outbox.queue.map (·.seq)).Nodup := by
  obtain ⟨front, hissued, _, _⟩ := h.parted
  have hall : (l.issued.map (·.seq)).Nodup := h.numbered ▸ List.nodup_range' 1
  rw [hissued, List.map_append] at hall
  exact (List.nodup_append.1 hall).2.1

/-- A step in which no delivery begins. -/
theorem note_rest (h : Kept c sink l) {ended : List Parcel} (hqueue : o'.queue = l.outbox.queue)
    (hseq : o'.seq = l.outbox.seq) (hdropped : o'.dropped = l.outbox.dropped)
    (hsingle : l.begun = l.ended ++ ended ++ o'.flight.toList.map (·.parcel))
    (haboard : ∀ f, o'.flight = some f → f.batch = c.batchOf f.postings)
    (hhanded : o'.sink = deliveries c (l.ended ++ ended) sink) : Kept c sink (l.note ended o') where
  numbered := by simpa [Ledger.note, hseq] using h.numbered
  parted := by simpa [Ledger.note, loaded_of_queue_eq hqueue, hqueue] using h.parted
  bounded := by simpa [Ledger.note, hqueue] using h.bounded
  dropped := by simpa [Ledger.note, hdropped] using h.dropped
  single := by simpa [Ledger.note, loaded_of_queue_eq hqueue] using hsingle
  full := by simpa [Ledger.note, loaded_of_queue_eq hqueue] using h.full
  aboard := haboard
  handed := hhanded

/-- A step in which a delivery begins. -/
theorem note_loads (h : Kept c sink l) {ended : List Parcel} {errand : Errand} {taken : Nat}
    {f : Flight} (loads : Loads c l.outbox errand taken f)
    (hqueue : o'.queue = l.outbox.queue.drop c.config.batchLimit) (hflight : o'.flight = some f)
    (hseq : o'.seq = l.outbox.seq) (hdropped : o'.dropped = l.outbox.dropped)
    (hsingle : l.begun = l.ended ++ ended)
    (hhanded : o'.sink = deliveries c (l.ended ++ ended) sink) : Kept c sink (l.note ended o') := by
  have hloaded : l.outbox.loaded o' = [f.parcel] := loaded_of_loads loads h.nodup hqueue hflight
  have hsplit : l.outbox.queue = f.postings ++ o'.queue := by
    rw [loads.postings, hqueue, List.take_append_drop]
  obtain ⟨front, hissued, hsublist, hperm⟩ := h.parted
  refine
    { numbered := by simpa [Ledger.note, hseq] using h.numbered
      parted := ⟨front ++ f.postings, ?_, ?_, ?_⟩
      bounded := ?_
      dropped := by simpa [Ledger.note, hdropped] using h.dropped
      single := by simp [Ledger.note, hloaded, hsingle, hflight]
      full := ?_
      aboard := ?_
      handed := hhanded }
  · simp [Ledger.note, hissued, hsplit]
  · simpa [Ledger.note, hloaded, Flight.parcel] using hsublist
  · simpa [Ledger.note, hloaded, Flight.parcel, ← List.append_assoc] using
      hperm.append_right f.postings
  · have hle := h.bounded
    rw [hsplit, List.length_append] at hle
    simp only [Ledger.note]
    omega
  · simp only [Ledger.note, hloaded, List.mem_append, List.mem_singleton]
    rintro p (hp | rfl)
    · exact h.full p hp
    · have hpos := batchLimit_pos c.config
      refine ⟨?_, ?_, ?_⟩
      · simp only [Flight.parcel, loads.postings, ne_eq, List.take_eq_nil_iff, not_or]
        exact ⟨by omega, loads.waiting⟩
      · simp only [Flight.parcel, loads.postings, List.length_take]
        omega
      · exact ⟨front, o'.queue, by rw [hissued, hsplit, List.append_assoc]; rfl⟩
  · intro g hg
    simp only [Ledger.note, hflight, Option.some.injEq] at hg
    subst hg
    exact loads.batch

theorem calm (h : Kept c sink l) (hstep : Calm c l.outbox o') : Kept c sink (l.note [] o') := by
  have hsingle : l.begun = l.ended ++ [] ++ l.outbox.flight.toList.map (·.parcel) := by
    rw [List.append_nil]
    exact h.single
  have hhanded : l.outbox.sink = deliveries c (l.ended ++ []) sink := by
    rw [List.append_nil]
    exact h.handed
  cases hstep with
  | rest => exact h.note_rest rfl rfl rfl hsingle h.aboard hhanded
  | heed => exact h.note_rest rfl rfl rfl hsingle h.aboard hhanded
  | close => exact h.note_rest rfl rfl rfl hsingle h.aboard hhanded
  | flush clock flushed free loads unset =>
    exact h.note_loads loads rfl rfl rfl rfl (by simpa [free] using hsingle) hhanded
  | drain accepting free loads =>
    exact h.note_loads loads rfl rfl rfl rfl (by simpa [free] using hsingle) hhanded

theorem landing (h : Kept c sink l) {f : Flight} (hf : l.outbox.flight = some f)
    (hstep : Landing c l.outbox f o') : Kept c sink (l.note [f.parcel] o') := by
  have hsingle : l.begun = l.ended ++ [f.parcel] := by simpa [hf] using h.single
  have hhanded : (l.outbox.landed c f).sink = deliveries c (l.ended ++ [f.parcel]) sink := by
    rw [deliveries_append, ← h.handed]
    simp only [landed, h.aboard f hf]
    rfl
  have hrest : l.begun = l.ended ++ [f.parcel] ++ ([] : List Flight).map (·.parcel) := by
    rw [List.map_nil, List.append_nil]
    exact hsingle
  cases hstep with
  | again errand loads => exact h.note_loads loads rfl rfl rfl rfl hsingle hhanded
  | relay errand stopping loads => exact h.note_loads loads rfl rfl rfl rfl hsingle hhanded
  | drain errand loads => exact h.note_loads loads rfl rfl rfl rfl hsingle hhanded
  | done => exact h.note_rest rfl rfl rfl hrest nofun hhanded
  | close => exact h.note_rest rfl rfl rfl hrest nofun hhanded
  | drained => exact h.note_rest rfl rfl rfl hrest nofun hhanded

theorem enqueue (h : Kept c sink l) (agent : String) (session : Option String) (event : Event)
    (usage : Option Usage) : Kept c sink (l.record c (.enqueue agent session event usage)) := by
  by_cases hphase : l.outbox.phase = .accepting
  · let p : Posting := ⟨l.outbox.seq + 1, l.outbox.clock, agent, session, event, usage⟩
    let excess := l.outbox.queue.length + 1 - c.config.queueLimit
    obtain ⟨front, hissued, hsublist, hperm⟩ := h.parted
    have hpos : 0 < c.config.queueLimit := by
      unfold Config.queueLimit
      omega
    have hnumbered : (l.issued ++ [p]).map (·.seq) = List.range' 1 (l.outbox.seq + 1) := by
      rw [List.map_append, h.numbered, List.range'_1_concat, Nat.add_comm 1]
      rfl
    have hsplit := (List.take_append_drop excess l.outbox.queue).symm
    have hgone : l.outbox.gone (l.outbox.enqueue c agent session event usage).1 =
        l.outbox.queue.take excess := by
      rw [enqueue_of_accepting agent session event usage hphase]
      refine gone_of_append hsplit rfl ?_
      have hall : ((l.issued ++ [p]).map (·.seq)).Nodup := hnumbered ▸ List.nodup_range' 1
      rw [hissued, List.append_assoc, List.map_append] at hall
      rw [← hsplit]
      exact (List.nodup_append.1 hall).2.1
    simp only [Ledger.record, hgone]
    rw [enqueue_of_accepting agent session event usage hphase]
    refine
      { numbered := hnumbered
        parted := ⟨front ++ l.outbox.queue.take excess, ?_, hsublist.trans (by simp), ?_⟩
        bounded := ?_
        dropped := ?_
        single := h.single
        full := fun q hq => ?_
        aboard := h.aboard
        handed := h.handed }
    · simp only [Option.toList_some, List.map_cons, List.map_nil, hissued]
      rw [List.append_assoc front, List.append_assoc front, ← List.append_assoc (List.take _ _),
        List.take_append_drop]
    · calc l.lost ++ l.outbox.queue.take excess ++ l.begun.flatMap (·.postings)
        List.Perm _ (l.lost ++ l.begun.flatMap (·.postings) ++ l.outbox.queue.take excess) := by
          rw [List.append_assoc, List.append_assoc]
          exact List.perm_append_comm.append_left _
        List.Perm _ (front ++ l.outbox.queue.take excess) := hperm.append_right _
    · simp only [List.length_append, List.length_drop, List.length_cons, List.length_nil]
      omega
    · simp only [List.length_append, List.length_take, h.dropped]
      omega
    · obtain ⟨hne, hle, hinfix⟩ := h.full q hq
      exact ⟨hne, hle, hinfix.trans (List.prefix_append _ _).isInfix⟩
  · have hstopped := isStopped_iff.2 hphase
    simp only [Ledger.record, enqueue_of_stopped hstopped, gone_of_queue_eq]
    simpa using h

/-- Every step keeps `Kept`. -/
theorem record (h : Kept c sink l) (a : Action) : Kept c sink (l.record c a) := by
  have hrecorded := l.recorded c a
  generalize l.record c a = l' at hrecorded ⊢
  cases hrecorded with
  | calm _ step => exact h.calm step
  | landing flight step => exact h.landing flight step
  | idle => exact h.calm (Calm.refl l.outbox)
  | enqueue agent session event usage => exact h.enqueue agent session event usage

/-- Whatever happens to an outbox, no event is lost, doubled or reordered. -/
theorem history (c : Courier δ) (sink : δ) (as : List Action) :
    Kept c sink (.history c sink as) :=
  Ledger.after_induction (fun _ a h => h.record a) (fresh c sink) as

end Kept

/-! ## Counting -/

/-- Flushes and the stop give back what they have sent. -/
structure Counted (l : Ledger δ) : Prop where
  /-- A flush has taken one batch, or two with the last one, and counts their events. -/
  flushing : ∀ f byTimer last, l.outbox.flight = some f → f.errand = .flush byTimer last →
    l.taking.length = (if last then 2 else 1) ∧ f.taken = total l.taking
  idle : l.outbox.isFlushing = false → l.taking = []
  /-- A flush that is done has taken at most two batches, and gave back how many events they hold. -/
  flushes : ∀ x ∈ l.flushes, x.1.length ≤ 2 ∧ x.2 = total x.1
  /-- All batches that no stop sent were taken by a flush. -/
  tallied : l.begun.filter (!·.isDrains) = l.flushes.flatMap (·.1) ++ l.taking
  /-- A stop counts the events that it has taken. -/
  draining : ∀ f, l.outbox.flight = some f → f.errand = .drain →
    f.taken = total (l.begun.filter (·.isDrains))
  undrained : (∀ f, l.outbox.flight = some f → f.errand ≠ .drain) → l.outbox.phase ≠ .stopped →
    l.begun.filter (·.isDrains) = []
  /-- The first stop gives back how many events it has sent, once it is done. -/
  answered : l.answer =
    if l.outbox.phase = .stopped then some (total (l.begun.filter (·.isDrains))) else none

/-- Only one delivery is under way. -/
theorem flight_unique {f g : Flight} (hf : o.flight = some f) (hg : o.flight = some g) : f = g :=
  Option.some.inj (hf.symm.trans hg)

theorem isFlushing_of_flush {f : Flight} {byTimer last : Bool} (hf : o.flight = some f)
    (he : f.errand = .flush byTimer last) : o.isFlushing = true := by
  simp [isFlushing, hf, he]

theorem isFlushing_of_drain {f : Flight} (hf : o.flight = some f) (he : f.errand = .drain) :
    o.isFlushing = false := by
  simp [isFlushing, hf, he]

theorem isFlushing_of_free (h : o.flight = none) : o.isFlushing = false := by
  simp [isFlushing, h]

theorem total_append (ps qs : List Parcel) : total (ps ++ qs) = total ps + total qs := by
  simp [total]

theorem total_parcel (f : Flight) : total [f.parcel] = f.postings.length := by
  simp [total, Flight.parcel]

namespace Counted

variable {sink : δ} {l l' : Ledger δ}

theorem fresh (sink : δ) : Counted (.fresh sink) where
  flushing := by simp [Ledger.fresh, empty]
  idle := fun _ => rfl
  flushes := by simp [Ledger.fresh]
  tallied := rfl
  draining := by simp [Ledger.fresh, empty]
  undrained := fun _ _ => rfl
  answered := rfl

/-! ### What can become of the delivery under way -/

section

variable (h : Counted l)

include h

/-- What is `Counted` stays so if the parcel under way, what has begun and what is counted stay as they are. -/
theorem rest (hflight : l'.outbox.flight = l.outbox.flight)
    (hphase : l'.outbox.phase = .stopped ↔ l.outbox.phase = .stopped) (hbegun : l'.begun = l.begun)
    (htaking : l'.taking = l.taking) (hflushes : l'.flushes = l.flushes)
    (hanswer : l'.answer = l.answer) : Counted l' where
  flushing f b last hf := htaking ▸ h.flushing f b last (hflight ▸ hf)
  idle hidle := htaking.trans (h.idle (by rw [← hidle, isFlushing, isFlushing, hflight]))
  flushes := hflushes ▸ h.flushes
  tallied := by rw [hbegun, hflushes, htaking, h.tallied]
  draining f hf := hbegun ▸ h.draining f (hflight ▸ hf)
  undrained hno hgoing := by
    rw [hbegun]
    exact h.undrained (fun f hf => hno f (hflight.trans hf)) (mt hphase.2 hgoing)
  answered := by
    rw [hbegun, hanswer, h.answered]
    simp only [hphase]

/-- A flush is done. -/
theorem release {f : Flight} {byTimer last : Bool} (hf : l.outbox.flight = some f)
    (he : f.errand = .flush byTimer last) (hfree : l'.outbox.flight = none)
    (hphase : l'.outbox.phase = l.outbox.phase) (hbegun : l'.begun = l.begun)
    (htaking : l'.taking = []) (hflushes : l'.flushes = l.flushes ++ [(l.taking, f.taken)])
    (hanswer : l'.answer = l.answer) : Counted l' where
  flushing g b last hg := by simp [hfree] at hg
  idle _ := htaking
  flushes x hx := by
    obtain ⟨hlength, htaken⟩ := h.flushing f byTimer last hf he
    rw [hflushes, List.mem_append, List.mem_singleton] at hx
    rcases hx with hx | rfl
    · exact h.flushes x hx
    · refine ⟨?_, htaken⟩
      simp only [hlength]
      split <;> omega
  tallied := by
    rw [hbegun, hflushes, htaking, h.tallied]
    simp
  draining g hg := by simp [hfree] at hg
  undrained _ hgoing := by
    rw [hbegun]
    refine h.undrained (fun g hg hd => ?_) (hphase ▸ hgoing)
    obtain rfl := flight_unique hf hg
    rw [he] at hd
    cases hd
  answered := by rw [hbegun, hanswer, h.answered, hphase]

/-- With no delivery under way a stop ends at once. -/
theorem close (hfree : l.outbox.flight = none) (hgoing : l.outbox.phase ≠ .stopped)
    (hfree' : l'.outbox.flight = none) (hphase : l'.outbox.phase = .stopped)
    (hbegun : l'.begun = l.begun) (htaking : l'.taking = []) (hflushes : l'.flushes = l.flushes)
    (hanswer : l'.answer = some 0) : Counted l' where
  flushing g b last hg := by simp [hfree'] at hg
  idle _ := htaking
  flushes := hflushes ▸ h.flushes
  tallied := by
    rw [hbegun, hflushes, htaking, h.tallied, h.idle (isFlushing_of_free hfree)]
  draining g hg := by simp [hfree'] at hg
  undrained _ hgoing' := absurd hphase hgoing'
  answered := by
    rw [hbegun, hanswer, if_pos hphase, h.undrained (by simp [hfree]) hgoing]
    rfl

/-- With no delivery under way a flush takes its first batch. -/
theorem flush (hfree : l.outbox.flight = none) {g : Flight} {byTimer : Bool}
    (hg : l'.outbox.flight = some g) (he : g.errand = .flush byTimer false)
    (htaken : g.taken = g.postings.length) (hphase : l'.outbox.phase = l.outbox.phase)
    (hbegun : l'.begun = l.begun ++ [g.parcel]) (htaking : l'.taking = [g.parcel])
    (hflushes : l'.flushes = l.flushes) (hanswer : l'.answer = l.answer) : Counted l' := by
  have hfilter : l'.begun.filter (·.isDrains) = l.begun.filter (·.isDrains) := by
    simp [hbegun, Parcel.isDrains, Flight.parcel, he]
  exact
    { flushing := fun f b last hf hb => by
        obtain rfl := flight_unique hg hf
        rw [he, Errand.flush.injEq] at hb
        rw [htaking, ← hb.2, total_parcel]
        exact ⟨rfl, htaken⟩
      idle := fun hidle => by simp [isFlushing_of_flush hg he] at hidle
      flushes := hflushes ▸ h.flushes
      tallied := by
        rw [hbegun, hflushes, htaking, List.filter_append, h.tallied,
          h.idle (isFlushing_of_free hfree)]
        simp [Parcel.isDrains, Flight.parcel, he]
      draining := fun f hf hd => by
        obtain rfl := flight_unique hg hf
        rw [he] at hd
        cases hd
      undrained := fun _ hgoing => by
        rw [hfilter]
        exact h.undrained (by simp [hfree]) (hphase ▸ hgoing)
      answered := by rw [hfilter, hanswer, h.answered, hphase] }

/-- With no delivery under way a stop takes its first batch. -/
theorem drain (hfree : l.outbox.flight = none) (hgoing : l.outbox.phase ≠ .stopped) {g : Flight}
    (hg : l'.outbox.flight = some g) (he : g.errand = .drain)
    (htaken : g.taken = g.postings.length) (hphase : l'.outbox.phase ≠ .stopped)
    (hbegun : l'.begun = l.begun ++ [g.parcel]) (htaking : l'.taking = [])
    (hflushes : l'.flushes = l.flushes) (hanswer : l'.answer = l.answer) : Counted l' where
  flushing f b last hf hb := by
    obtain rfl := flight_unique hg hf
    rw [he] at hb
    cases hb
  idle _ := htaking
  flushes := hflushes ▸ h.flushes
  tallied := by
    rw [hbegun, hflushes, htaking, List.filter_append, h.tallied, h.idle (isFlushing_of_free hfree)]
    simp [Parcel.isDrains, Flight.parcel, he]
  draining f hf _ := by
    obtain rfl := flight_unique hg hf
    rw [hbegun, List.filter_append, h.undrained (by simp [hfree]) hgoing]
    simp [Parcel.isDrains, Flight.parcel, he, total, htaken]
  undrained hno _ := absurd he (hno g hg)
  answered := by rw [hanswer, h.answered, if_neg hgoing, if_neg hphase]

/-- A flush takes its second batch. -/
theorem again {f g : Flight} {byTimer : Bool} (hf : l.outbox.flight = some f)
    (he : f.errand = .flush byTimer false) (hg : l'.outbox.flight = some g)
    (he' : g.errand = .flush byTimer true) (htaken : g.taken = f.taken + g.postings.length)
    (hphase : l'.outbox.phase = l.outbox.phase) (hbegun : l'.begun = l.begun ++ [g.parcel])
    (htaking : l'.taking = l.taking ++ [g.parcel]) (hflushes : l'.flushes = l.flushes)
    (hanswer : l'.answer = l.answer) : Counted l' := by
  have hfilter : l'.begun.filter (·.isDrains) = l.begun.filter (·.isDrains) := by
    simp [hbegun, Parcel.isDrains, Flight.parcel, he']
  obtain ⟨hlength, hcount⟩ := h.flushing f byTimer false hf he
  exact
    { flushing := fun f' b last hf' hb => by
        obtain rfl := flight_unique hg hf'
        rw [he', Errand.flush.injEq] at hb
        rw [htaking, ← hb.2, total_append, total_parcel, htaken, hcount, List.length_append,
          hlength]
        exact ⟨rfl, rfl⟩
      idle := fun hidle => by simp [isFlushing_of_flush hg he'] at hidle
      flushes := hflushes ▸ h.flushes
      tallied := by
        rw [hbegun, hflushes, htaking, List.filter_append, h.tallied]
        simp [Parcel.isDrains, Flight.parcel, he']
      draining := fun f' hf' hd => by
        obtain rfl := flight_unique hg hf'
        rw [he'] at hd
        cases hd
      undrained := fun _ hgoing => by
        rw [hfilter]
        refine h.undrained (fun f' hf' hd => ?_) (hphase ▸ hgoing)
        obtain rfl := flight_unique hf hf'
        rw [he] at hd
        cases hd
      answered := by rw [hfilter, hanswer, h.answered, hphase] }

/-- A stop takes its next batch. -/
theorem next {f g : Flight} (hf : l.outbox.flight = some f) (he : f.errand = .drain)
    (hgoing : l.outbox.phase ≠ .stopped) (hg : l'.outbox.flight = some g) (he' : g.errand = .drain)
    (htaken : g.taken = f.taken + g.postings.length) (hphase : l'.outbox.phase ≠ .stopped)
    (hbegun : l'.begun = l.begun ++ [g.parcel]) (htaking : l'.taking = [])
    (hflushes : l'.flushes = l.flushes) (hanswer : l'.answer = l.answer) : Counted l' where
  flushing f' b last hf' hb := by
    obtain rfl := flight_unique hg hf'
    rw [he'] at hb
    cases hb
  idle _ := htaking
  flushes := hflushes ▸ h.flushes
  tallied := by
    rw [hbegun, hflushes, htaking, List.filter_append, h.tallied,
      h.idle (isFlushing_of_drain hf he)]
    simp [Parcel.isDrains, Flight.parcel, he']
  draining f' hf' _ := by
    obtain rfl := flight_unique hg hf'
    rw [hbegun, List.filter_append, total_append, htaken, h.draining f hf he]
    simp [Parcel.isDrains, Flight.parcel, he', total]
  undrained hno _ := absurd he' (hno g hg)
  answered := by rw [hanswer, h.answered, if_neg hgoing, if_neg hphase]

/-- A stop is done. -/
theorem finish {f : Flight} (hf : l.outbox.flight = some f) (he : f.errand = .drain)
    (hfree : l'.outbox.flight = none) (hphase : l'.outbox.phase = .stopped)
    (hbegun : l'.begun = l.begun) (htaking : l'.taking = []) (hflushes : l'.flushes = l.flushes)
    (hanswer : l'.answer = some f.taken) : Counted l' where
  flushing g b last hg := by simp [hfree] at hg
  idle _ := htaking
  flushes := hflushes ▸ h.flushes
  tallied := by
    rw [hbegun, hflushes, htaking, h.tallied, h.idle (isFlushing_of_drain hf he)]
  draining g hg := by simp [hfree] at hg
  undrained _ hgoing := absurd hphase hgoing
  answered := by rw [hbegun, hanswer, if_pos hphase, h.draining f hf he]

end

/-! ### Steps -/

theorem note_rest (h : Counted l) (hqueue : o'.queue = l.outbox.queue)
    (hflight : o'.flight = l.outbox.flight)
    (hphase : o'.phase = .stopped ↔ l.outbox.phase = .stopped) : Counted (l.note [] o') := by
  have hsame : o'.isFlushing = l.outbox.isFlushing := by simp [isFlushing, hflight]
  have hloaded := loaded_of_queue_eq hqueue
  refine h.rest hflight hphase ?_ ?_ ?_ ?_
  · simp [Ledger.note, hloaded]
  · simp only [Ledger.note, hloaded, List.append_nil, hsame]
    split
    · rfl
    · rename_i hidle
      rw [h.idle (by simpa using hidle)]
  · simp [Ledger.note, hsame]
  · simp [Ledger.note, hphase]

theorem note_flush (h : Counted l) (hk : Kept c sink l) (hfree : l.outbox.flight = none)
    {g : Flight} {byTimer : Bool} (loads : Loads c l.outbox (.flush byTimer false) 0 g)
    (hqueue : o'.queue = l.outbox.queue.drop c.config.batchLimit) (hflight : o'.flight = some g)
    (hphase : o'.phase = l.outbox.phase) : Counted (l.note [] o') := by
  have hloaded := loaded_of_loads loads hk.nodup hqueue hflight
  have hbusy := isFlushing_of_flush hflight loads.errand
  refine h.flush hfree hflight loads.errand (by simpa using loads.taken) hphase ?_ ?_ ?_ ?_
  · simp [Ledger.note, hloaded]
  · simp [Ledger.note, hloaded, hbusy, h.idle (isFlushing_of_free hfree)]
  · simp [Ledger.note, hbusy]
  · simp [Ledger.note, hphase]

theorem note_drain (h : Counted l) (hk : Kept c sink l) (hfree : l.outbox.flight = none)
    (hgoing : l.outbox.phase = .accepting) {g : Flight} (loads : Loads c l.outbox .drain 0 g)
    (hqueue : o'.queue = l.outbox.queue.drop c.config.batchLimit) (hflight : o'.flight = some g)
    (hphase : o'.phase = .stopping) : Counted (l.note [] o') := by
  have hloaded := loaded_of_loads loads hk.nodup hqueue hflight
  have hidle := isFlushing_of_drain hflight loads.errand
  refine h.drain hfree (by simp [hgoing]) hflight loads.errand (by simpa using loads.taken)
    (by simp [Ledger.note, hphase]) ?_ ?_ ?_ ?_
  · simp [Ledger.note, hloaded]
  · simp [Ledger.note, hidle]
  · simp [Ledger.note, isFlushing_of_free hfree]
  · simp [Ledger.note, hphase]

theorem calm (h : Counted l) (hk : Kept c sink l) (hstep : Calm c l.outbox o') :
    Counted (l.note [] o') := by
  cases hstep with
  | rest => exact h.note_rest rfl rfl Iff.rfl
  | heed accepting => exact h.note_rest rfl rfl (by simp [accepting])
  | close accepting free empty =>
    refine h.close free (by simp [accepting]) free rfl ?_ ?_ ?_ ?_
    · simp [Ledger.note, loaded_of_queue_eq]
    · simp [Ledger.note, isFlushing, free]
    · simp [Ledger.note, isFlushing, free]
    · simp [Ledger.note, accepting]
  | flush clock flushed free loads unset => exact h.note_flush hk free loads rfl rfl rfl
  | drain accepting free loads => exact h.note_drain hk free accepting loads rfl rfl rfl

/-- What is written down of a flush that is done in a step. -/
theorem note_done (ended : List Parcel) (o' : Outbox δ) {f : Flight} {byTimer last : Bool}
    (hf : l.outbox.flight = some f) (he : f.errand = .flush byTimer last) (hidle : o'.isFlushing = false)
    (hflushed : o'.flushed = if byTimer then l.outbox.flushed else f.taken) :
    (l.note ended o').taking = [] ∧
      (l.note ended o').flushes = l.flushes ++ [(l.taking, f.taken)] := by
  have hcount : l.outbox.flushCount o' = f.taken := by
    simp only [flushCount, hf, isTimers_of_flush he, hflushed]
    cases byTimer <;> rfl
  simp [Ledger.note, isFlushing_of_flush hf he, hidle, hcount]

theorem landing (h : Counted l) (hk : Kept c sink l) (ho : Orderly l.outbox) {f : Flight}
    (hf : l.outbox.flight = some f) (hstep : Landing c l.outbox f o') :
    Counted (l.note [f.parcel] o') := by
  have hbusy : l.outbox.phase ≠ .stopped := fun hs => by simp [(ho.stopped hs).1] at hf
  -- For a stop that goes on when a flush is done: the ledger in between, in which nothing has followed yet.
  let between : Ledger δ :=
    { l with
      outbox := l.outbox.landed c f, taking := [], flushes := l.flushes ++ [(l.taking, f.taken)] }
  cases hstep with
  | again errand loads =>
    have hloaded : l.outbox.loaded { l.outbox.landed c f with queue := _, flight := some _ } = _ :=
      loaded_of_loads loads hk.nodup rfl rfl
    refine h.again hf errand rfl loads.errand loads.taken rfl ?_ ?_ ?_ ?_
    · exact congrArg (l.begun ++ ·) hloaded
    · exact (if_pos (isFlushing_of_flush rfl loads.errand)).trans (congrArg (l.taking ++ ·) hloaded)
    · simp [Ledger.note, isFlushing, hf, errand, loads.errand]
    · simp [Ledger.note, landed, hbusy]
  | done errand going =>
    obtain ⟨htaking, hflushes⟩ := note_done [f.parcel]
      { l.outbox.landed c f with flushed := _ } hf errand (isFlushing_of_free rfl) rfl
    refine h.release hf errand rfl rfl ?_ htaking hflushes ?_
    · exact (congrArg (l.begun ++ ·) (loaded_of_queue_eq rfl)).trans (List.append_nil _)
    · simp [Ledger.note, landed, hbusy]
  | close errand stopping empty =>
    have hbetween : Counted between := h.release hf errand rfl rfl rfl rfl rfl rfl
    obtain ⟨htaking, hflushes⟩ := note_done [f.parcel]
      { l.outbox.landed c f with flushed := _, phase := .stopped, timer := none, drained := 0 }
      hf errand (isFlushing_of_free rfl) rfl
    refine hbetween.close rfl hbusy rfl rfl ?_ htaking hflushes ?_
    · exact (congrArg (l.begun ++ ·) (loaded_of_queue_eq rfl)).trans (List.append_nil _)
    · simp [Ledger.note, hbusy]
  | relay errand stopping loads =>
    have hbetween : Counted between := h.release hf errand rfl rfl rfl rfl rfl rfl
    obtain ⟨htaking, hflushes⟩ := note_done [f.parcel]
      { l.outbox.landed c f with flushed := _, timer := none, queue := _, flight := some _ }
      hf errand (isFlushing_of_drain rfl loads.errand) rfl
    refine hbetween.drain rfl hbusy rfl loads.errand (by simpa using loads.taken) hbusy ?_ htaking
      hflushes ?_
    · exact congrArg (l.begun ++ ·) (loaded_of_loads loads hk.nodup rfl rfl)
    · simp [Ledger.note, landed, hbusy, between]
  | drain errand loads =>
    refine h.next hf errand hbusy rfl loads.errand loads.taken hbusy ?_ ?_ ?_ ?_
    · exact congrArg (l.begun ++ ·) (loaded_of_loads loads hk.nodup rfl rfl)
    · simp [Ledger.note, isFlushing, loads.errand]
    · simp [Ledger.note, isFlushing_of_drain hf errand]
    · simp [Ledger.note, landed, hbusy]
  | drained errand empty =>
    refine h.finish hf errand rfl rfl ?_ ?_ ?_ ?_
    · exact (congrArg (l.begun ++ ·) (loaded_of_queue_eq rfl)).trans (List.append_nil _)
    · simp [Ledger.note, isFlushing, landed]
    · simp [Ledger.note, isFlushing_of_drain hf errand]
    · simp [Ledger.note, hbusy]

/-- Every step keeps `Counted`. -/
theorem record (h : Counted l) (hk : Kept c sink l) (ho : Orderly l.outbox) (a : Action) :
    Counted (l.record c a) := by
  have hrecorded := l.recorded c a
  generalize l.record c a = l' at hrecorded ⊢
  cases hrecorded with
  | calm _ step => exact h.calm hk step
  | landing flight step => exact h.landing hk ho flight step
  | idle => exact h.note_rest rfl rfl Iff.rfl
  | enqueue agent session event usage =>
    refine h.rest ?_ ?_ rfl rfl rfl rfl
    · simp only [Ledger.record, Outbox.enqueue]
      split <;> rfl
    · simp only [Ledger.record, Outbox.enqueue]
      split <;> rfl

/-- Whatever happens to an outbox, flushes and the stop give back what they have sent. -/
theorem history (c : Courier δ) (sink : δ) (as : List Action) :
    Counted (.history c sink as) := by
  have hall : ∀ (l : Ledger δ) (a : Action),
      Kept c sink l ∧ Orderly l.outbox ∧ Counted l →
        Kept c sink (l.record c a) ∧ Orderly (l.record c a).outbox ∧ Counted (l.record c a) := by
    rintro l a ⟨hk, ho, h⟩
    exact ⟨hk.record a, l.record_outbox a ▸ ho.act a, h.record hk ho a⟩
  exact (Ledger.after_induction hall
    ⟨Kept.fresh c sink, orderly_empty sink, fresh sink⟩ as).2.2

end Counted

end Playbook.Outbox
