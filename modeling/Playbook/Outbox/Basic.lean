import Playbook.Outbox.Sink

/-!
# `Playbook.Outbox.Basic` — the queue of events that wait to be sent

Events are numbered and queued without waiting; when the queue is full the oldest ones give way. A *flush*
sends one batch and, if more is waiting, one more. Only one delivery is under way at a time, and a flush that
finds one under way does nothing. *Stopping* waits for a delivery that is under way, then sends all that is
left. Events of a batch that is refused are gone.

Everything that happens to an outbox is one of the steps below; between them only the clock goes on.

## Contents
- **The type.** `Posting`, `Flight`, `Phase`, `Outbox`.
- **What callers do.** `start`, `enqueue`, `beginFlush`, `beginStop`, `abandon`.
- **What time brings.** `complete` ends a delivery, `tick` is the timer.
-/

namespace Playbook

/-! ## The type -/

/-- An event in the outbox. -/
structure Posting where
  /-- Its number, counted from one. -/
  seq : Nat
  /-- What the clock showed when it was queued. -/
  time : Nat
  agent : String
  session : Option String
  event : Event
  /-- The usage first counted with it. -/
  usage : Option Usage
  deriving Repr, BEq

namespace Outbox

/-- What a delivery is part of. -/
inductive Errand where
  /-- A flush, by the timer or by a caller; the last batch of it or not. -/
  | flush (byTimer last : Bool)
  /-- Sending all that is left when the outbox stops. -/
  | drain
  deriving DecidableEq, Repr

/-- A delivery that is under way. -/
structure Flight where
  /-- The events. -/
  postings : List Posting
  /-- The batch that holds them. -/
  batch : SignedBatch
  /-- When it ends. -/
  due : Nat
  errand : Errand
  /-- How many events the errand has taken from the queue so far. -/
  taken : Nat

/-- How far an outbox has come. -/
inductive Phase where
  /-- It takes events. -/
  | accepting
  /-- It takes no more events and sends what is left. -/
  | stopping
  /-- It is done. -/
  | stopped
  deriving DecidableEq, Repr

end Outbox

open Outbox

/-- The events of a run that wait to be sent; `δ` is the state of the sink. -/
structure Outbox (δ : Type) where
  /-- The clock, in milliseconds. -/
  clock : Nat
  /-- The events that wait, oldest first. -/
  queue : List Posting
  /-- The number of the latest event. -/
  seq : Nat
  /-- How many events gave way to later ones. -/
  dropped : Nat
  phase : Phase
  /-- When the timer ticks next, once it has been started. -/
  timer : Option Nat
  /-- The delivery that is under way. -/
  flight : Option Flight
  /-- How many events the latest flush of a caller sent. -/
  flushed : Nat
  /-- How many events the latest stop sent, beyond what was under way. -/
  drained : Nat
  /-- The state of the sink. -/
  sink : δ

namespace Courier

variable {δ : Type}

/-- The envelope of an event. -/
def envelope (c : Courier δ) (p : Posting) : Envelope where
  version := eventVersion
  runId := c.context.runId
  programHash := c.context.programHash
  principalId := c.context.principalId
  agentName := p.agent
  sessionId := p.session
  seq := UInt64.ofNat p.seq
  timestamp := (c.time p.time).text
  event := p.event
  usage := p.usage

/-- The batch of some events, signed. -/
def batchOf (c : Courier δ) (postings : List Posting) : SignedBatch :=
  (EventBatch.create c.context c.config.source (postings.map c.envelope)).sign c.scheme c.security

end Courier

namespace Outbox

variable {δ : Type}

/-- An outbox in which nothing has happened. -/
def empty (sink : δ) : Outbox δ :=
  ⟨0, [], 0, 0, .accepting, none, none, 0, 0, sink⟩

/-- Whether it takes no more events. -/
def isStopped (o : Outbox δ) : Bool :=
  o.phase ≠ .accepting

/-- Take a batch from the queue and begin its delivery; nothing if the queue is empty. -/
def launch (c : Courier δ) (errand : Errand) (taken : Nat) (o : Outbox δ) : Outbox δ :=
  match o.queue.take c.config.batchLimit with
  | [] => o
  | p :: postings =>
    let batch := c.batchOf (p :: postings)
    { o with
      queue := o.queue.drop c.config.batchLimit
      flight := some
        { postings := p :: postings, batch, due := o.clock + c.sink.delay batch o.sink, errand
          taken := taken + (postings.length + 1) } }

/-- Send all that is left; with nothing left the outbox has stopped. -/
def drain (c : Courier δ) (taken : Nat) (o : Outbox δ) : Outbox δ :=
  if o.queue = [] then { o with phase := .stopped, drained := taken }
  else o.launch c .drain taken

/-! ## What callers do -/

/-- Start the timer, unless it runs or the outbox has been stopped. -/
def start (c : Courier δ) (o : Outbox δ) : Outbox δ :=
  if o.timer.isSome || o.isStopped then o
  else { o with timer := some (o.clock + c.config.interval) }

/-- Queue an event; gives its number, or nothing once the outbox has been stopped. -/
def enqueue (c : Courier δ) (agent : String) (session : Option String) (event : Event)
    (usage : Option Usage) (o : Outbox δ) : Outbox δ × Option Nat :=
  if o.isStopped then (o, none)
  else
    -- Numbers are given before events give way, so a gap in them shows what was lost.
    let seq := o.seq + 1
    let queue := o.queue ++ [⟨seq, o.clock, agent, session, event, usage⟩]
    let excess := queue.length - c.config.queueLimit
    ({ o with queue := queue.drop excess, seq, dropped := o.dropped + excess }, some seq)

/-- Begin a flush, unless a delivery is under way. -/
def beginFlush (c : Courier δ) (byTimer : Bool) (o : Outbox δ) : Outbox δ :=
  let o := { o with flushed := if byTimer then o.flushed else 0 }
  match o.flight with
  | some _ => o
  | none => o.launch c (.flush byTimer false) 0

/-- Stop: take no more events, and send what is left as soon as no delivery is under way. Only the
    first call does anything. -/
def beginStop (c : Courier δ) (o : Outbox δ) : Outbox δ :=
  if o.isStopped then { o with drained := 0 }
  else
    let o := { o with phase := .stopping }
    match o.flight with
    -- The delivery that is under way ends first, and its end begins the rest.
    | some _ => o
    | none => { o with timer := none }.drain c 0

/-- Whether a delivery belongs to the timer. -/
def Flight.isTimers (f : Flight) : Bool :=
  match f.errand with
  | .flush byTimer _ => byTimer
  | .drain => false

/-- Leave a stop that is under way: its delivery is broken off, and what is left stays unsent. -/
def abandon (o : Outbox δ) : Outbox δ :=
  { o with phase := .stopped, flight := o.flight.filter (·.isTimers) }

/-! ## What time brings -/

/-- What follows the last batch of a flush. -/
def afterFlush (c : Courier δ) (f : Flight) (o : Outbox δ) : Outbox δ :=
  let o := { o with flushed := if f.isTimers then o.flushed else f.taken }
  if o.phase = .stopping then { o with timer := none }.drain c 0 else o

/-- The end of a delivery, and the next one of its errand. -/
def complete (c : Courier δ) (f : Flight) (o : Outbox δ) : Outbox δ :=
  -- Whether the sink took the batch makes no difference: its events are not sent again.
  let o :=
    { o with clock := max o.clock f.due, flight := none, sink := (c.sink.deliver f.batch o.sink).2 }
  match f.errand with
  | .drain => o.drain c f.taken
  | .flush byTimer last =>
    if last || o.queue = [] then o.afterFlush c f else o.launch c (.flush byTimer true) f.taken

/-- A tick of the timer: a flush. Once the outbox has been stopped the timer ends instead. -/
def tick (c : Courier δ) (at_ : Nat) (o : Outbox δ) : Outbox δ :=
  let o := { o with clock := max o.clock at_ }
  if o.isStopped then { o with timer := none }
  -- Counted from when this tick was due, so that ticks which come late are made up for.
  else { o with timer := some (at_ + c.config.interval) }.beginFlush c true

end Outbox

end Playbook
