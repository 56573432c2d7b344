import Playbook.Proofs.Run.Mirror
import Playbook.Proofs.Store.Latest

/-!
# `Proofs.Run.CallLog` — a run whose calls are logged

What a run asks of its backend and what it puts into its store is known to nobody but these. To speak of it, both can be made to write it
down: each session that is opened gets a number, under which everything is logged that is done with it.

## Contents
- **Logs.** `CallEntry`, `CallLog` and what is said of one session (`CallLog.about`).
- **Logging.** `TurnStream.logged`, `Backend.logged`, `ContentStore.logged`, `Host.logged`; `RunState.logged` and `RunState.unlogged`.
- **Logs change nothing.** `Host.logging`; `drive_logged` and `run_logged`.
- **Nobody listens to the answer to a close.** `Backend.closing`, `run_closing`.
-/

namespace Playbook

variable {τ η κ δ : Type}

/-! ## Logs -/

/-- Something that a run does with its backend, and what comes of it. -/
inductive CallEntry where
  /-- A session is opened, anew or with the id of one that is taken up again, and gets a number. -/
  | opened (n : Nat) (args : SessionArgs) (prior : Option String)
  /-- A session is not opened. -/
  | refused (args : SessionArgs) (prior : Option String)
  | sent (n : Nat) (prompt : String) (ok : Bool)
  | streamed (n : Nat) (ok : Bool)
  | turned (n : Nat) (t : Turn)
  /-- There are no more turns. -/
  | drained (n : Nat)
  /-- Instead of a turn comes a failure. -/
  | broke (n : Nat)
  | closed (n : Nat)

namespace CallEntry

/-- The session that something is done with. -/
def session? : CallEntry → Option Nat
  | opened n _ _ | sent n _ _ | streamed n _ | turned n _ | drained n | broke n | closed n => some n
  | refused _ _ => none

/-- How a session is asked for, if that is what is done. -/
def asks? : CallEntry → Option (Option String)
  | opened _ _ prior | refused _ prior => some prior
  | _ => none

end CallEntry

/-- What a run has done with its backend, the oldest first. -/
abbrev CallLog := List CallEntry

/-- What is done with one session. -/
def CallLog.about (n : Nat) (l : CallLog) : CallLog :=
  l.filter (·.session? = some n)

/-! ## Logging -/

/-- The answer of a session of which the turns are logged as they are read. -/
def TurnStream.logged (n : Nat) : TurnStream τ → TurnStream (τ × CallLog)
  | .finished leave => .finished fun s => (leave s.1, s.2 ++ [.drained n])
  | .next ms take rest =>
    .next (fun s => ms s.1)
      (fun s => match take s.1 with
        | (.error e, t) => (.error e, (t, s.2 ++ [.broke n]))
        | (.ok turn, t) => (.ok turn, (t, s.2 ++ [.turned n turn])))
      fun turn s => (rest turn s.1).logged n

namespace Backend

/-- A call, for sessions that have numbers. -/
def Call.unnumbered : Backend.Call (η × Nat) → Backend.Call η
  | .create args => .create args
  | .resume args id => .resume args id
  | .send session prompt => .send session.1 prompt
  | .close session => .close session.1

/-- Log that a session has been opened, or has not been. -/
def logOpening (args : SessionArgs) (prior : Option String) (r : Except Failure η × τ) (l : CallLog) :
    Except Failure (η × Nat) × (τ × CallLog) :=
  match r with
  | (.ok session, t) => (.ok (session, l.length), (t, l ++ [.opened l.length args prior]))
  | (.error e, t) => (.error e, (t, l ++ [.refused args prior]))

/-- A backend that does what another one does, and logs it. A session has the number of the entry that says that it was opened. -/
def logged (b : Backend τ η) : Backend (τ × CallLog) (η × Nat) where
  name := b.name
  create args s := logOpening args none (b.create args s.1) s.2
  resume args id s := logOpening args (some id) (b.resume args id s.1) s.2
  sessionId session := b.sessionId session.1
  send prompt session s :=
    let (r, own, t) := b.send prompt session.1 s.1
    (r, (own, session.2), (t, s.2 ++ [.sent session.2 prompt r.isOk]))
  stream session s :=
    let (r, own, t) := b.stream session.1 s.1
    (r.map fun stream => stream.logged session.2, (own, session.2), (t, s.2 ++ [.streamed session.2 r.isOk]))
  close session s :=
    let (r, own, t) := b.close session.1 s.1
    (r, (own, session.2), (t, s.2 ++ [.closed session.2]))
  latency call s := b.latency call.unnumbered s.1

end Backend

/-- A store that does what another one does, and logs what is put into it. -/
def ContentStore.logged (s : ContentStore κ) : ContentStore (κ × List Deposit) where
  put key bytes mime w :=
    let (receipt, store) := s.put key bytes mime w.1
    (receipt, (store, w.2 ++ [⟨key, bytes, mime⟩]))
  get key w :=
    let (bytes, store) := s.get key w.1
    (bytes, (store, w.2))
  latency call w := s.latency call w.1

/-- A host of which all calls are logged. -/
def Host.logged (h : Host τ η κ δ) : Host (τ × CallLog) (η × Nat) (κ × List Deposit) δ :=
  ⟨h.courier, h.backend.logged, h.store.logged⟩

namespace RunState

/-- The state of a run with logs. -/
abbrev Logged (τ κ δ : Type) := RunState (τ × CallLog) (κ × List Deposit) δ

/-- The state with logs in which nothing stands yet. -/
def logged (s : RunState τ κ δ) : Logged τ κ δ :=
  ⟨s.scope, s.sessions, s.counters, s.usage, (s.backend, []), (s.store, []), s.outbox⟩

/-- The state without the logs. -/
def unlogged (s : Logged τ κ δ) : RunState τ κ δ :=
  ⟨s.scope, s.sessions, s.counters, s.usage, s.backend.1, s.store.1, s.outbox⟩

/-- What has been done with the backend. -/
def calls (s : Logged τ κ δ) : CallLog :=
  s.backend.2

/-- What has been put into the store. -/
def deposits (s : Logged τ κ δ) : List Deposit :=
  s.store.2

end RunState

/-! ## Logs change nothing -/

theorem TurnStream.logged_alike (n : Nat) (stream : TurnStream τ) :
    (stream.logged n).Alike (fun b b' => b.1 = b') stream := by
  induction stream with
  | finished leave => exact .finished fun b b' hb => by rw [hb]
  | next ms take rest ih =>
    refine .next (fun b b' hb => by rw [hb]) (fun b b' hb => ?_) fun t b b' hb => ?_
    · subst hb
      cases take b.1 with
      | mk r t => cases r <;> exact ⟨rfl, rfl⟩
    · subst hb
      exact ih t b.1

theorem Backend.logOpening_alike (args : SessionArgs) (prior : Option String) (r : Except Failure η × τ) (l : CallLog) :
    Agree (fun x x' => x.1 = x') (logOpening args prior r l).1 r.1 ∧ (logOpening args prior r l).2.1 = r.2 := by
  obtain ⟨r | session, t⟩ := r
  · exact ⟨.error _, rfl⟩
  · exact ⟨.ok rfl, rfl⟩

namespace Host

variable (h : Host τ η κ δ)

/-- A host of which the calls are logged does what the host does. -/
def logging : Mirror h.logged h where
  backend b b' := b.1 = b'
  session x x' := x.1 = x'
  store k k' := k.1 = k'
  lead _ := 0
  courier := rfl
  sessionId x x' hx := by rw [← hx]; rfl
  latency c c' b b' hc hb := by
    subst hb
    cases hc with
    | send hx prompt => rw [← hx]; rfl
    | close hx => rw [← hx]; rfl
    | _ => rfl
  create args b b' hb := by
    subst hb
    exact Backend.logOpening_alike args none _ b.2
  resume args id b b' hb := by
    subst hb
    exact Backend.logOpening_alike args (some id) _ b.2
  send prompt x x' b b' hx hb := by
    subst hx hb
    exact ⟨rfl, rfl, rfl⟩
  stream x x' b b' hx hb := by
    subst hx hb
    exact ⟨.of_map (f := TurnStream.logged x.2) (TurnStream.logged_alike x.2) _, rfl, rfl⟩
  close x x' b b' hx hb := by
    subst hx hb
    rfl
  storeLatency c k k' hk := by
    subst hk
    rfl
  put key bytes mime k k' hk := by
    subst hk
    exact ⟨rfl, rfl, rfl⟩
  get key k k' hk := by
    subst hk
    exact ⟨rfl, rfl, rfl⟩

theorem logging_world {s : RunState.Logged τ κ δ} {s' : RunState τ κ δ} : h.logging.World s s' ↔ s.unlogged = s' := by
  constructor
  · rintro ⟨hscope, hsessions, hcounters, husage, hbackend, hstore, houtbox⟩
    simp only [logging, Counters.raise, Nat.add_zero] at hcounters hbackend hstore
    simp only [RunState.unlogged, hscope, hsessions, hcounters, husage, hbackend, hstore, houtbox]
  · rintro rfl
    exact ⟨rfl, rfl, rfl, rfl, rfl, rfl, rfl⟩

/-- A run goes as it does without logs. -/
theorem run_logged (p : Program) (inputs : KeyMap String) (limit : Option Nat) (s : RunState τ κ δ) :
    ((h.logged.run p inputs limit s.logged).1.unlogged, (h.logged.run p inputs limit s.logged).2) =
      h.run p inputs limit s := by
  have hstart : h.logging.World s.logged s := (h.logging_world).2 rfl
  obtain ⟨hworld, hresult⟩ := h.logging.run hstart p inputs limit
  exact Prod.ext ((h.logging_world).1 hworld) hresult

end Host

/-! ## Nobody listens to the answer to a close -/

/-- A backend that does what another one does, but says something else when a session is closed. -/
def Backend.closing (b : Backend τ η) (verdict : η → τ → Except Failure Unit) : Backend τ η :=
  { b with close := fun session s => (verdict session s, (b.close session s).2) }

namespace Host

variable (h : Host τ η κ δ) (verdict : η → τ → Except Failure Unit)

/-- A host does what it does if sessions say something else when they are closed. -/
def deaf : Mirror ({ h with backend := h.backend.closing verdict } : Host τ η κ δ) h where
  backend := Eq
  session := Eq
  store := Eq
  lead _ := 0
  courier := rfl
  sessionId x x' hx := by rw [hx]; rfl
  latency c c' b b' hc hb := by
    subst hb
    cases hc with
    | send hx prompt => rw [hx]; rfl
    | close hx => rw [hx]; rfl
    | _ => rfl
  create args b b' hb := by
    subst hb
    exact ⟨.of_eq rfl, rfl⟩
  resume args id b b' hb := by
    subst hb
    exact ⟨.of_eq rfl, rfl⟩
  send prompt x x' b b' hx hb := by
    subst hx hb
    exact ⟨rfl, rfl, rfl⟩
  stream x x' b b' hx hb := by
    subst hx hb
    exact ⟨(Agree.of_eq rfl).mono fun stream _ heq => heq ▸ stream.alike_refl, rfl, rfl⟩
  close x x' b b' hx hb := by
    subst hx hb
    rfl
  storeLatency c k k' hk := by rw [hk]
  put key bytes mime k k' hk := by rw [hk]; exact ⟨rfl, rfl, rfl⟩
  get key k k' hk := by rw [hk]; exact ⟨rfl, rfl, rfl⟩

theorem deaf_world {s s' : RunState τ κ δ} : (h.deaf verdict).World s s' ↔ s = s' := by
  constructor
  · rintro ⟨hscope, hsessions, hcounters, husage, hbackend, hstore, houtbox⟩
    simp only [deaf, Counters.raise, Nat.add_zero] at hcounters hbackend hstore
    obtain ⟨scope, sessions, counters, usage, backend, store, outbox⟩ := s
    simp only at hscope hsessions hcounters husage hbackend hstore houtbox
    rw [hscope, hsessions, hcounters, husage, hbackend, hstore, houtbox]
  · rintro rfl
    exact ⟨rfl, rfl, rfl, rfl, rfl, rfl, rfl⟩

/-- A failure to close a session changes no run. -/
theorem run_closing (p : Program) (inputs : KeyMap String) (limit : Option Nat) (s : RunState τ κ δ) :
    ({ h with backend := h.backend.closing verdict } : Host τ η κ δ).run p inputs limit s = h.run p inputs limit s := by
  have hstart : (h.deaf verdict).World s s := (h.deaf_world verdict).2 rfl
  obtain ⟨hworld, hresult⟩ := (h.deaf verdict).run hstart p inputs limit
  exact Prod.ext ((h.deaf_world verdict).1 hworld) hresult

end Host

end Playbook
