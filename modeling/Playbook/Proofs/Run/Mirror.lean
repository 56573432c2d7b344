import Playbook.Proofs.Run.Bridge

/-!
# `Proofs.Run.Mirror` — hosts of which one does what the other does

A backend may be put into another form: with a log of its calls, with other answers where nobody listens to them. If it does at every
call what the first one does, a run goes the same way with both, and so it is with stores. The state of one may hold more than the state
of the other, and one run may be ahead of the other by some statements, as many as its store says.

## Contents
- **Streams.** `TurnStream.Alike`.
- **Mirrors.** `Host.Mirror`, what is asked of backends and stores; `Mirror.World` between the states of runs, and what keeps it.
- **Calls.** `Mirror.perform`, `Mirror.listen`, `Mirror.readAnswer`; `Mirror.bridge`.
- **Runs.** `Host.wrapUp`, the end of a run; `Mirror.tied`, `Mirror.wrapUp`, `Mirror.run`.
-/

namespace Playbook

variable {τ τ' η η' κ κ' δ α α' : Type}

/-! ## Streams -/

/-- Streams that give the same turns at the same times, as long as a relation holds between the states of their backends. -/
inductive TurnStream.Alike (B : τ → τ' → Prop) : TurnStream τ → TurnStream τ' → Prop where
  | finished {leave : τ → τ} {leave' : τ' → τ'} (h : ∀ b b', B b b' → B (leave b) (leave' b')) :
      Alike B (.finished leave) (.finished leave')
  | next {ms : τ → Nat} {ms' : τ' → Nat} {take : τ → Except Failure Turn × τ} {take' : τ' → Except Failure Turn × τ'}
      {rest : Turn → τ → TurnStream τ} {rest' : Turn → τ' → TurnStream τ'} (hms : ∀ b b', B b b' → ms b = ms' b')
      (htake : ∀ b b', B b b' → (take b).1 = (take' b').1 ∧ B (take b).2 (take' b').2)
      (hrest : ∀ t b b', B b b' → Alike B (rest t b) (rest' t b')) : Alike B (.next ms take rest) (.next ms' take' rest')

theorem TurnStream.alike_refl (stream : TurnStream τ) : stream.Alike Eq stream := by
  induction stream with
  | finished leave => exact .finished fun b b' hb => by rw [hb]
  | next ms take rest ih =>
    refine .next (fun b b' hb => by rw [hb]) (fun b b' hb => by rw [hb]; exact ⟨rfl, rfl⟩) fun t b b' hb => ?_
    rw [← hb]
    exact ih t b

/-- Calls that are the same, up to the form of the session. -/
inductive Backend.Call.Alike (K : η → η' → Prop) : Call η → Call η' → Prop where
  | create (args : SessionArgs) : Alike K (.create args) (.create args)
  | resume (args : SessionArgs) (id : String) : Alike K (.resume args id) (.resume args id)
  | send {x : η} {x' : η'} (hx : K x x') (prompt : String) : Alike K (.send x prompt) (.send x' prompt)
  | close {x : η} {x' : η'} (hx : K x x') : Alike K (.close x) (.close x')

/-! ## Mirrors -/

/-- Counters that are ahead by some statements. -/
def Counters.raise (c : Counters) (n : Nat) : Counters :=
  { c with statements := c.statements + n }

namespace Host

/-- How the backend and the store of one host do what those of another one do: a relation for each kind of state, and for sessions. -/
structure Mirror (h : Host τ η κ δ) (h' : Host τ' η' κ' δ) where
  backend : τ → τ' → Prop
  session : η → η' → Prop
  store : κ → κ' → Prop
  /-- By how many statements the first run is ahead. -/
  lead : κ → Nat
  courier : h.courier = h'.courier
  sessionId : ∀ x x', session x x' → h.backend.sessionId x = h'.backend.sessionId x'
  latency : ∀ c c' b b', c.Alike session c' → backend b b' → h.backend.latency c b = h'.backend.latency c' b'
  create : ∀ args b b', backend b b' →
    Agree session (h.backend.create args b).1 (h'.backend.create args b').1 ∧
      backend (h.backend.create args b).2 (h'.backend.create args b').2
  resume : ∀ args id b b', backend b b' →
    Agree session (h.backend.resume args id b).1 (h'.backend.resume args id b').1 ∧
      backend (h.backend.resume args id b).2 (h'.backend.resume args id b').2
  send : ∀ prompt x x' b b', session x x' → backend b b' →
    (h.backend.send prompt x b).1 = (h'.backend.send prompt x' b').1 ∧
      session (h.backend.send prompt x b).2.1 (h'.backend.send prompt x' b').2.1 ∧
      backend (h.backend.send prompt x b).2.2 (h'.backend.send prompt x' b').2.2
  stream : ∀ x x' b b', session x x' → backend b b' →
    Agree (TurnStream.Alike backend) (h.backend.stream x b).1 (h'.backend.stream x' b').1 ∧
      session (h.backend.stream x b).2.1 (h'.backend.stream x' b').2.1 ∧
      backend (h.backend.stream x b).2.2 (h'.backend.stream x' b').2.2
  close : ∀ x x' b b', session x x' → backend b b' →
    backend (h.backend.close x b).2.2 (h'.backend.close x' b').2.2
  storeLatency : ∀ c k k', store k k' → h.store.latency c k = h'.store.latency c k'
  put : ∀ key bytes mime k k', store k k' →
    (h.store.put key bytes mime k).1 = (h'.store.put key bytes mime k').1 ∧
      store (h.store.put key bytes mime k).2 (h'.store.put key bytes mime k').2 ∧
      lead (h.store.put key bytes mime k).2 = lead k
  get : ∀ key k k', store k k' →
    (h.store.get key k).1 = (h'.store.get key k').1 ∧ store (h.store.get key k).2 (h'.store.get key k').2 ∧
      lead (h.store.get key k).2 = lead k

namespace Mirror

variable {h : Host τ η κ δ} {h' : Host τ' η' κ' δ}

/-- The states of two runs that have come equally far. -/
structure World (m : Mirror h h') (s : RunState τ κ δ) (s' : RunState τ' κ' δ) : Prop where
  scope : s.scope = s'.scope
  sessions : s.sessions = s'.sessions
  counters : s.counters = s'.counters.raise (m.lead s.store)
  usage : s.usage = s'.usage
  backend : m.backend s.backend s'.backend
  store : m.store s.store s'.store
  outbox : s.outbox = s'.outbox

variable {m : Mirror h h'} {s : RunState τ κ δ} {s' : RunState τ' κ' δ}

theorem World.deed (hs : m.World s s') (d : Deed) : m.World (d.apply s) (d.apply s') := by
  obtain ⟨hscope, hsessions, hcounters, husage, hbackend, hstore, houtbox⟩ := hs
  cases d with
  | begin =>
    refine ⟨hscope, hsessions, ?_, husage, hbackend, hstore, houtbox⟩
    simp only [Deed.apply, RunState.count, hcounters, Counters.raise, Counters.mk.injEq, and_true]
    omega
  | remember agent id =>
    refine ⟨hscope, ?_, hcounters, husage, hbackend, hstore, houtbox⟩
    simp only [Deed.apply, RunState.remember, hsessions]
  | settle usage =>
    refine ⟨hscope, hsessions, hcounters, ?_, hbackend, hstore, houtbox⟩
    simp only [Deed.apply, husage]
  | bind b text =>
    refine ⟨?_, hsessions, hcounters, husage, hbackend, hstore, houtbox⟩
    simp only [Deed.apply, hscope]
  | _ =>
    refine ⟨hscope, hsessions, ?_, husage, hbackend, hstore, houtbox⟩
    simp only [Deed.apply, RunState.count, hcounters, Counters.raise]

theorem World.withBackend (hs : m.World s s') {b : τ} {b' : τ'} (hb : m.backend b b') :
    m.World { s with backend := b } { s' with backend := b' } :=
  ⟨hs.scope, hs.sessions, hs.counters, hs.usage, hb, hs.store, hs.outbox⟩

theorem World.withStore (hs : m.World s s') {k : κ} {k' : κ'} (hk : m.store k k') (hlead : m.lead k = m.lead s.store) :
    m.World { s with store := k } { s' with store := k' } :=
  ⟨hs.scope, hs.sessions, by rw [hlead]; exact hs.counters, hs.usage, hs.backend, hk, hs.outbox⟩

theorem World.withOutbox (hs : m.World s s') (o : Outbox δ) : m.World { s with outbox := o } { s' with outbox := o } :=
  ⟨hs.scope, hs.sessions, hs.counters, hs.usage, hs.backend, hs.store, rfl⟩

theorem World.forwarded (hs : m.World s s') :
    m.World (s.count fun c => { c with eventsForwarded := c.eventsForwarded + 1 })
      (s'.count fun c => { c with eventsForwarded := c.eventsForwarded + 1 }) := by
  refine ⟨hs.scope, hs.sessions, ?_, hs.usage, hs.backend, hs.store, hs.outbox⟩
  simp only [RunState.count, hs.counters, Counters.raise]

/-- A turn is taken in alike. -/
theorem World.hear (hs : m.World s s') (agent : String) (t : Turn) (l : Hearing) :
    (h.hear agent t l s).1 = (h'.hear agent t l s').1 ∧ m.World (h.hear agent t l s).2 (h'.hear agent t l s').2 := by
  have hnoted : (noteSession agent t l s).1 = (noteSession agent t l s').1 ∧
      m.World (noteSession agent t l s).2 (noteSession agent t l s').2 := by
    unfold noteSession
    split
    · exact ⟨rfl, hs⟩
    · split
      · exact ⟨rfl, hs⟩
      · exact ⟨rfl, hs.deed (.remember agent _)⟩
  obtain ⟨hfst, hworld⟩ := hnoted
  simp only [Host.hear, hfst]
  split
  · exact ⟨rfl, hworld⟩
  · simp only [forward, hworld.outbox, m.courier]
    split
    · split
      · exact ⟨rfl, (hworld.withOutbox _).forwarded⟩
      · exact ⟨rfl, hworld.withOutbox _⟩
    · exact ⟨rfl, hworld⟩

/-! ## Calls -/

variable (m)

theorem perform {V : α → α' → Prop} {c : Backend.Call η} {c' : Backend.Call η'} {f : τ → α × τ} {f' : τ' → α' × τ'}
    (hc : c.Alike m.session c') (hf : ∀ b b', m.backend b b' → V (f b).1 (f' b').1 ∧ m.backend (f b).2 (f' b').2) :
    Script.Alike m.World V (h.perform c f) (h'.perform c' f') := by
  refine .bind (.pause fun s s' hs => m.latency c c' _ _ hc hs.backend) fun _ _ _ => .act fun s s' hs => ?_
  obtain ⟨hvalue, hbackend⟩ := hf _ _ hs.backend
  exact ⟨hvalue, hs.withBackend hbackend⟩

theorem storePut (key : String) (bytes : List UInt8) (mime : String) :
    Script.Alike m.World Eq (h.storePut key bytes mime) (h'.storePut key bytes mime) := by
  refine .bind (.pause fun s s' hs => m.storeLatency _ _ _ hs.store) fun _ _ _ => ?_
  refine .bind (V := Eq) (.act fun s s' hs => ?_) fun r r' hr => .ofExcept (.of_eq hr)
  obtain ⟨hreceipt, hstore, hlead⟩ := m.put key bytes mime _ _ hs.store
  exact ⟨hreceipt, hs.withStore hstore hlead⟩

theorem storeGet (key : String) : Script.Alike m.World Eq (h.storeGet key) (h'.storeGet key) := by
  refine .bind (.pause fun s s' hs => m.storeLatency _ _ _ hs.store) fun _ _ _ => ?_
  refine .bind (V := Eq) (.act fun s s' hs => ?_) fun r r' hr => .ofExcept (.of_eq hr)
  obtain ⟨hbytes, hstore, hlead⟩ := m.get key _ _ hs.store
  exact ⟨hbytes, hs.withStore hstore hlead⟩

/-- What is left after a turn: the same, up to the form of the backend. -/
def Took (m : Mirror h h') (r : Hearing × Turn × τ) (r' : Hearing × Turn × τ') : Prop :=
  r.1 = r'.1 ∧ r.2.1 = r'.2.1 ∧ m.backend r.2.2 r'.2.2

theorem takeTurn (agent : String) {take : τ → Except Failure Turn × τ} {take' : τ' → Except Failure Turn × τ'}
    (htake : ∀ b b', m.backend b b' → (take b).1 = (take' b').1 ∧ m.backend (take b).2 (take' b').2) (l : Hearing)
    (hs : m.World s s') :
    Agree m.Took (h.takeTurn agent take l s).1 (h'.takeTurn agent take' l s').1 ∧
      m.World (h.takeTurn agent take l s).2 (h'.takeTurn agent take' l s').2 := by
  obtain ⟨hturn, hbackend⟩ := htake _ _ hs.backend
  unfold Host.takeTurn
  cases hr : take s.backend with
  | mk r b =>
    cases hr' : take' s'.backend with
    | mk r' b' =>
      rw [hr, hr'] at hturn hbackend
      simp only at hturn hbackend
      subst hturn
      have hleft := hs.withBackend hbackend
      cases r with
      | error e => exact ⟨.error e, hleft⟩
      | ok t =>
        obtain ⟨hheard, hworld⟩ := hleft.hear agent t l
        exact ⟨.ok ⟨hheard, rfl, hbackend⟩, hworld⟩

/-- Streams that are alike are read alike. -/
theorem listen (agent : String) {stream : TurnStream τ} {stream' : TurnStream τ'}
    (hstream : stream.Alike m.backend stream') (l : Hearing) :
    Script.Alike m.World Eq (h.listen agent stream l) (h'.listen agent stream' l) := by
  induction hstream generalizing l with
  | finished hleave =>
    refine .bind (V := Eq) (.update fun s s' hs => ?_) fun _ _ _ => .pure rfl
    exact hs.withBackend (hleave _ _ hs.backend)
  | next hms htake _ ih =>
    refine .bind (.pause fun s s' hs => hms _ _ hs.backend) fun _ _ _ => ?_
    refine .bind (V := Agree m.Took) (.act fun s s' hs => m.takeTurn agent htake l hs) fun r r' hr => ?_
    refine .bind (V := m.Took) (.ofExcept hr) ?_
    rintro ⟨l, t, b⟩ ⟨l', t', b'⟩ ⟨rfl, rfl, hb⟩
    exact ih t b b' hb l

theorem readAnswer (agent : String) (id : Option String) {x : η} {x' : η'} (hx : m.session x x') :
    Script.Alike m.World (WithSession Eq m.session) (h.readAnswer agent id x) (h'.readAnswer agent id x') := by
  refine .bind (V := WithSession (Agree (TurnStream.Alike m.backend)) m.session) (.act fun s s' hs => ?_) ?_
  · obtain ⟨hstream, hsession, hbackend⟩ := m.stream x x' _ _ hx hs.backend
    exact ⟨⟨hstream, hsession⟩, hs.withBackend hbackend⟩
  · rintro ⟨stream, y⟩ ⟨stream', y'⟩ ⟨hstream, hy⟩
    simp only at hstream hy
    cases hstream with
    | error e => exact .pure ⟨rfl, hy⟩
    | ok hstream =>
      exact .bind (.hold (m.listen agent hstream _)) fun r r' hr => .pure ⟨hr.eq, hy⟩

/-- Programs go on alike on a host and on one that mirrors it. -/
theorem bridge : Bridge h h' m.World fun _ _ => m.session where
  context := congrArg (·.context) m.courier
  scope _ _ hs := hs.scope
  sessions _ _ hs := hs.sessions
  written _ _ hs := by rw [hs.counters]; rfl
  time _ _ hs := by rw [m.courier, hs.outbox]
  deed d _ _ hs := hs.deed d
  put := m.storePut
  get := m.storeGet
  create args := m.perform (.create args) fun b b' hb => by
    obtain ⟨hopened, hbackend⟩ := m.create args b b' hb
    exact ⟨hopened.mono fun x x' hx => ⟨m.sessionId x x' hx, hx⟩, hbackend⟩
  resume args id := m.perform (.resume args id) fun b b' hb => by
    obtain ⟨hopened, hbackend⟩ := m.resume args id b b' hb
    exact ⟨hopened.mono fun x x' hx => ⟨m.sessionId x x' hx, hx⟩, hbackend⟩
  send _ _ prompt x x' hx := m.perform (.send hx prompt) fun b b' hb => by
    obtain ⟨hsent, hsession, hbackend⟩ := m.send prompt x x' b b' hx hb
    exact ⟨⟨hsent, hsession⟩, hbackend⟩
  answer agent id x x' hx := m.readAnswer agent id hx
  close _ _ x x' hx := m.perform (.close hx) fun b b' hb => ⟨rfl, m.close x x' b b' hx hb⟩

end Mirror

/-! ## Runs -/

/-- The end of a run whose program has come to a result, or is dropped. -/
def wrapUp (h : Host τ η κ δ) (limit : Option Nat) (r : Option Outcome) (s : RunState τ κ δ) :
    RunState τ κ δ × Option Outcome :=
  match r with
  | some outcome => h.finish limit outcome s
  | none => (h.cancel limit s, none)

theorem run_eq_wrapUp (h : Host τ η κ δ) (p : Program) (inputs : KeyMap String) (limit : Option Nat) (s : RunState τ κ δ) :
    let last := h.drive limit 0 true (h.begun p inputs s).1 (h.begun p inputs s).2
    h.run p inputs limit s = h.wrapUp limit last.2.result? last.1 :=
  rfl

namespace Mirror

variable {h : Host τ η κ δ} {h' : Host τ' η' κ' δ} (m : Mirror h h') {s : RunState τ κ δ} {s' : RunState τ' κ' δ}

theorem tied : Tied h h' m.World where
  clock _ _ hs := by rw [hs.outbox]
  catchUp now s s' hs := by
    unfold catchUp
    rw [hs.outbox, m.courier]
    exact hs.withOutbox _
  giveWay standing s s' hs := by
    unfold giveWay
    split
    · rw [hs.outbox, m.courier]
      exact hs.withOutbox _
    · exact hs

theorem wrapUp (hs : m.World s s') (limit : Option Nat) (r : Option Outcome) :
    m.World (h.wrapUp limit r s).1 (h'.wrapUp limit r s').1 ∧ (h.wrapUp limit r s).2 = (h'.wrapUp limit r s').2 := by
  cases r with
  | none =>
    refine ⟨?_, rfl⟩
    simp only [Host.wrapUp, cancel, catchUp, hs.outbox, m.courier]
    exact hs.withOutbox _
  | some outcome =>
    simp only [Host.wrapUp, finish, hs.outbox, m.courier]
    split
    · exact ⟨hs.withOutbox _, rfl⟩
    · exact ⟨hs.withOutbox _, rfl⟩

/-- A program is driven equally far. -/
theorem drive (hs : m.World s s') (p : Program) (inputs : KeyMap String) (limit : Option Nat) :
    m.World (h.drive limit 0 true (h.begun p inputs s).1 (h.begun p inputs s).2).1
        (h'.drive limit 0 true (h'.begun p inputs s').1 (h'.begun p inputs s').2).1 ∧
      (h.drive limit 0 true (h.begun p inputs s).1 (h.begun p inputs s).2).2.result? =
        (h'.drive limit 0 true (h'.begun p inputs s').1 (h'.begun p inputs s').2).2.result? := by
  have hbegun : m.World (h.begun p inputs s).1 (h'.begun p inputs s').1 := by
    unfold begun
    rw [hs.outbox, m.courier]
    exact hs.withOutbox _
  obtain ⟨hworld, hthread⟩ := drive_alike m.tied limit 0 true _ _ hbegun (.ready false (m.bridge.script p inputs).plan)
  exact ⟨hworld, hthread.result?_eq⟩

/-- A run comes to the same end. -/
theorem run (hs : m.World s s') (p : Program) (inputs : KeyMap String) (limit : Option Nat) :
    m.World (h.run p inputs limit s).1 (h'.run p inputs limit s').1 ∧
      (h.run p inputs limit s).2 = (h'.run p inputs limit s').2 := by
  obtain ⟨hworld, hresult⟩ := m.drive hs p inputs limit
  rw [run_eq_wrapUp, run_eq_wrapUp, hresult]
  exact m.wrapUp hworld limit _

end Mirror

end Host

end Playbook
