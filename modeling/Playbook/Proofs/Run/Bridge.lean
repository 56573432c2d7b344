import Playbook.Proofs.Run.Simulation

/-!
# `Proofs.Run.Bridge` — from calls to programs

Programs go on alike on two hosts if the calls to their stores and backends do. What a run does besides it does to a state of its own,
and there are few things of that kind.

## Contents
- **Deeds.** `Deed`, what a run does to its own state.
- **Bridges.** `Host.Bridge`, what is asked of two hosts and of a relation between their worlds.
- **Calls.** One lemma for each script of a session, up to `Bridge.callSession`.
- **Statements.** One lemma for each script of a statement, up to `Bridge.script`.
-/

namespace Playbook

variable {τ τ' η η' κ κ' δ δ' : Type}

/-! ## Deeds -/

/-- Something that a run does to its own state: neither to its backend nor to its store nor to its outbox. -/
inductive Deed where
  /-- A statement begins. -/
  | begin
  /-- A binding gets its number. -/
  | number
  | create
  | resume
  | remember (agent id : String)
  | settle (usage : Usage)
  | bind (b : Binding) (text : String)

/-- What becomes of a state. -/
def Deed.apply : Deed → RunState τ κ δ → RunState τ κ δ
  | begin => (·.count fun c => { c with statements := c.statements + 1 })
  | number => (·.count fun c => { c with bindingsWritten := c.bindingsWritten + 1 })
  | create => (·.count fun c => { c with sessionsCreated := c.sessionsCreated + 1 })
  | resume => (·.count fun c => { c with sessionsResumed := c.sessionsResumed + 1 })
  | remember agent id => (·.remember agent id)
  | settle usage => fun s => { s with usage := s.usage.add usage }
  | bind b text => fun s => { s with scope := s.scope.bind b text }

namespace Host

/-! ## Bridges -/

/-- A value that comes with a session: the values are the same, the sessions are related. -/
structure WithSession {α α' : Type} (V : α → α' → Prop) (K : η → η' → Prop) (r : α × η) (r' : α' × η') : Prop where
  value : V r.1 r'.1
  session : K r.2 r'.2

/-- What is asked of two hosts, of a relation between their worlds and of one between their sessions, given the agent of a session and the
    id with which it was opened. -/
structure Bridge (h : Host τ η κ δ) (h' : Host τ' η' κ' δ') (R : RunState τ κ δ → RunState τ' κ' δ' → Prop)
    (K : String → Option String → η → η' → Prop) : Prop where
  context : h.context = h'.context
  scope : ∀ s s', R s s' → s.scope = s'.scope
  sessions : ∀ s s', R s s' → s.sessions = s'.sessions
  written : ∀ s s', R s s' → s.counters.bindingsWritten = s'.counters.bindingsWritten
  time : ∀ s s', R s s' → h.courier.time s.outbox.clock = h'.courier.time s'.outbox.clock
  deed : ∀ d s s', R s s' → R (Deed.apply d s) (Deed.apply d s')
  put : ∀ key bytes mime, Script.Alike R Eq (h.storePut key bytes mime) (h'.storePut key bytes mime)
  get : ∀ key, Script.Alike R Eq (h.storeGet key) (h'.storeGet key)
  create : ∀ args, Script.Alike R
    (Agree fun x x' => h.backend.sessionId x = h'.backend.sessionId x' ∧ K args.agentName (h'.backend.sessionId x') x x')
    (h.perform (.create args) (h.backend.create args)) (h'.perform (.create args) (h'.backend.create args))
  resume : ∀ args id, Script.Alike R
    (Agree fun x x' => h.backend.sessionId x = h'.backend.sessionId x' ∧
      K args.agentName (h'.backend.sessionId x' <|> some id) x x')
    (h.perform (.resume args id) (h.backend.resume args id)) (h'.perform (.resume args id) (h'.backend.resume args id))
  send : ∀ agent id prompt x x', K agent id x x' → Script.Alike R (WithSession Eq (K agent id))
    (h.perform (.send x prompt) fun b => (((h.backend.send prompt x b).1, (h.backend.send prompt x b).2.1),
      (h.backend.send prompt x b).2.2))
    (h'.perform (.send x' prompt) fun b => (((h'.backend.send prompt x' b).1, (h'.backend.send prompt x' b).2.1),
      (h'.backend.send prompt x' b).2.2))
  answer : ∀ agent id x x', K agent id x x' →
    Script.Alike R (WithSession Eq (K agent id)) (h.readAnswer agent id x) (h'.readAnswer agent id x')
  close : ∀ agent id x x', K agent id x x' → Script.Alike R Eq (h.closeSession x) (h'.closeSession x')

namespace Bridge

variable {h : Host τ η κ δ} {h' : Host τ' η' κ' δ'} {R : RunState τ κ δ → RunState τ' κ' δ' → Prop}
  {K : String → Option String → η → η' → Prop}

/-! ## Calls -/

theorem update (bridge : Bridge h h' R K) (d : Deed) :
    Script.Alike R Eq (Script.update d.apply) (Script.update d.apply) :=
  .update (bridge.deed d)

theorem writeBinding (bridge : Bridge h h' R K) (name : String) (kind : BindingKind) (text : String) :
    Script.Alike R Eq (h.writeBinding name kind text) (h'.writeBinding name kind text) := by
  refine .bind (V := Eq) (.act fun s s' hs => ?_) ?_
  · have hnumbered := bridge.deed .number s s' hs
    exact ⟨bridge.written _ _ hnumbered, hnumbered⟩
  rintro n _ rfl
  rw [bridge.context]
  refine .bind (bridge.put _ _ _) ?_
  rintro receipt _ rfl
  exact bridge.update (.bind (bindingOf name kind text receipt) text)

theorem recordedSession (bridge : Bridge h h' R K) (agent : String) :
    Script.Alike R Eq (h.recordedSession agent) (h'.recordedSession agent) := by
  unfold Host.recordedSession recordKey
  rw [bridge.context]
  refine .bind (bridge.get _) ?_
  rintro bytes _ rfl
  exact .pure rfl

theorem priorSession (bridge : Bridge h h' R K) (agent : Agent) (resume : Bool) :
    Script.Alike R Eq (h.priorSession agent resume) (h'.priorSession agent resume) := by
  unfold Host.priorSession
  split
  · refine .bind (V := Eq) (.observe fun s s' hs => by rw [bridge.sessions s s' hs]) ?_
    rintro known _ rfl
    cases known with
    | none => exact bridge.recordedSession agent.name
    | some id => exact .pure rfl
  · exact .pure rfl

theorem record (bridge : Bridge h h' R K) (agent id title : String) :
    Script.Alike R Eq (h.record agent id title) (h'.record agent id title) := by
  unfold Host.record recordKey
  rw [bridge.context]
  refine .bind (V := Eq) (.observe bridge.time) ?_
  rintro now _ rfl
  exact .bind (bridge.put _ _ _) fun _ _ _ => .pure rfl

theorem recordHeard (bridge : Bridge h h' R K) (agent : Agent) (l : Hearing) (title : String) :
    Script.Alike R Eq (h.recordHeard agent l title) (h'.recordHeard agent l title) := by
  unfold Host.recordHeard
  split
  · exact bridge.record _ _ _
  · exact .pure rfl

/-- Sessions that were opened for an agent, given the id of the one that was to be taken up again. -/
def Opened (h : Host τ η κ δ) (h' : Host τ' η' κ' δ') (K : String → Option String → η → η' → Prop) (agent : String)
    (prior : Option String) (x : η) (x' : η') : Prop :=
  h.backend.sessionId x = h'.backend.sessionId x' ∧ K agent (h'.backend.sessionId x' <|> prior) x x'

theorem openSession (bridge : Bridge h h' R K) (args : SessionArgs) (prior : Option String) :
    Script.Alike R (Opened h h' K args.agentName prior) (h.openSession args prior) (h'.openSession args prior) := by
  cases prior with
  | none =>
    refine .bind (bridge.update .create) fun _ _ _ => ?_
    refine .bind (bridge.create args) fun r r' hr => .ofExcept (hr.mono fun x x' hx => ?_)
    exact ⟨hx.1, by simpa using hx.2⟩
  | some id =>
    refine .bind (bridge.update .resume) fun _ _ _ => ?_
    exact .bind (bridge.resume args id) fun r r' hr => .ofExcept hr

theorem converse (bridge : Bridge h h' R K) {agent : String} (prompt : String) {id : Option String} {x : η} {x' : η'}
    (hx : K agent id x x') :
    Script.Alike R (WithSession Eq (K agent id)) (h.converse agent prompt id x) (h'.converse agent prompt id x') := by
  refine .bind (V := Eq) ?_ fun _ _ _ => ?_
  · unfold keepOpened
    split
    · exact bridge.update (.remember agent _)
    · exact .pure rfl
  refine .bind (bridge.send agent id prompt x x' hx) ?_
  rintro ⟨sent, y⟩ ⟨sent', y'⟩ ⟨hsent, hy⟩
  simp only at hsent hy
  subst hsent
  cases sent with
  | error e => exact .pure ⟨rfl, hy⟩
  | ok _ => exact bridge.answer agent id y y' hy

theorem agree_withFacts {α α' : Type} {V : α → α' → Prop} {r : Except Failure α} {r' : Except Failure α'}
    (hr : Agree V r r') (facts : List (String × String)) : Agree V (withFacts facts r) (withFacts facts r') := by
  cases hr with
  | ok hv => exact .ok hv
  | error e => exact .error _

/-- A session is held alike, if the programs know the same agents. -/
theorem callSession (bridge : Bridge h h' R K) {p p' : Program} (hagents : ∀ call, p.agentFor call = p'.agentFor call)
    (call : SessionCall) (resume : Bool) :
    Script.Alike R Eq (h.callSession p call resume) (h'.callSession p' call resume) := by
  unfold Host.callSession
  rw [hagents, bridge.context]
  refine .bind (V := Eq) (.ofExcept (.of_eq rfl)) ?_
  rintro agent _ rfl
  refine .bind (bridge.priorSession agent resume) ?_
  rintro prior _ rfl
  refine .bind (V := Eq) (.observe fun s s' hs => by rw [bridge.scope s s' hs]) ?_
  rintro prompt _ rfl
  refine .bind (.hold (bridge.openSession _ prior)) fun opened opened' hopened => ?_
  refine .bind (.ofExcept (agree_withFacts hopened _)) ?_
  rintro x x' ⟨hid, hx⟩
  rw [hid]
  refine .bind (bridge.converse prompt hx) ?_
  rintro ⟨answer, y⟩ ⟨answer', y'⟩ ⟨hanswer, hy⟩
  simp only at hanswer hy
  subst hanswer
  refine .bind (bridge.close _ _ y y' hy) fun _ _ _ => ?_
  refine .bind (V := Eq) (.ofExcept (.of_eq rfl)) ?_
  rintro heard _ rfl
  refine .bind (bridge.update (.settle heard.tally.usage)) fun _ _ _ => ?_
  exact .bind (bridge.recordHeard agent heard call.title) fun _ _ _ => .pure rfl

/-! ## Statements -/

/-- Blocks that may be missing. -/
def Blocks (R : RunState τ κ δ → RunState τ' κ' δ' → Prop) :=
  Option.Rel (Script.Alike R (Eq (α := Unit)))

section

variable (bridge : Bridge h h' R K)
include bridge

theorem begin : Script.Alike R Eq Host.begin Host.begin :=
  bridge.update .begin

theorem bindInputs (inputs : List (String × String)) :
    Script.Alike R Eq (h.bindInputs inputs) (h'.bindInputs inputs) := by
  induction inputs with
  | nil => exact .pure rfl
  | cons input rest ih => exact .bind (bridge.writeBinding _ _ _) fun _ _ _ => ih

theorem bindMessage (catchName : Option String) (e : Failure) :
    Script.Alike R Eq (h.bindMessage catchName e) (h'.bindMessage catchName e) := by
  cases catchName with
  | none => exact .pure rfl
  | some name => exact bridge.writeBinding name _ _

theorem handle {handler : Option (Work τ κ δ Unit)} {handler' : Option (Work τ' κ' δ' Unit)}
    (hhandler : Blocks R handler handler') (catchName : Option String) (outcome : Outcome) :
    Script.Alike R Eq (h.handle catchName handler outcome) (h'.handle catchName handler' outcome) := by
  cases outcome with
  | ok _ => exact .pure rfl
  | error e =>
    cases hhandler with
    | none => exact .fail e
    | some hblock =>
      simp only [Host.handle]
      split
      · exact .bind (bridge.bindMessage catchName e) fun _ _ _ => hblock
      · exact .fail e

theorem guard {body : Work τ κ δ Unit} {body' : Work τ' κ' δ' Unit} {handler final : Option (Work τ κ δ Unit)}
    {handler' final' : Option (Work τ' κ' δ' Unit)} (hbody : Script.Alike R Eq body body')
    (hhandler : Blocks R handler handler') (hfinal : Blocks R final final') (catchName : Option String) :
    Script.Alike R Eq (h.guard body catchName handler final) (h'.guard body' catchName handler' final') := by
  refine .bind (.hold hbody) fun outcome outcome' houtcome => ?_
  rw [houtcome.eq]
  refine .bind (.hold (bridge.handle hhandler catchName outcome')) fun held held' hheld => ?_
  refine .bind (V := Eq) ?_ fun _ _ _ => .ofExcept hheld
  cases hfinal with
  | none => exact .pure rfl
  | some hblock => exact hblock

variable {p p' : Program} (hagents : ∀ call, p.agentFor call = p'.agentFor call)
include hagents

theorem eval (value : Expr) : Script.Alike R Eq (h.eval p value) (h'.eval p' value) := by
  cases value with
  | str text => exact .pure rfl
  | session call => exact bridge.callSession hagents call false
  | resume call => exact bridge.callSession hagents call true
  | var name =>
    refine .bind (V := Eq) (.observe fun s s' hs => by rw [bridge.scope s s' hs]) ?_
    rintro bound _ rfl
    cases bound with
    | none => exact .fail _
    | some text => exact .pure rfl

theorem bindSession (name : String) (call : SessionCall) (resume : Bool) :
    Script.Alike R Eq (h.bindSession p name call resume) (h'.bindSession p' name call resume) := by
  refine .bind bridge.begin fun _ _ _ => ?_
  refine .bind (bridge.callSession hagents call resume) ?_
  rintro text _ rfl
  exact bridge.writeBinding name _ text

theorem bindValue (name : String) (kind : BindingKind) (value : Expr) :
    Script.Alike R Eq (h.bindValue p name kind value) (h'.bindValue p' name kind value) := by
  refine .bind (bridge.eval hagents value) ?_
  rintro text _ rfl
  exact bridge.writeBinding name kind text

end

variable {p p' : Program}

mutual

theorem exec (bridge : Bridge h h' R K) (hagents : ∀ call, p.agentFor call = p'.agentFor call) : ∀ s : Stmt,
    Script.Alike R Eq (h.exec p s) (h'.exec p' s)
  | .comment _ => bridge.begin
  | .session call =>
    .bind bridge.begin fun _ _ _ => .bind (bridge.callSession hagents call false) fun _ _ _ => .pure rfl
  | .resume call =>
    .bind bridge.begin fun _ _ _ => .bind (bridge.callSession hagents call true) fun _ _ _ => .pure rfl
  | .assign name value => .bind bridge.begin fun _ _ _ => bridge.bindValue hagents name _ value
  | .output name value => .bind bridge.begin fun _ _ _ => bridge.bindValue hagents name _ value
  | .attempt body catchName handler final =>
    .bind bridge.begin fun _ _ _ =>
      bridge.guard (execBlock bridge hagents body) (execOptional bridge hagents handler)
        (execOptional bridge hagents final) catchName
  | .parallel policy branches => by
    refine .bind bridge.begin fun _ _ _ => ?_
    refine .bind (.together (execBranches bridge hagents branches)) ?_
    rintro outcomes _ rfl
    exact .ofExcept (.of_eq rfl)
  | .loop count body =>
    .bind bridge.begin fun _ _ _ => .repeatTimes (execBlock bridge hagents body) count.toNat

theorem execBlock (bridge : Bridge h h' R K) (hagents : ∀ call, p.agentFor call = p'.agentFor call) :
    ∀ block : List Stmt, Script.Alike R Eq (h.execBlock p block) (h'.execBlock p' block)
  | [] => .pure rfl
  | s :: rest => .bind (exec bridge hagents s) fun _ _ _ => execBlock bridge hagents rest

theorem execOptional (bridge : Bridge h h' R K) (hagents : ∀ call, p.agentFor call = p'.agentFor call) :
    ∀ block : Option (List Stmt), Blocks R (h.execOptional p block) (h'.execOptional p' block)
  | none => .none
  | some block => .some (execBlock bridge hagents block)

theorem execBranch (bridge : Bridge h h' R K) (hagents : ∀ call, p.agentFor call = p'.agentFor call) :
    ∀ branch : Branch, Script.Alike R Eq (h.execBranch p branch) (h'.execBranch p' branch)
  | .mk name s => by
    have hexec : Script.Alike R Eq (h.exec p s) (h'.exec p' s) := exec bridge hagents s
    cases name with
    | none => simpa only [Host.execBranch] using hexec
    | some name =>
      cases s with
      | session call => exact bridge.bindSession hagents name call false
      | resume call => exact bridge.bindSession hagents name call true
      | _ => simpa only [Host.execBranch] using hexec

theorem execBranches (bridge : Bridge h h' R K) (hagents : ∀ call, p.agentFor call = p'.agentFor call) :
    ∀ branches : List Branch,
      List.Forall₂ (Script.Alike R Eq) (h.execBranches p branches) (h'.execBranches p' branches)
  | [] => .nil
  | branch :: rest => .cons (execBranch bridge hagents branch) (execBranches bridge hagents rest)

end

/-- A program runs alike on two hosts. -/
theorem script (bridge : Bridge h h' R K) (p : Program) (inputs : KeyMap String) :
    Script.Alike R Eq (h.script p inputs) (h'.script p inputs) :=
  .bind (bridge.bindInputs inputs) fun _ _ _ => bridge.execBlock (fun _ => rfl) p.statements

end Bridge

end Host

end Playbook
