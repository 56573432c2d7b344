import Mathlib.Data.List.Forall2
import Playbook.Run.Execution

/-!
# `Proofs.Run.Simulation` — two runs that go on alike

Two plans in two worlds go on *alike* if they look, change, wait and split at the same places, as long as a relation holds
between the worlds; and then it goes on to hold. Between waits and splits the first plan may also do something on its own that
the relation puts up with. Threads that are alike take the same steps and wait for the same alarms,
whoever else has the floor in between, so that two runs stay alike from start to end.

With both runs the same, the relation is an invariant of the world.

## Contents
- **Plans.** `Plan.Alike`, and `Script.Alike` for parts of plans, one rule for each way in which scripts are made.
- **Threads.** `Thread.Alike`, `go_alike`, `step_alike`, `due_eq`, `call_alike`.
- **Runs.** `Host.Tied`, `Host.drive_alike`.
-/

namespace Playbook

variable {σ σ' ω α α' β β' : Type} {R : σ → σ' → Prop}

/-! ## Plans -/

/-- Two plans that go on alike as long as a relation holds between their worlds. -/
inductive Plan.Alike (R : σ → σ' → Prop) : Plan σ ω → Plan σ' ω → Prop where
  | done (result : ω) : Alike R (.done result) (.done result)
  | look {next : σ → Plan σ ω} {next' : σ' → Plan σ' ω}
      (h : ∀ w w', R w w' → Alike R (next w) (next' w')) : Alike R (.look next) (.look next')
  | put {w : σ} {w' : σ'} {next : Plan σ ω} {next' : Plan σ' ω} (hw : R w w')
      (h : Alike R next next') : Alike R (.put w next) (.put w' next')
  | wait (ms : Nat) {next : Plan σ ω} {next' : Plan σ' ω} (h : Alike R next next') :
      Alike R (.wait ms next) (.wait ms next')
  | fork {branches : List (Plan σ ω)} {branches' : List (Plan σ' ω)}
      {next : List ω → Plan σ ω} {next' : List ω → Plan σ' ω}
      (hbranches : List.Forall₂ (Alike R) branches branches')
      (h : ∀ results, Alike R (next results) (next' results)) :
      Alike R (.fork branches next) (.fork branches' next')
  /-- The first plan looks or does something where the second one does not. -/
  | aside {p : Plan σ ω} {f : σ → σ} {next : σ → Plan σ ω} {p' : Plan σ' ω}
      (hgo : ∀ number now stirred w,
        p.go number now stirred w = (next w).go number now stirred (f w))
      (hf : ∀ w w', R w w' → R (f w) w') (h : ∀ w w', R w w' → Alike R (next w) p') : Alike R p p'

/-- The first plan does something that the second one does not. -/
theorem Plan.Alike.deed {f : σ → σ} {next : σ → Plan σ ω} {p' : Plan σ' ω} (hf : ∀ w w', R w w' → R (f w) w')
    (h : ∀ w w', R w w' → Alike R (next w) p') : Alike R (.look fun w => .put (f w) (next w)) p' :=
  @Alike.aside _ _ _ R _ f next p' (fun _ _ _ _ => rfl) hf h

/-- The first plan looks where the second one does not. -/
theorem Plan.Alike.glance {next : σ → Plan σ ω} {p' : Plan σ' ω} (h : ∀ w w', R w w' → Alike R (next w) p') :
    Alike R (.look next) p' :=
  @Alike.aside _ _ _ R _ id next p' (fun _ _ _ _ => rfl) (fun _ _ hw => hw) h

/-- Two results that are both failures, the same, or both values, which are related. -/
inductive Agree (V : α → α' → Prop) : Except Failure α → Except Failure α' → Prop where
  | ok {a : α} {a' : α'} (h : V a a') : Agree V (.ok a) (.ok a')
  | error (e : Failure) : Agree V (.error e) (.error e)

theorem Agree.of_eq {r r' : Except Failure α} (h : r = r') : Agree Eq r r' := by
  subst h
  cases r with
  | ok a => exact .ok rfl
  | error e => exact .error e

theorem Agree.eq {r r' : Except Failure α} (h : Agree Eq r r') : r = r' := by
  cases h with
  | ok h => rw [h]
  | error e => rfl

theorem Agree.mono {V W : α → α' → Prop} {r : Except Failure α} {r' : Except Failure α'} (h : Agree V r r')
    (hVW : ∀ a a', V a a' → W a a') : Agree W r r' := by
  cases h with
  | ok h => exact .ok (hVW _ _ h)
  | error e => exact .error e

theorem Agree.of_map {V : α → α' → Prop} {f : α' → α} (h : ∀ a, V (f a) a)
    (r : Except Failure α') : Agree V (r.map f) r := by
  cases r with
  | ok a => exact .ok (h a)
  | error e => exact .error e

namespace Script

variable {V : α → α' → Prop} {W : β → β' → Prop}

/-- Two scripts that go on alike and whose values are related. -/
def Alike (R : σ → σ' → Prop) (V : α → α' → Prop) (s : Script σ α) (s' : Script σ' α') : Prop :=
  ∀ next next', (∀ r r', Agree V r r' → Plan.Alike R (next r) (next' r')) →
    Plan.Alike R (s next) (s' next')

theorem Alike.pure {a : α} {a' : α'} (h : V a a') :
    Alike R V (Pure.pure a : Script σ α) (Pure.pure a' : Script σ' α') :=
  fun _ _ hnext => hnext _ _ (.ok h)

theorem Alike.bind {s : Script σ α} {s' : Script σ' α'} {f : α → Script σ β}
    {f' : α' → Script σ' β'} (hs : Alike R V s s') (hf : ∀ a a', V a a' → Alike R W (f a) (f' a')) :
    Alike R W (s >>= f) (s' >>= f') := by
  intro next next' hnext
  refine hs _ _ fun r r' hr => ?_
  cases hr with
  | ok h => exact hf _ _ h _ _ hnext
  | error e => exact hnext _ _ (.error e)

theorem Alike.fail (e : Failure) : Alike R V (Script.fail e) (Script.fail e) :=
  fun _ _ hnext => hnext _ _ (.error e)

theorem Alike.ofExcept {r : Except Failure α} {r' : Except Failure α'} (h : Agree V r r') :
    Alike R V (Script.ofExcept r) (Script.ofExcept r') :=
  fun _ _ hnext => hnext _ _ h

theorem Alike.hold {s : Script σ α} {s' : Script σ' α'} (hs : Alike R V s s') :
    Alike R (Agree V) s.hold s'.hold := by
  intro next next' hnext
  exact hs _ _ fun r r' hr => hnext _ _ (.ok hr)

theorem Alike.observe {f : σ → α} {f' : σ' → α'} (h : ∀ w w', R w w' → V (f w) (f' w')) :
    Alike R V (Script.observe f) (Script.observe f') := by
  intro next next' hnext
  exact .look fun w w' hw => hnext _ _ (.ok (h w w' hw))

theorem Alike.act {f : σ → α × σ} {f' : σ' → α' × σ'}
    (h : ∀ w w', R w w' → V (f w).1 (f' w').1 ∧ R (f w).2 (f' w').2) :
    Alike R V (Script.act f) (Script.act f') := by
  intro next next' hnext
  refine .look fun w w' hw => ?_
  obtain ⟨hvalue, hworld⟩ := h w w' hw
  exact .put hworld (hnext _ _ (.ok hvalue))

theorem Alike.update {f : σ → σ} {f' : σ' → σ'} (h : ∀ w w', R w w' → R (f w) (f' w')) :
    Alike R Eq (Script.update f) (Script.update f') :=
  Alike.act fun w w' hw => ⟨rfl, h w w' hw⟩

theorem Alike.pause {ms : σ → Nat} {ms' : σ' → Nat} (h : ∀ w w', R w w' → ms w = ms' w') :
    Alike R Eq (Script.pause ms) (Script.pause ms') := by
  intro next next' hnext
  refine .look fun w w' hw => ?_
  rw [h w w' hw]
  exact .wait _ (hnext _ _ (.ok rfl))

/-- The first script does something before, which the second one does not. -/
theorem Alike.aside {f : σ → β × σ} {k : β → Script σ α} {s' : Script σ' α'}
    (hf : ∀ w w', R w w' → R (f w).2 w') (hk : ∀ b, Alike R V (k b) s') :
    Alike R V (Script.act f >>= k) s' :=
  fun next next' hnext => .deed hf fun w _ _ => hk (f w).1 next next' hnext

/-- The first script does something after, whatever came of it. -/
theorem Alike.asideAfter {s : Script σ α} {s' : Script σ' α'} {f : Except Failure α → σ → σ}
    (hs : Alike R V s s') (hf : ∀ r w w', R w w' → R (f r w) w') :
    Alike R V (s.hold >>= fun r => Script.update (f r) >>= fun _ => Script.ofExcept r) s' := by
  intro next next' hnext
  exact hs _ _ fun r r' hr => .deed (hf r) fun _ _ _ => hnext r r' hr

/-- The first script looks before, where the second one does not. -/
theorem Alike.glance {f : σ → β} {k : β → Script σ α} {s' : Script σ' α'}
    (hk : ∀ b, Alike R V (k b) s') : Alike R V (Script.observe f >>= k) s' :=
  fun next next' hnext => .glance fun w _ _ => hk (f w) next next' hnext

theorem Alike.plan {s : Script σ Unit} {s' : Script σ' Unit} (hs : Alike R Eq s s') :
    Plan.Alike R s.plan s'.plan := by
  refine hs _ _ fun r r' hr => ?_
  rw [hr.eq]
  exact .done r'

theorem Alike.together {branches : List (Script σ Unit)} {branches' : List (Script σ' Unit)}
    (h : List.Forall₂ (Alike R Eq) branches branches') :
    Alike R Eq (Script.together branches) (Script.together branches') := by
  intro next next' hnext
  refine .fork ?_ fun results => hnext _ _ (.ok rfl)
  induction h with
  | nil => exact .nil
  | cons hs _ ih => exact .cons hs.plan ih

theorem Alike.repeatTimes {body : Script σ Unit} {body' : Script σ' Unit}
    (h : Alike R Eq body body') (n : Nat) :
    Alike R Eq (Script.repeatTimes body n) (Script.repeatTimes body' n) := by
  induction n with
  | zero => exact Alike.pure rfl
  | succ n ih =>
    refine Alike.bind (V := Eq) (Alike.observe fun _ _ _ => rfl) fun _ _ _ => ?_
    exact Alike.bind h fun _ _ _ => ih

end Script

/-! ## Threads -/

namespace Thread

/-- Two threads of plans that go on alike. -/
inductive Alike (R : σ → σ' → Prop) : Thread σ ω → Thread σ' ω → Prop where
  | ended (result : ω) : Alike R (.ended result) (.ended result)
  | waiting (alarm : Alarm) {next : Plan σ ω} {next' : Plan σ' ω} (h : Plan.Alike R next next') :
      Alike R (.waiting alarm next) (.waiting alarm next')
  | ready (stirred : Bool) {next : Plan σ ω} {next' : Plan σ' ω} (h : Plan.Alike R next next') :
      Alike R (.ready next stirred) (.ready next' stirred)
  | forked {branches : List (Thread σ ω)} {branches' : List (Thread σ' ω)} (line : Line)
      (results : List ω) {next : List ω → Plan σ ω} {next' : List ω → Plan σ' ω}
      (hbranches : List.Forall₂ (Alike R) branches branches')
      (h : ∀ results, Plan.Alike R (next results) (next' results)) :
      Alike R (.forked branches line results next) (.forked branches' line results next')

theorem Alike.result?_eq {t : Thread σ ω} {t' : Thread σ' ω} (h : Alike R t t') :
    t.result? = t'.result? := by
  cases h <;> rfl

theorem live_eq {ts : List (Thread σ ω)} {ts' : List (Thread σ' ω)}
    (h : List.Forall₂ (Alike R) ts ts') : live ts = live ts' := by
  induction h with
  | nil => rfl
  | cons ht _ ih =>
    simp only [live, List.countP_cons] at ih ⊢
    rw [ih, ht.result?_eq]

theorem alike_ofPlan {ps : List (Plan σ ω)} {ps' : List (Plan σ' ω)}
    (h : List.Forall₂ (Plan.Alike R) ps ps') :
    List.Forall₂ (Alike R) (ps.map ofPlan) (ps'.map ofPlan) := by
  induction h with
  | nil => exact .nil
  | cons hp _ ih => exact .cons (.ready false hp) ih

mutual

/-- Threads that are alike wait for the same alarm. -/
theorem due_eq : ∀ (t : Thread σ ω) {t' : Thread σ' ω}, Alike R t t' → t.due = t'.due
  | .ended _, _, h => by cases h; rfl
  | .waiting _ _, _, h => by cases h; rfl
  | .ready _ _, _, h => by cases h; rfl
  | .forked ts _ _ _, _, h => by
    cases h with
    | forked _ _ hbranches _ => exact dueAll_eq ts hbranches

/-- Threads of two lists that are alike wait for the same alarm. -/
theorem dueAll_eq : ∀ (ts : List (Thread σ ω)) {ts' : List (Thread σ' ω)},
    List.Forall₂ (Alike R) ts ts' → dueAll ts = dueAll ts'
  | [], _, h => by cases h; rfl
  | t :: ts, _, h => by
    cases h with
    | cons ht hts =>
      simp only [dueAll]
      rw [due_eq t ht, dueAll_eq ts hts]

end

mutual

/-- A call finds the same waits in threads that are alike, and leaves them alike. -/
theorem call_alike (alarm : Alarm) : ∀ (t : Thread σ ω) {t' : Thread σ' ω}, Alike R t t' →
    Alike R (t.call alarm).1 (t'.call alarm).1 ∧ (t.call alarm).2 = (t'.call alarm).2
  | .ended result, _, h => by
    cases h
    exact ⟨.ended result, rfl⟩
  | .ready _ stirred, _, h => by
    cases h with
    | ready _ hp => exact ⟨.ready stirred hp, rfl⟩
  | .waiting own _, _, h => by
    cases h with
    | waiting _ hp =>
      simp only [call]
      split
      · exact ⟨.ready false hp, rfl⟩
      · exact ⟨.waiting own hp, rfl⟩
  | .forked ts _ results _, _, h => by
    cases h with
    | forked _ _ hbranches hnext =>
      obtain ⟨hthreads, hcalled⟩ := callAll_alike alarm 0 ts hbranches
      simp only [call]
      rw [hcalled]
      exact ⟨.forked _ results hthreads hnext, rfl⟩

/-- A call finds the same waits in lists of threads that are alike, and leaves them alike. -/
theorem callAll_alike (alarm : Alarm) (position : Nat) :
    ∀ (ts : List (Thread σ ω)) {ts' : List (Thread σ' ω)}, List.Forall₂ (Alike R) ts ts' →
      List.Forall₂ (Alike R) (callAll alarm position ts).1 (callAll alarm position ts').1 ∧
        (callAll alarm position ts).2 = (callAll alarm position ts').2
  | [], _, h => by
    cases h
    exact ⟨.nil, rfl⟩
  | t :: ts, _, h => by
    cases h with
    | cons ht hts =>
      obtain ⟨hthread, hcalled⟩ := call_alike alarm t ht
      obtain ⟨hthreads, hpositions⟩ := callAll_alike alarm (position + 1) ts hts
      simp only [callAll]
      rw [hcalled, hpositions]
      exact ⟨.cons hthread hthreads, rfl⟩

end

end Thread

/-- Two steps of which the worlds and the threads are alike afterwards, and which stand alike. -/
structure StepAlike (R : σ → σ' → Prop) (T : α → α' → Prop) (r : σ × α × Standing ω)
    (r' : σ' × α' × Standing ω) : Prop where
  world : R r.1 r'.1
  thread : T r.2.1 r'.2.1
  standing : r.2.2 = r'.2.2

open Thread

/-- Plans that are alike go equally far. -/
theorem Plan.go_alike (number now : Nat) (stirred : Bool) {p : Plan σ ω} {p' : Plan σ' ω} {w : σ}
    {w' : σ'} (h : Plan.Alike R p p') (hw : R w w') :
    StepAlike R (Thread.Alike R) (p.go number now stirred w) (p'.go number now stirred w') := by
  -- A step goes no further than to a fork, so nothing has to be known of the branches.
  refine @Plan.Alike.rec σ σ' ω R
    (fun p p' _ => ∀ {w : σ} {w' : σ'}, R w w' →
      StepAlike R (Thread.Alike R) (p.go number now stirred w) (p'.go number now stirred w'))
    (fun _ _ _ => True) ?done ?look ?put ?wait ?fork ?aside trivial (fun _ _ _ _ => trivial) p p' h w w' hw
  case done =>
    intro result w w' hw
    exact ⟨hw, .ended result, rfl⟩
  case look =>
    intro next next' _ ih w w' hw
    simp only [Plan.go]
    exact ih w w' hw hw
  case put =>
    intro u u' next next' hu _ ih w w' _
    simp only [Plan.go]
    exact ih hu
  case wait =>
    intro ms next next' h ih w w' hw
    simp only [Plan.go]
    split
    · exact ih hw
    · exact ⟨hw, .waiting _ h, rfl⟩
  case fork =>
    intro branches branches' next next' hbranches h _ _ w w' hw
    simp only [Plan.go]
    rw [hbranches.length_eq]
    exact ⟨hw, .forked _ _ (alike_ofPlan hbranches) h, rfl⟩
  case aside =>
    intro p f next p' hgo hf _ ih w w' hw
    rw [hgo]
    exact ih w w' hw (hf w w' hw)

namespace Thread

mutual

/-- Threads that are alike take the same steps. -/
theorem step_alike (number now : Nat) :
    ∀ (t : Thread σ ω) {t' : Thread σ' ω} {w : σ} {w' : σ'}, Alike R t t' → R w w' →
      StepAlike R (Alike R) (t.step number now w) (t'.step number now w')
  | .ended result, _, _, _, h, hw => by
    cases h
    exact ⟨hw, .ended result, rfl⟩
  | .waiting alarm _, _, _, _, h, hw => by
    cases h with
    | waiting _ h => exact ⟨hw, .waiting alarm h, rfl⟩
  | .ready next stirred, _, _, _, h, hw => by
    cases h with
    | ready _ h => exact Plan.go_alike number now stirred h hw
  | .forked ts line results _, _, w, w', h, hw => by
    cases h with
    | @forked _ ts' _ _ _ next' hbranches hnext =>
      simp only [step]
      cases line.queue with
      | nil =>
        simp only [live_eq hbranches]
        split
        · exact ⟨hw, .ready _ (hnext results), rfl⟩
        · exact ⟨hw, .forked _ results hbranches hnext, rfl⟩
      | cons i _ =>
        dsimp only
        have hstep := stepAt_alike number now i ts hbranches hw
        generalize stepAt number now i ts w = r at hstep
        generalize stepAt number now i ts' w' = r' at hstep
        obtain ⟨v, us, standing⟩ := r
        obtain ⟨v', us', standing'⟩ := r'
        obtain ⟨hworld, hthreads, hstanding⟩ := hstep
        simp only at hworld hthreads hstanding
        subst hstanding
        cases standing with
        | kept => exact ⟨hworld, .forked _ results hthreads hnext, rfl⟩
        | refused => exact ⟨hworld, .forked _ results hthreads hnext, rfl⟩
        | last result again => exact ⟨hworld, .forked _ _ hthreads hnext, rfl⟩
        | back again =>
          simp only [live_eq hthreads]
          split
          · exact ⟨hworld, .forked _ results hthreads hnext, rfl⟩
          · exact ⟨hworld, .forked _ results hthreads hnext, rfl⟩

/-- A step of one thread in a list leaves lists of threads that are alike so, with the same standing. -/
theorem stepAt_alike (number now : Nat) :
    ∀ (i : Nat) (ts : List (Thread σ ω)) {ts' : List (Thread σ' ω)} {w : σ} {w' : σ'},
      List.Forall₂ (Alike R) ts ts' → R w w' →
      StepAlike R (List.Forall₂ (Alike R)) (stepAt number now i ts w) (stepAt number now i ts' w')
  | _, [], _, _, _, h, hw => by
    cases h
    exact ⟨hw, .nil, rfl⟩
  | 0, t :: ts, _, _, _, h, hw => by
    cases h with
    | cons ht hts =>
      obtain ⟨hworld, hthread, hstanding⟩ := step_alike number now t ht hw
      exact ⟨hworld, .cons hthread hts, hstanding⟩
  | i + 1, t :: ts, _, _, _, h, hw => by
    cases h with
    | cons ht hts =>
      obtain ⟨hworld, hthreads, hstanding⟩ := stepAt_alike number now i ts hts hw
      exact ⟨hworld, .cons ht hthreads, hstanding⟩

end

end Thread

/-! ## Runs -/

namespace Host

variable {τ τ' η η' κ κ' δ δ' : Type}

/-- A relation between the worlds of two runs which show the same time and stay related when the outboxes catch up or do what
    comes at this time. -/
structure Tied (h : Host τ η κ δ) (h' : Host τ' η' κ' δ')
    (R : RunState τ κ δ → RunState τ' κ' δ' → Prop) : Prop where
  clock : ∀ s s', R s s' → s.outbox.clock = s'.outbox.clock
  catchUp : ∀ now s s', R s s' → R (h.catchUp now s) (h'.catchUp now s')
  giveWay : ∀ standing s s', R s s' → R (h.giveWay standing s) (h'.giveWay standing s')

/-- Programs that go on alike are driven equally far. -/
theorem drive_alike {h : Host τ η κ δ} {h' : Host τ' η' κ' δ'}
    {R : RunState τ κ δ → RunState τ' κ' δ' → Prop} (tied : Tied h h' R) (limit : Option Nat)
    (number : Nat) (awake : Bool) (s : RunState τ κ δ) (t : Running τ κ δ)
    {s' : RunState τ' κ' δ'} {t' : Running τ' κ' δ'} (hs : R s s') (ht : Alike R t t') :
    R (h.drive limit number awake s t).1 (h'.drive limit number awake s' t').1 ∧
      Alike R (h.drive limit number awake s t).2 (h'.drive limit number awake s' t').2 := by
  induction number, awake, s, t using drive.induct h limit generalizing s' t' with
  | case1 number s t next =>
    rename_i ih
    obtain ⟨hworld, hthread, hstanding⟩ := step_alike number s.outbox.clock t ht hs
    rw [drive_step, drive_step, ← tied.clock s s' hs, ← hstanding]
    exact ih (tied.giveWay _ _ _ hworld) hthread
  | case2 number awake s t hawake hnone =>
    have hnone' := (due_eq t ht).symm.trans hnone
    rw [h.drive_of_none hawake hnone, h'.drive_of_none hawake hnone']
    exact ⟨hs, ht⟩
  | case3 number awake s t hawake alarm hsome hreach =>
    have hsome' := (due_eq t ht).symm.trans hsome
    rw [h.drive_of_reaches hawake hsome hreach, h'.drive_of_reaches hawake hsome' hreach]
    exact ⟨hs, ht⟩
  | case4 number awake s t hawake alarm hsome hreach called =>
    rename_i ih
    have hsome' := (due_eq t ht).symm.trans hsome
    obtain ⟨hcalled, _⟩ := call_alike alarm t ht
    rw [h.drive_of_due hawake hsome hreach, h'.drive_of_due hawake hsome' hreach,
      ← due_eq _ hcalled]
    exact ih (tied.catchUp _ _ _ hs) hcalled

end Host

end Playbook
