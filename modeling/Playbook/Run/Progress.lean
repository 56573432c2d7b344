import Playbook.Run.Thread

/-!
# `Playbook.Run.Progress` — every thread comes to its end

Each step and each call brings a thread nearer to its end, in an order that has no infinite chain
(`Thread.step_nearer`, `Thread.call_nearer`), whatever happens to the world in between. A run may therefore repeat them
until the thread has ended.

What counts first is how far the plans have come. `Next` says that a plan in a thread went on, of which `core` keeps only
the plans; it has no infinite chain (`Thread.acc_next`), since a plan has none. Steps in which no plan goes on end a wait,
let somebody leave a queue, or make what was stirred deeper inside known further out.

## Contents
- **Plans.** `core`, `Next`, and `NextIn` for lists of threads.
- **Lists.** `acc_nextIn`: a list of threads comes to its end if each of them does.
- **Threads.** `acc_forked`, `Plan.acc_go`, `Thread.acc_next`.
- **Numbers.** `waits`, `queued`, `stirs`, and `Lessens`, what a step does to them.
- **Steps.** `step_lessens`, `call_waits`.
- **The order.** `Thread.rank`, `step_nearer`, `call_nearer`.
-/

namespace Playbook

variable {σ ω : Type}

namespace Thread

/-! ## Plans -/

mutual

/-- A thread without its queues: only how far its plans have come. -/
def core : Thread σ ω → Thread σ ω
  | ended result => ended result
  | waiting _ next => ready next false
  | ready next _ => ready next false
  | forked branches _ results next => forked (coreAll branches) (.fresh 0 false) results next

/-- `core` for each thread of a list. -/
def coreAll : List (Thread σ ω) → List (Thread σ ω)
  | [] => []
  | t :: threads => core t :: coreAll threads

end

mutual

/-- What may be left of a thread when a plan in it goes on. -/
inductive Next : Thread σ ω → Thread σ ω → Prop where
  | go {number now : Nat} {stirred : Bool} {next : Plan σ ω} {world : σ} :
      Next (next.go number now stirred world).2.1.core (.ready next false)
  | inside {ts' ts : List (Thread σ ω)} {line' line : Line} {results' results : List ω}
      {next : List ω → Plan σ ω} :
      NextIn ts' ts → Next (.forked ts' line' results' next) (.forked ts line results next)
  | join {ts : List (Thread σ ω)} {line : Line} {results' results : List ω}
      {next : List ω → Plan σ ω} :
      Next (.ready (next results') false) (.forked ts line results next)

/-- What may be left of a list of threads when a plan in one of them goes on. -/
inductive NextIn : List (Thread σ ω) → List (Thread σ ω) → Prop where
  | here {t' t : Thread σ ω} {ts : List (Thread σ ω)} :
      Next t' t → NextIn (t' :: ts) (t :: ts)
  | there {t : Thread σ ω} {ts' ts : List (Thread σ ω)} :
      NextIn ts' ts → NextIn (t :: ts') (t :: ts)

end

/-! ## Lists -/

/-- A thread and a list that come to their ends do so together. -/
theorem acc_nextIn_cons {t : Thread σ ω} (ht : Acc Next t) :
    ∀ {ts : List (Thread σ ω)}, Acc NextIn ts → Acc NextIn (t :: ts) := by
  induction ht with
  | intro t _ ih =>
    intro ts hts
    induction hts with
    | intro ts hts ih' =>
      constructor
      intro l hl
      cases hl with
      | here hn => exact ih _ hn (Acc.intro ts hts)
      | there hn => exact ih' _ hn

/-- A list of threads comes to its end if each of them does. -/
theorem acc_nextIn {ts : List (Thread σ ω)} (h : ∀ t ∈ ts, Acc Next t) : Acc NextIn ts := by
  induction ts with
  | nil =>
    constructor
    intro l hl
    cases hl
  | cons t ts ih =>
    apply acc_nextIn_cons (h t (by simp))
    exact ih fun t ht => h t (by simp [ht])

/-! ## Threads -/

/-- A thread that has ended comes to its end. -/
theorem acc_ended (result : ω) : Acc Next (ended result : Thread σ ω) := by
  constructor
  intro t ht
  cases ht

/-- A thread that can go on comes to its end if its plan does. -/
theorem acc_ready {next : Plan σ ω} {stirred : Bool}
    (h : ∀ number now stirred world, Acc Next (next.go number now stirred world).2.1.core) :
    Acc Next (ready next stirred) := by
  constructor
  intro t ht
  cases ht
  exact h _ _ _ _

/-- A forked thread comes to its end if its branches and what follows them do. -/
theorem acc_forked {next : List ω → Plan σ ω}
    (hnext : ∀ results, Acc Next (ready (next results) false)) :
    ∀ {ts : List (Thread σ ω)}, Acc NextIn ts →
      ∀ line results, Acc Next (forked ts line results next) := by
  intro ts hts
  induction hts with
  | intro ts _ ih =>
    intro line results
    constructor
    intro t ht
    cases ht with
    | inside hn => exact ih _ hn _ _
    | join => exact hnext _

end Thread

open Thread

mutual

/-- What a plan leaves comes to its end. -/
theorem Plan.acc_go :
    ∀ (p : Plan σ ω) (number now : Nat) (stirred : Bool) (world : σ),
      Acc Next (p.go number now stirred world).2.1.core
  | .done result, number, now, stirred, world => by
    simp only [Plan.go, core]
    exact acc_ended result
  | .look next, number, now, stirred, world => by
    simp only [Plan.go]
    exact Plan.acc_go (next world) number now stirred world
  | .put world next, number, now, stirred, _ => by
    simp only [Plan.go]
    exact Plan.acc_go next number now stirred world
  | .wait ms next, number, now, stirred, world => by
    simp only [Plan.go]
    split
    · exact Plan.acc_go next number now stirred world
    · exact acc_ready (Plan.acc_go next)
  | .fork branches next, number, now, stirred, world => by
    have hnext : ∀ results, Acc Next (ready (next results) false) :=
      fun results => acc_ready (Plan.acc_go (next results))
    simp only [Plan.go, core]
    exact acc_forked hnext (acc_nextIn (Plan.acc_goAll branches)) _ _

/-- Threads of plans that have yet to begin come to their ends. -/
theorem Plan.acc_goAll :
    ∀ (ps : List (Plan σ ω)), ∀ t ∈ coreAll (ps.map Thread.ofPlan), Acc Next t
  | [] => by
    intro t ht
    cases ht
  | p :: ps => by
    intro t ht
    simp only [List.map_cons, coreAll, Thread.ofPlan, core, List.mem_cons] at ht
    rcases ht with rfl | ht
    · exact acc_ready (Plan.acc_go p)
    · exact Plan.acc_goAll ps t ht

end

mutual

/-- Every thread comes to its end. -/
theorem Thread.acc_next : ∀ t : Thread σ ω, Acc Next t
  | .ended result => acc_ended result
  | .waiting _ _ => by
    constructor
    intro t ht
    cases ht
  | .ready next _ => acc_ready (Plan.acc_go next)
  | .forked ts _ _ next =>
    acc_forked (fun results => acc_ready (Plan.acc_go (next results)))
      (acc_nextIn (Thread.acc_nextAll ts)) _ _

/-- Every thread of a list comes to its end. -/
theorem Thread.acc_nextAll : ∀ (ts : List (Thread σ ω)), ∀ t ∈ ts, Acc Next t
  | [] => by
    intro t ht
    cases ht
  | t :: ts => by
    intro u hu
    rcases List.mem_cons.1 hu with heq | hu
    · rw [heq]
      exact Thread.acc_next t
    · exact Thread.acc_nextAll ts u hu

end

/-- The order in which the plans of threads come nearer to their ends. -/
instance Thread.wellFounded : WellFoundedRelation (Thread σ ω) where
  rel := Next
  wf := ⟨Thread.acc_next⟩

namespace Thread

/-! ## Numbers -/

mutual

/-- How many waits there are in a thread. -/
def waits : Thread σ ω → Nat
  | waiting _ _ => 1
  | forked branches _ _ _ => waitsAll branches
  | _ => 0

/-- How many waits there are in the threads of a list. -/
def waitsAll : List (Thread σ ω) → Nat
  | [] => 0
  | t :: threads => waits t + waitsAll threads

end

mutual

/-- How many stand in the queues of a thread. -/
def queued : Thread σ ω → Nat
  | forked branches line _ _ => line.queue.length + queuedAll branches
  | _ => 0

/-- How many stand in the queues of the threads of a list. -/
def queuedAll : List (Thread σ ω) → Nat
  | [] => 0
  | t :: threads => queued t + queuedAll threads

end

mutual

/-- The forks that are stirred in a thread which lies in a number of forks; the deeper one lies, the more it counts. -/
def stirs (depth : Nat) : Thread σ ω → Nat
  | forked branches line _ _ =>
    (if line.stirred then depth + 1 else 0) + stirsAll (depth + 1) branches
  | _ => 0

/-- `stirs` added up for the threads of a list. -/
def stirsAll (depth : Nat) : List (Thread σ ω) → Nat
  | [] => 0
  | t :: threads => stirs depth t + stirsAll depth threads

end

/-- What a step in which no plan goes on does to the numbers of those who are queued and of those who are stirred. -/
def Lessens (depth : Nat) (standing : Standing ω) (queued' stirs' queued stirs : Nat) : Prop :=
  match standing with
  | .kept => queued' < queued ∨ queued' = queued ∧ stirs' < stirs
  -- Less by as much as the fork around it may count more.
  | .back true => queued' < queued ∨ queued' = queued ∧ stirs' + (depth + 1) ≤ stirs
  | .back false | .refused => queued' = queued ∧ stirs' = stirs
  | .last _ _ => False

/-- When the branch at the head of a queue hands the floor back, the numbers of the fork get less, whether the fork keeps the
floor or hands it back as well. -/
theorem pass_lessens {depth i : Nat} {tail : List Nat} {line : Line} {again : Bool}
    {ts ts' : List (Thread σ ω)} (hq : line.queue = i :: tail)
    (h : Lessens (depth + 1) (.back again : Standing ω) (queuedAll ts') (stirsAll (depth + 1) ts')
      (queuedAll ts) (stirsAll (depth + 1) ts)) (results : List ω) (next : List ω → Plan σ ω) :
    Lessens depth (.kept : Standing ω) (queued (forked ts' (line.pass again) results next))
        (stirs depth (forked ts' (line.pass again) results next))
        (queued (forked ts line results next)) (stirs depth (forked ts line results next)) ∧
      Lessens depth (.back true : Standing ω)
        (queued (forked ts' (line.pass again).rest results next))
        (stirs depth (forked ts' (line.pass again).rest results next))
        (queued (forked ts line results next)) (stirs depth (forked ts line results next)) := by
  obtain ⟨queue, handed, yielded, stirred⟩ := line
  simp only at hq
  subst hq
  cases again with
  | false =>
    constructor
    · simp [Lessens, queued, stirs, Line.pass] at h ⊢
      omega
    · simp [Lessens, queued, stirs, Line.pass, Line.rest] at h ⊢
      omega
  | true =>
    constructor
    · simp [Lessens, queued, stirs, Line.pass] at h ⊢
      omega
    · simp [Lessens, queued, stirs, Line.pass, Line.rest] at h ⊢
      omega

/-! ## Steps -/

mutual

/-- In a step a plan goes on, or the numbers get less. -/
theorem step_lessens (number now : Nat) :
    ∀ (t : Thread σ ω) (world : σ) (depth : Nat),
      Next (t.step number now world).2.1.core t.core ∨
        (t.step number now world).2.1.core = t.core ∧
        (t.step number now world).2.1.waits = t.waits ∧
        Lessens depth (t.step number now world).2.2 (t.step number now world).2.1.queued
          ((t.step number now world).2.1.stirs depth) t.queued (t.stirs depth)
  | ended result, world, depth => by
    right
    simp [step, Lessens]
  | waiting alarm next, world, depth => by
    right
    simp [step, Lessens]
  | ready next stirred, world, depth => by
    left
    simp only [step, core]
    exact Next.go
  | forked ts line results next, world, depth => by
    simp only [step]
    split
    · rename_i hq
      split
      · left
        simp only [core]
        exact Next.join
      · right
        obtain ⟨queue, handed, yielded, stirred⟩ := line
        simp only at hq
        subst hq
        refine ⟨by simp [core], by simp [waits], ?_⟩
        cases stirred with
        | false => simp [Line.rest, queued, stirs, Lessens]
        | true =>
          simp [Line.rest, queued, stirs, Lessens]
          omega
    · rename_i i tail hq
      have ht := stepAt_lessens number now i ts world (depth + 1)
      cases hr : stepAt number now i ts world with
      | mk world' rest =>
        obtain ⟨ts', standing⟩ := rest
        rw [hr] at ht
        simp only at ht ⊢
        rcases ht with hnext | ⟨hcore, hwaits, hless⟩
        · left
          cases standing with
          | kept => exact Next.inside hnext
          | refused => exact Next.inside hnext
          | last result again => exact Next.inside hnext
          | back again =>
            simp only
            split
            · exact Next.inside hnext
            · exact Next.inside hnext
        · right
          cases standing with
          | kept =>
            refine ⟨by simp [core, hcore], by simp [waits, hwaits], ?_⟩
            simp only [Lessens, queued, stirs] at hless ⊢
            omega
          | refused =>
            refine ⟨by simp [core, hcore], by simp [waits, hwaits], ?_⟩
            simp only [Lessens, queued, stirs, Line.skip, hq, List.tail_cons, List.length_cons] at hless ⊢
            omega
          | last result again => exact hless.elim
          | back again =>
            obtain ⟨hkept, hback⟩ := pass_lessens hq hless results next
            simp only
            split
            · exact ⟨by simp [core, hcore], by simp [waits, hwaits], hback⟩
            · exact ⟨by simp [core, hcore], by simp [waits, hwaits], hkept⟩

/-- In a step of a thread in a list a plan goes on, or the numbers of the list get less as `Lessens` says. -/
theorem stepAt_lessens (number now : Nat) :
    ∀ (i : Nat) (ts : List (Thread σ ω)) (world : σ) (depth : Nat),
      NextIn (coreAll (stepAt number now i ts world).2.1) (coreAll ts) ∨
        coreAll (stepAt number now i ts world).2.1 = coreAll ts ∧
        waitsAll (stepAt number now i ts world).2.1 = waitsAll ts ∧
        Lessens depth (stepAt number now i ts world).2.2
          (queuedAll (stepAt number now i ts world).2.1)
          (stirsAll depth (stepAt number now i ts world).2.1) (queuedAll ts) (stirsAll depth ts)
  | _, [], world, depth => by
    right
    simp [stepAt, Lessens]
  | 0, t :: ts, world, depth => by
    have ht := step_lessens number now t world depth
    cases hr : step number now t world with
    | mk world' rest =>
      obtain ⟨t', standing⟩ := rest
      rw [hr] at ht
      simp only [stepAt, hr, coreAll, waitsAll, queuedAll, stirsAll] at ht ⊢
      rcases ht with hnext | ⟨hcore, hwaits, hless⟩
      · exact .inl (NextIn.here hnext)
      · refine .inr ⟨by rw [hcore], by rw [hwaits], ?_⟩
        rcases standing with _ | (_ | _) | _ | _ <;> simp only [Lessens] at hless ⊢ <;> omega
  | i + 1, t :: ts, world, depth => by
    have ht := stepAt_lessens number now i ts world depth
    cases hr : stepAt number now i ts world with
    | mk world' rest =>
      obtain ⟨ts', standing⟩ := rest
      rw [hr] at ht
      simp only [stepAt, hr, coreAll, waitsAll, queuedAll, stirsAll] at ht ⊢
      rcases ht with hnext | ⟨hcore, hwaits, hless⟩
      · exact .inl (NextIn.there hnext)
      · refine .inr ⟨by rw [hcore], by rw [hwaits], ?_⟩
        rcases standing with _ | (_ | _) | _ | _ <;> simp only [Lessens] at hless ⊢ <;> omega

end

theorem earlier_eq_some {a b : Option Alarm} {alarm : Alarm} (h : Alarm.earlier a b = some alarm) :
    a = some alarm ∨ b = some alarm := by
  cases a with
  | none => exact .inr (by simpa [Alarm.earlier] using h)
  | some a =>
    cases b with
    | none => exact .inl (by simpa [Alarm.earlier] using h)
    | some b =>
      simp only [Alarm.earlier, Option.some.injEq] at h
      split at h
      · exact .inl (by rw [h])
      · exact .inr (by rw [h])

mutual

/-- A call leaves all plans where they are and ends waits, if there is one with the alarm. -/
theorem call_waits (alarm : Alarm) :
    ∀ t : Thread σ ω, (t.call alarm).1.core = t.core ∧ (t.call alarm).1.waits ≤ t.waits ∧
      (t.due = some alarm → (t.call alarm).1.waits < t.waits)
  | ended result => by simp [call, due]
  | ready next stirred => by simp [call, due]
  | waiting own next => by
    simp only [call]
    split
    · simp [core, waits]
    · rename_i h
      simp [due, h]
  | forked ts line results next => by
    obtain ⟨hcore, hle, hlt⟩ := callAll_waits alarm 0 ts
    simp only [call, core, waits, due]
    exact ⟨by rw [hcore], hle, hlt⟩

/-- A call leaves all plans in a list of threads where they are and ends waits, if there is one with the alarm. -/
theorem callAll_waits (alarm : Alarm) (position : Nat) :
    ∀ ts : List (Thread σ ω), coreAll (callAll alarm position ts).1 = coreAll ts ∧
      waitsAll (callAll alarm position ts).1 ≤ waitsAll ts ∧
      (dueAll ts = some alarm → waitsAll (callAll alarm position ts).1 < waitsAll ts)
  | [] => by simp [callAll, dueAll]
  | t :: ts => by
    obtain ⟨hcore, hle, hlt⟩ := call_waits alarm t
    obtain ⟨hcore', hle', hlt'⟩ := callAll_waits alarm (position + 1) ts
    simp only [callAll, coreAll, waitsAll, dueAll]
    refine ⟨by rw [hcore, hcore'], by omega, fun h => ?_⟩
    rcases earlier_eq_some h with h | h
    · have := hlt h
      omega
    · have := hlt' h
      omega

end

/-! ## The order -/

/-- How far a thread is from its end; the flag says whether it has the floor. -/
def rank (t : Thread σ ω) (awake : Bool) : Thread σ ω × Nat × Nat × Nat × Nat :=
  (t.core, t.waits, t.queued, t.stirs 0, awake.toNat)

/-- Whether one rank lies before another: plans that have come further count first, then fewer waits, shorter queues and
    less that is stirred. -/
abbrev Nearer (a b : Thread σ ω × Nat × Nat × Nat × Nat) : Prop :=
  WellFoundedRelation.rel a b

/-- A step brings a thread nearer to its end. -/
theorem step_nearer (number now : Nat) (t : Thread σ ω) (world : σ) :
    Nearer ((t.step number now world).2.1.rank (t.step number now world).2.2.goesOn)
      (t.rank true) := by
  have h := step_lessens number now t world 0
  cases hr : t.step number now world with
  | mk world' rest =>
    obtain ⟨t', standing⟩ := rest
    rw [hr] at h
    simp only at h ⊢
    rcases h with hnext | ⟨hcore, hwaits, hless⟩
    · exact Prod.Lex.left _ _ hnext
    · simp only [rank, hcore, hwaits]
      apply Prod.Lex.right
      apply Prod.Lex.right
      rcases standing with _ | (_ | _) | _ | _
      · rcases hless with hq | ⟨hq, hs⟩
        · exact Prod.Lex.left _ _ hq
        · rw [hq]
          exact Prod.Lex.right _ (Prod.Lex.left _ _ hs)
      · obtain ⟨hq, hs⟩ := hless
        rw [hq, hs]
        exact Prod.Lex.right _ (Prod.Lex.right _ Nat.zero_lt_one)
      · rcases hless with hq | ⟨hq, hs⟩
        · exact Prod.Lex.left _ _ hq
        · rw [hq]
          exact Prod.Lex.right _ (Prod.Lex.left _ _ (Nat.lt_of_succ_le hs))
      · exact hless.elim
      · obtain ⟨hq, hs⟩ := hless
        rw [hq, hs]
        exact Prod.Lex.right _ (Prod.Lex.right _ Nat.zero_lt_one)

/-- Ending the wait that ends first brings a thread nearer to its end. -/
theorem call_nearer {t : Thread σ ω} {alarm : Alarm} (h : t.due = some alarm) (awake before : Bool) :
    Nearer ((t.call alarm).1.rank awake) (t.rank before) := by
  obtain ⟨hcore, _, hlt⟩ := call_waits alarm t
  simp only [rank, hcore]
  exact Prod.Lex.right _ (Prod.Lex.left _ _ (hlt h))

end Thread

end Playbook
