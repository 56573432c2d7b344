import Playbook.Run.Execution

/-!
# `Proofs.Run.Floor` — no thread is forgotten

A branch that can go on stands in the queue of its fork. So when the floor is with nobody and no wait is left to end, there is
nothing that could still go on, and a run comes to the end of its program unless its limit comes first.

## Contents
- **Threads.** `Idle` threads have nothing to do before a wait ends; `Heeded` is the invariant.
- **Steps.** `go_heeded`, `step_heeded`, `call_heeded`.
- **Runs.** `due_of_idle`, `Host.drive_result`.
-/

namespace Playbook

variable {σ ω : Type}

namespace Thread

/-! ## Threads -/

/-- Whether a thread has nothing to do before a wait ends: it has ended, or waits, or its branches do. -/
def Idle : Thread σ ω → Prop
  | ended _ => True
  | waiting _ _ => True
  | ready _ _ => False
  | forked branches line _ _ => line.queue = [] ∧ live branches ≠ 0

mutual

/-- Whether all branches in a thread that have something to do stand in the queues. -/
def Heeded : Thread σ ω → Prop
  | forked branches line _ _ => HeededAll line.queue 0 branches
  | _ => True

/-- `Heeded` for branches that stand from a position on, with the queue of their fork. -/
def HeededAll (queue : List Nat) (position : Nat) : List (Thread σ ω) → Prop
  | [] => True
  | t :: threads =>
    (Heeded t ∧ (Idle t ∨ position ∈ queue)) ∧ HeededAll queue (position + 1) threads

end

/-- Who stands in one queue may as well stand in a longer one. -/
theorem HeededAll.mono {queue queue' : List Nat} (hsub : queue ⊆ queue') :
    ∀ {position : Nat} {ts : List (Thread σ ω)},
      HeededAll queue position ts → HeededAll queue' position ts
  | _, [], _ => trivial
  | _, _ :: _, ⟨⟨ht, hplace⟩, hts⟩ => ⟨⟨ht, hplace.imp_right (@hsub _)⟩, hts.mono hsub⟩

/-- Branches do not need the places of those before them. -/
theorem HeededAll.tail {queue : List Nat} {i : Nat} :
    ∀ {position : Nat} {ts : List (Thread σ ω)}, i < position →
      HeededAll (i :: queue) position ts → HeededAll queue position ts
  | _, [], _, _ => trivial
  | position, _ :: _, hlt, ⟨⟨ht, hplace⟩, hts⟩ => by
    refine ⟨⟨ht, hplace.imp_right fun hmem => ?_⟩, hts.tail (Nat.lt_succ_of_lt hlt)⟩
    rcases List.mem_cons.1 hmem with heq | hmem
    · omega
    · exact hmem

/-- The branches of a fork that has just begun all stand in its queue. -/
theorem heededAll_ofPlan {queue : List Nat} : ∀ {position : Nat} {ps : List (Plan σ ω)},
    (∀ i, position ≤ i → i < position + ps.length → i ∈ queue) →
      HeededAll queue position (ps.map ofPlan)
  | _, [], _ => trivial
  | position, p :: ps, h => by
    refine ⟨⟨trivial, .inr (h position (Nat.le_refl _) (by simp))⟩, heededAll_ofPlan ?_⟩
    intro i hle hlt
    exact h i (by omega) (by simp only [List.length_cons]; omega)

end Thread

open Thread

/-! ## Steps -/

/-- Where a plan stops it has the floor or waits. -/
theorem Plan.go_heeded (number now : Nat) (stirred : Bool) : ∀ (p : Plan σ ω) (world : σ),
    Heeded (p.go number now stirred world).2.1 ∧
      ((p.go number now stirred world).2.2.goesOn = false →
        Idle (p.go number now stirred world).2.1)
  | .done _, _ => ⟨trivial, fun _ => trivial⟩
  | .look next, world => by
    simp only [Plan.go]
    exact go_heeded number now stirred (next world) world
  | .put world next, _ => by
    simp only [Plan.go]
    exact go_heeded number now stirred next world
  | .wait ms next, world => by
    simp only [Plan.go]
    split
    · exact go_heeded number now stirred next world
    · exact ⟨trivial, fun _ => trivial⟩
  | .fork branches next, world => by
    simp only [Plan.go]
    refine ⟨heededAll_ofPlan fun i _ hlt => ?_, nofun⟩
    simpa [Line.fresh] using hlt

namespace Thread

mutual

/-- After a step a thread goes on, or it has nothing to do. -/
theorem step_heeded (number now : Nat) : ∀ (t : Thread σ ω) (world : σ), Heeded t →
    Heeded (t.step number now world).2.1 ∧
      ((t.step number now world).2.2.goesOn = false → Idle (t.step number now world).2.1)
  | ended _, _, _ => ⟨trivial, fun _ => trivial⟩
  | waiting _ _, _, _ => ⟨trivial, fun _ => trivial⟩
  | ready next stirred, world, _ => Plan.go_heeded number now stirred next world
  | forked ts line results next, world, h => by
    simp only [step]
    split
    · rename_i hq
      split
      · exact ⟨trivial, nofun⟩
      · rename_i hlive
        exact ⟨h, fun _ => ⟨hq, hlive⟩⟩
    · rename_i i tail hq
      simp only [Heeded, hq] at h
      rw [← Nat.zero_add i] at h
      have hts := stepAt_heeded number now i ts world h
      rw [Nat.zero_add] at hts
      cases hr : stepAt number now i ts world with
      | mk world' rest =>
        obtain ⟨ts', standing⟩ := rest
        rw [hr] at hts
        cases standing with
        | kept =>
          refine ⟨?_, nofun⟩
          simpa [Heeded, hq, Standing.goesOn] using hts
        | refused =>
          refine ⟨?_, nofun⟩
          simpa [Heeded, hq, Standing.goesOn, Line.skip] using hts
        | last result again =>
          refine ⟨?_, nofun⟩
          simpa [Heeded, hq, Standing.goesOn, Line.leave] using hts
        | back again =>
          -- Who gives way stands in the queue again, at the other end of it.
          have hpass : HeededAll (line.pass again).queue 0 ts' := by
            cases again with
            | false => simpa [hq, Standing.goesOn, Line.pass] using hts
            | true =>
              have hsub : i :: tail ⊆ tail ++ [i] := by simp
              simpa [hq, Standing.goesOn, Line.pass] using
                HeededAll.mono hsub (by simpa [Standing.goesOn] using hts)
          simp only
          split
          · exact ⟨hpass, nofun⟩
          · exact ⟨hpass, nofun⟩

/-- The branch at the head of a queue keeps its place, or it has nothing to do. -/
theorem stepAt_heeded (number now : Nat) :
    ∀ (i : Nat) (ts : List (Thread σ ω)) (world : σ) {position : Nat} {queue : List Nat},
      HeededAll ((position + i) :: queue) position ts →
      HeededAll
        (if (stepAt number now i ts world).2.2.goesOn then (position + i) :: queue else queue)
        position (stepAt number now i ts world).2.1
  | _, [], _, _, _, _ => trivial
  | 0, t :: ts, world, position, queue, ⟨⟨ht, _⟩, hts⟩ => by
    have hstep := step_heeded number now t world ht
    cases hr : step number now t world with
    | mk world' rest =>
      obtain ⟨t', standing⟩ := rest
      rw [hr] at hstep
      obtain ⟨hheeded, hidle⟩ := hstep
      simp only [stepAt, hr, Nat.add_zero] at hts ⊢
      cases hgoes : standing.goesOn with
      | true => exact ⟨⟨hheeded, .inr (by simp)⟩, hts⟩
      | false => exact ⟨⟨hheeded, .inl (hidle hgoes)⟩, hts.tail (Nat.lt_succ_self _)⟩
  | i + 1, t :: ts, world, position, queue, ⟨⟨ht, hplace⟩, hts⟩ => by
    have hshift : position + (i + 1) = position + 1 + i := by omega
    rw [hshift] at hts hplace ⊢
    have hrest := stepAt_heeded number now i ts world hts
    cases hr : stepAt number now i ts world with
    | mk world' rest =>
      obtain ⟨ts', standing⟩ := rest
      rw [hr] at hrest
      simp only [stepAt, hr]
      refine ⟨⟨ht, hplace.imp_right fun hmem => ?_⟩, hrest⟩
      have hmem : position ∈ queue := by
        rcases List.mem_cons.1 hmem with heq | hmem
        · omega
        · exact hmem
      split
      · exact List.mem_cons_of_mem _ hmem
      · exact hmem

end

theorem result?_call (alarm : Alarm) (t : Thread σ ω) :
    (t.call alarm).1.result? = t.result? := by
  cases t with
  | waiting own next =>
    simp only [call]
    split <;> rfl
  | _ => rfl

/-- A call ends no thread. -/
theorem live_callAll (alarm : Alarm) (position : Nat) (ts : List (Thread σ ω)) :
    live (callAll alarm position ts).1 = live ts := by
  induction ts generalizing position with
  | nil => rfl
  | cons t ts ih =>
    simp only [live, callAll, List.countP_cons] at ih ⊢
    rw [ih, result?_call]

mutual

/-- Who is called comes to stand in a queue, and who is not is as before. -/
theorem call_heeded (alarm : Alarm) : ∀ t : Thread σ ω, Heeded t →
    Heeded (t.call alarm).1 ∧ ((t.call alarm).2 = false → Idle t → Idle (t.call alarm).1)
  | ended _, h => ⟨h, fun _ hidle => hidle⟩
  | ready _ _, h => ⟨h, fun _ hidle => hidle⟩
  | waiting own next, h => by
    simp only [call]
    split
    · exact ⟨trivial, nofun⟩
    · exact ⟨h, fun _ hidle => hidle⟩
  | forked ts line results next, h => by
    simp only [call]
    refine ⟨callAll_heeded alarm ts h ?_ ?_, fun hnone hidle => ⟨?_, ?_⟩⟩
    · exact List.subset_append_left _ _
    · intro i hi
      by_cases hmem : i ∈ line.queue
      · exact List.mem_append_left _ hmem
      · exact List.mem_append_right _ (List.mem_filter.2 ⟨hi, by simpa using hmem⟩)
    · have hcalled : (callAll alarm 0 ts).2 = [] := by simpa using hnone
      simp [Line.join, hcalled, hidle.1]
    · rw [live_callAll]
      exact hidle.2

/-- Branches stay heeded in a call, with a queue in which the old places are kept and those who are called have one. -/
theorem callAll_heeded (alarm : Alarm) :
    ∀ (ts : List (Thread σ ω)) {position : Nat} {queue queue' : List Nat},
      HeededAll queue position ts → queue ⊆ queue' →
      (callAll alarm position ts).2 ⊆ queue' →
      HeededAll queue' position (callAll alarm position ts).1
  | [], _, _, _, _, _, _ => trivial
  | t :: ts, position, queue, queue', ⟨⟨ht, hplace⟩, hts⟩, hsub, hcalled => by
    obtain ⟨hheeded, hidle⟩ := call_heeded alarm t ht
    simp only [callAll] at hcalled ⊢
    cases hc : (call alarm t).2 with
    | true =>
      rw [hc, if_pos rfl, List.cons_subset] at hcalled
      exact ⟨⟨hheeded, .inr hcalled.1⟩, callAll_heeded alarm ts hts hsub hcalled.2⟩
    | false =>
      rw [hc, if_neg Bool.false_ne_true] at hcalled
      refine ⟨⟨hheeded, ?_⟩, callAll_heeded alarm ts hts hsub hcalled⟩
      exact hplace.imp (hidle hc) (@hsub _)

end

/-! ## Runs -/

theorem earlier_eq_none {a b : Option Alarm} (h : Alarm.earlier a b = none) :
    a = none ∧ b = none := by
  cases a with
  | none => exact ⟨rfl, by simpa [Alarm.earlier] using h⟩
  | some a => cases b <;> simp [Alarm.earlier] at h

mutual

/-- A thread that has nothing to do, and in which no wait is left, has ended. -/
theorem due_of_idle : ∀ t : Thread σ ω, Heeded t → Idle t → t.due = none → t.result? ≠ none
  | ended _, _, _, _ => nofun
  | waiting _ _, _, _, hdue => nomatch hdue
  | ready _ _, _, hidle, _ => hidle.elim
  | forked ts line results next, h, hidle, hdue => by
    simp only [Heeded, hidle.1] at h
    exact absurd (live_of_idle ts h hdue) hidle.2

/-- Branches of which none stands in the queue, and in which no wait is left, have ended. -/
theorem live_of_idle : ∀ (ts : List (Thread σ ω)) {position : Nat},
    HeededAll [] position ts → dueAll ts = none → live ts = 0
  | [], _, _, _ => rfl
  | t :: ts, _, ⟨⟨ht, hplace⟩, hts⟩, hdue => by
    obtain ⟨hdue, hdues⟩ := earlier_eq_none hdue
    have hidle : Idle t := hplace.resolve_right List.not_mem_nil
    have hended := due_of_idle t ht hidle hdue
    have hrest := live_of_idle ts hts hdues
    simp only [live, List.countP_cons] at hrest ⊢
    rw [hrest]
    cases hresult : t.result? with
    | none => exact absurd hresult hended
    | some r => rfl

end

end Thread

namespace Host

variable {τ η κ δ : Type}

/-- A program is driven to its end, or up to a wait that lies beyond the limit. -/
theorem drive_result (h : Host τ η κ δ) (limit : Option Nat) (number : Nat) (awake : Bool)
    (s : RunState τ κ δ) (t : Running τ κ δ) (hheeded : t.Heeded)
    (hidle : awake = true ∨ t.Idle ∨ t.due ≠ none)
    (hresult : (h.drive limit number awake s t).2.result? = none) :
    ∃ alarm, (h.drive limit number awake s t).2.due = some alarm ∧ reaches limit alarm.time := by
  induction number, awake, s, t using drive.induct h limit with
  | case1 number s t next ih =>
    rw [drive_step] at hresult ⊢
    obtain ⟨hnext, hrest⟩ := step_heeded number s.outbox.clock t s hheeded
    refine ih hnext ?_ hresult
    cases hgoes : next.2.2.goesOn with
    | true => exact .inl rfl
    | false => exact .inr (.inl (hrest hgoes))
  | case2 number awake s t hawake hnone =>
    rw [h.drive_of_none hawake hnone] at hresult
    have hrest : t.Idle := by
      rcases hidle with hidle | hidle | hidle
      · exact absurd hidle hawake
      · exact hidle
      · exact absurd hnone hidle
    exact absurd hresult (due_of_idle t hheeded hrest hnone)
  | case3 number awake s t hawake alarm hsome hreach =>
    rw [h.drive_of_reaches hawake hsome hreach]
    exact ⟨alarm, hsome, hreach⟩
  | case4 number awake s t hawake alarm hsome hreach called ih =>
    rw [h.drive_of_due hawake hsome hreach] at hresult ⊢
    refine ih (call_heeded alarm t hheeded).1 ?_ hresult
    cases hdue : called.due with
    | none => exact .inl rfl
    | some next => exact .inr (.inr nofun)

end Host

end Playbook
