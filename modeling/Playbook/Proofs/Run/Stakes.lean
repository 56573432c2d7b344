import Mathlib.Algebra.BigOperators.Group.Finset.Basic
import Playbook.Proofs.Run.Floor
import Playbook.Proofs.Run.Pact

/-!
# `Proofs.Run.Stakes` — what is under way

Much of what a run does takes more than one change of its world: a session is counted, then opened, then sent a prompt, and at last
closed. In between it is under way, and the books of the run balance only if that is counted too. Each branch knows what it has under
way itself, its *stake*, and nothing of the stakes of others: what it does has to keep the books balanced whatever those are. When a fork
begins its branches share its stake, and when one ends it has nothing left under way.

Stakes are added up, so they are taken from a commutative monoid, and `balance` says whether the books of a world balance, given
everything that is under way.

## Contents
- **Plans.** `Plan.Stakes`: a plan keeps the books balanced, with a stake to begin with and one that it ends with.
- **Scripts.** `Script.Stakes`, with one rule for each way in which scripts are made; an `Even` script begins and ends with nothing.
- **Threads.** `Thread.Stakes`; `Thread.Stakes.call`, `Plan.Stakes.go`, `Thread.Stakes.step`.
- **Runs.** `Host.Steady` books; `Host.drive_stakes`, `Host.drive_settled`.
-/

namespace Playbook

variable {σ ω α β M : Type} [AddCommMonoid M]

/-! ## Plans -/

/-- A plan that has something under way keeps the books balanced, and ends with a result and something under way that belong together. -/
inductive Plan.Stakes (balance : M → σ → Prop) : M → Plan σ ω → (ω → M → Prop) → Prop where
  | done {a : M} {r : ω} {ends : ω → M → Prop} (hends : ends r a) : Stakes balance a (.done r) ends
  | look {a : M} {next : σ → Plan σ ω} {ends : ω → M → Prop}
      (h : ∀ w rest, balance (a + rest) w → Stakes balance a (next w) ends) : Stakes balance a (.look next) ends
  /-- What is under way changes with the world. -/
  | act {a : M} {b : σ → M} {f : σ → σ} {next : σ → Plan σ ω} {ends : ω → M → Prop}
      (hf : ∀ w rest, balance (a + rest) w → balance (b w + rest) (f w))
      (h : ∀ w rest, balance (a + rest) w → Stakes balance (b w) (next w) ends) :
      Stakes balance a (.look fun w => .put (f w) (next w)) ends
  | wait {a : M} {ms : Nat} {next : Plan σ ω} {ends : ω → M → Prop} (h : Stakes balance a next ends) :
      Stakes balance a (.wait ms next) ends
  /-- The branches share what is under way, except for what the fork keeps. -/
  | fork {a kept : M} {share : Nat → M} {partEnds : Nat → ω → Prop} {branches : List (Plan σ ω)} {next : List ω → Plan σ ω}
      {ends : ω → M → Prop} (hsplit : a = ∑ i ∈ Finset.range branches.length, share i + kept)
      (hbranches : ∀ i p, branches[i]? = some p → Stakes balance (share i) p fun r b => b = 0 ∧ partEnds i r)
      (h : ∀ rs : List (Nat × ω), (rs.map Prod.fst).Perm (List.range branches.length) → (∀ x ∈ rs, partEnds x.1 x.2) →
        Stakes balance kept (next (rs.map Prod.snd)) ends) : Stakes balance a (.fork branches next) ends

variable {balance : M → σ → Prop} {a b d e : M}

/-! ## Scripts -/

/-- A part of a plan that leads from something under way to something else, given how it goes. Whatever else the plan has under way is
    left alone. -/
def Script.Stakes (balance : M → σ → Prop) (a : M) (s : Script σ α) (post : Except Failure α → M → Prop) : Prop :=
  ∀ d next ends, (∀ r b, post r b → Plan.Stakes balance (b + d) (next r) ends) → Plan.Stakes balance (a + d) (s next) ends

/-- A script that has nothing under way when it begins or when it ends. -/
def Script.Even (balance : M → σ → Prop) (s : Script σ α) : Prop :=
  Script.Stakes balance 0 s fun _ b => b = 0

namespace Script.Stakes

variable {s : Script σ α} {post post' : Except Failure α → M → Prop}

theorem mono (h : Script.Stakes balance a s post) (hpost : ∀ r b, post r b → post' r b) : Script.Stakes balance a s post' :=
  fun d next ends hnext => h d next ends fun r b hb => hnext r b (hpost r b hb)

/-- What a script does not know of is left. -/
theorem beside (h : Script.Stakes balance a s post) (e : M) :
    Script.Stakes balance (a + e) s fun r b => ∃ own, post r own ∧ b = own + e := by
  intro d next ends hnext
  rw [add_assoc]
  refine h (e + d) next ends fun r own hown => ?_
  rw [← add_assoc]
  exact hnext r (own + e) ⟨own, hown, rfl⟩

theorem ofExcept {r : Except Failure α} (h : post r a) : Script.Stakes balance a (Script.ofExcept r) post :=
  fun _ _ _ hnext => hnext r a h

theorem pure {x : α} (h : post (.ok x) a) : Script.Stakes balance a (Pure.pure x : Script σ α) post :=
  fun _ _ _ hnext => hnext (.ok x) a h

theorem fail {e : Failure} (h : post (.error e) a) : Script.Stakes balance a (Script.fail e) post :=
  fun _ _ _ hnext => hnext (.error e) a h

theorem bind {mid : Except Failure α → M → Prop} {f : α → Script σ β} {final : Except Failure β → M → Prop}
    (hs : Script.Stakes balance a s mid) (hf : ∀ x b, mid (.ok x) b → Script.Stakes balance b (f x) final)
    (herror : ∀ e b, mid (.error e) b → final (.error e) b) : Script.Stakes balance a (s >>= f) final := by
  intro d next ends hnext
  refine hs d _ ends fun r b hb => ?_
  cases r with
  | ok x => exact hf x b hb d next ends hnext
  | error e => exact hnext (.error e) b (herror e b hb)

theorem hold (h : Script.Stakes balance a s post) :
    Script.Stakes balance a s.hold fun r b => ∃ own, r = .ok own ∧ post own b :=
  fun d _ ends hnext => h d _ ends fun r b hb => hnext (.ok r) b ⟨r, rfl, hb⟩

theorem observe {f : σ → α} (h : ∀ w rest, balance (a + rest) w → post (.ok (f w)) a) :
    Script.Stakes balance a (Script.observe f) post := by
  intro d next ends hnext
  refine .look fun w rest hw => ?_
  rw [add_assoc] at hw
  exact hnext (.ok (f w)) a (h w (d + rest) hw)

theorem act {f : σ → α × σ} (b : σ → M)
    (h : ∀ w rest, balance (a + rest) w → balance (b w + rest) (f w).2 ∧ post (.ok (f w).1) (b w)) :
    Script.Stakes balance a (Script.act f) post := by
  intro d next ends hnext
  refine .act (b := fun w => b w + d) (fun w rest hw => ?_) fun w rest hw => ?_
  · rw [add_assoc] at hw ⊢
    exact (h w (d + rest) hw).1
  · rw [add_assoc] at hw
    exact hnext (.ok (f w).1) (b w) (h w (d + rest) hw).2

theorem update {f : σ → σ} {post : Except Failure Unit → M → Prop} (b : M)
    (hf : ∀ w rest, balance (a + rest) w → balance (b + rest) (f w)) (hpost : post (.ok ()) b) :
    Script.Stakes balance a (Script.update f) post :=
  act (fun _ => b) fun w rest hw => ⟨hf w rest hw, hpost⟩

/-- What comes of a script may be known before it is raised. -/
theorem afterOk {x : β} {k : β → Script σ α} (h : Script.Stakes balance a (k x) post) :
    Script.Stakes balance a (Script.ofExcept (.ok x) >>= k) post :=
  h

theorem afterError {e : Failure} {k : β → Script σ α} (h : post (.error e) a) :
    Script.Stakes balance a (Script.ofExcept (.error e) >>= k) post :=
  fun _ _ _ hnext => hnext (.error e) a h

/-- A script goes on after one that does not fail. -/
theorem bindOk {mid : α → M → Prop} {f : α → Script σ β} {final : Except Failure β → M → Prop}
    (hs : Script.Stakes balance a s fun r b => ∃ x, r = .ok x ∧ mid x b)
    (hf : ∀ x b, mid x b → Script.Stakes balance b (f x) final) : Script.Stakes balance a (s >>= f) final := by
  refine bind hs (fun x b hb => ?_) fun e b hb => ?_
  · obtain ⟨x', hx, hmid⟩ := hb
    cases hx
    exact hf x b hmid
  · obtain ⟨x', hx, _⟩ := hb
    cases hx

theorem afterAct {f : σ → β × σ} {k : β → Script σ α} (b : σ → M)
    (h : ∀ w rest, balance (a + rest) w → balance (b w + rest) (f w).2 ∧ Script.Stakes balance (b w) (k (f w).1) post) :
    Script.Stakes balance a (Script.act f >>= k) post := by
  have hact : Script.Stakes balance a (Script.act f) fun r b => ∃ x, r = .ok x ∧ Script.Stakes balance b (k x) post := by
    refine act b fun w rest hw => ?_
    obtain ⟨hbalance, hk⟩ := h w rest hw
    exact ⟨hbalance, _, rfl, hk⟩
  exact bindOk hact fun _ _ hk => hk

theorem afterUpdate {f : σ → σ} {k : Unit → Script σ α} (b : M)
    (hf : ∀ w rest, balance (a + rest) w → balance (b + rest) (f w)) (h : Script.Stakes balance b (k ()) post) :
    Script.Stakes balance a (Script.update f >>= k) post :=
  afterAct (fun _ => b) fun w rest hw => ⟨hf w rest hw, h⟩

theorem afterObserve {f : σ → β} {k : β → Script σ α}
    (h : ∀ w rest, balance (a + rest) w → Script.Stakes balance a (k (f w)) post) :
    Script.Stakes balance a (Script.observe f >>= k) post := by
  intro d next ends hnext
  refine .look fun w rest hw => ?_
  rw [add_assoc] at hw
  exact h w (d + rest) hw d next ends hnext

/-- To wait leaves what is under way as it is. -/
theorem afterPause {ms : σ → Nat} {k : Unit → Script σ α} (h : Script.Stakes balance a (k ()) post) :
    Script.Stakes balance a (Script.pause ms >>= k) post :=
  fun d next ends hnext => .look fun _ _ _ => .wait (h d next ends hnext)

theorem plan {s : Script σ Unit} {ends : Outcome → M → Prop} (h : Script.Stakes balance a s ends) :
    Plan.Stakes balance a s.plan ends := by
  have hplan : Plan.Stakes balance (a + 0) (s .done) ends := h 0 _ _ fun r b hb => .done (by rwa [add_zero])
  rwa [add_zero] at hplan

theorem together {ss : List (Script σ Unit)} {kept : M} {share : Nat → M} {partEnds : Nat → Outcome → Prop}
    {post : Except Failure (List Outcome) → M → Prop} (hsplit : a = ∑ i ∈ Finset.range ss.length, share i + kept)
    (hbranches : ∀ i s, ss[i]? = some s → Script.Stakes balance (share i) s fun r b => b = 0 ∧ partEnds i r)
    (h : ∀ rs : List (Nat × Outcome), (rs.map Prod.fst).Perm (List.range ss.length) → (∀ x ∈ rs, partEnds x.1 x.2) →
      post (.ok (rs.map Prod.snd)) kept) : Script.Stakes balance a (Script.together ss) post := by
  intro d next ends hnext
  have hsplit : a + d = ∑ i ∈ Finset.range (ss.map Script.plan).length, share i + (kept + d) := by
    rw [List.length_map, hsplit, add_assoc]
  have hplans : ∀ i p, (ss.map Script.plan)[i]? = some p →
      Plan.Stakes balance (share i) p fun r b => b = 0 ∧ partEnds i r := by
    intro i p hp
    rw [List.getElem?_map, Option.map_eq_some_iff] at hp
    obtain ⟨s, hs, rfl⟩ := hp
    exact (hbranches i s hs).plan
  refine .fork hsplit hplans fun rs hperm hends => ?_
  rw [List.length_map] at hperm
  exact hnext (.ok (rs.map Prod.snd)) kept (h rs hperm hends)

end Script.Stakes

namespace Script.Even

variable {s : Script σ α}

theorem pure (x : α) : Script.Even balance (Pure.pure x : Script σ α) :=
  Script.Stakes.pure rfl

theorem fail (e : Failure) : Script.Even balance (Script.fail e : Script σ α) :=
  Script.Stakes.fail rfl

theorem ofExcept (r : Except Failure α) : Script.Even balance (Script.ofExcept r) :=
  Script.Stakes.ofExcept rfl

theorem bind {f : α → Script σ β} (hs : Script.Even balance s) (hf : ∀ x, Script.Even balance (f x)) :
    Script.Even balance (s >>= f) :=
  Script.Stakes.bind hs (fun x _ hb => by rw [hb]; exact hf x) fun _ _ hb => hb

theorem hold (h : Script.Even balance s) : Script.Even balance s.hold :=
  (Script.Stakes.hold h).mono fun _ _ ⟨_, _, hb⟩ => hb

theorem observe (f : σ → α) : Script.Even balance (Script.observe f) :=
  Script.Stakes.observe fun _ _ _ => rfl

/-- A change that keeps the books balanced whatever is under way. -/
theorem act {f : σ → α × σ} (h : ∀ w rest, balance rest w → balance rest (f w).2) : Script.Even balance (Script.act f) :=
  Script.Stakes.act (fun _ => 0) fun w rest hw => ⟨by rw [zero_add] at hw ⊢; exact h w rest hw, rfl⟩

theorem update {f : σ → σ} (h : ∀ w rest, balance rest w → balance rest (f w)) : Script.Even balance (Script.update f) :=
  act h

theorem repeatTimes {body : Script σ Unit} (h : Script.Even balance body) (n : Nat) :
    Script.Even balance (Script.repeatTimes body n) := by
  induction n with
  | zero => exact .pure ()
  | succ n ih => exact .bind (.observe _) fun _ => .bind h fun _ => ih

theorem together {ss : List (Script σ Unit)} (h : ∀ s ∈ ss, Script.Even balance s) :
    Script.Even balance (Script.together ss) := by
  have hsplit : (0 : M) = ∑ _i ∈ Finset.range ss.length, 0 + 0 := by simp
  have hbranches : ∀ i s, ss[i]? = some s → Script.Stakes balance 0 s fun (_ : Outcome) b => b = 0 ∧ True :=
    fun i s hs => (h s (List.mem_of_getElem? hs)).mono fun _ _ hb => ⟨hb, trivial⟩
  exact Script.Stakes.together hsplit hbranches fun _ _ _ => rfl

end Script.Even

/-! ## Threads -/

namespace Thread

/-- A thread that has something under way keeps the books balanced. Its branches that have ended have nothing left under way. -/
inductive Stakes (balance : M → σ → Prop) : M → Thread σ ω → (ω → M → Prop) → Prop where
  | ended {a : M} {r : ω} {ends : ω → M → Prop} (hends : ends r a) : Stakes balance a (.ended r) ends
  | waiting {a : M} {alarm : Alarm} {next : Plan σ ω} {ends : ω → M → Prop} (h : Plan.Stakes balance a next ends) :
      Stakes balance a (.waiting alarm next) ends
  | ready {a : M} {stirred : Bool} {next : Plan σ ω} {ends : ω → M → Prop} (h : Plan.Stakes balance a next ends) :
      Stakes balance a (.ready next stirred) ends
  | forked {a kept : M} {share : Nat → M} {partEnds : Nat → ω → Prop} {ts : List (Thread σ ω)} {line : Line} {rs : List (Nat × ω)}
      {next : List ω → Plan σ ω} {ends : ω → M → Prop} (hsplit : a = ∑ i ∈ Finset.range ts.length, share i + kept)
      (hresults : ∀ x ∈ rs, partEnds x.1 x.2) (hnodup : (rs.map Prod.fst).Nodup)
      (hended : ∀ i, i ∈ rs.map Prod.fst ↔ ∃ r, ts[i]? = some (.ended r))
      (hthreads : ∀ i t, ts[i]? = some t → Stakes balance (share i) t fun r b => b = 0 ∧ partEnds i r)
      (h : ∀ rs : List (Nat × ω), (rs.map Prod.fst).Perm (List.range ts.length) → (∀ x ∈ rs, partEnds x.1 x.2) →
        Plan.Stakes balance kept (next (rs.map Prod.snd)) ends) : Stakes balance a (.forked ts line (rs.map Prod.snd) next) ends

variable {t x : Thread σ ω} {ends : ω → M → Prop}

/-- What a thread has under way when it has ended. -/
theorem Stakes.of_result {r : ω} (h : Stakes balance a t ends) (hresult : t.result? = some r) : ends r a := by
  rw [eq_ended_of_result? hresult] at h
  cases h with
  | ended hends => exact hends

/-- A call leaves what is under way as it is. -/
theorem Stakes.call (alarm : Alarm) (h : Stakes balance a t ends) : Stakes balance a (t.call alarm).1 ends := by
  induction h with
  | ended hends => exact .ended hends
  | ready h => exact .ready h
  | waiting h =>
    simp only [Thread.call]
    split
    · exact .ready h
    · exact .waiting h
  | forked hsplit hresults hnodup hended _ h ih =>
    simp only [Thread.call]
    rw [callAll_fst]
    refine .forked (by rwa [List.length_map]) hresults hnodup ?_ ?_ (by rwa [List.length_map])
    · intro i
      rw [hended i, List.getElem?_map]
      simp [call_ended_iff]
    · intro i u hu
      rw [List.getElem?_map, Option.map_eq_some_iff] at hu
      obtain ⟨t, ht, rfl⟩ := hu
      exact ih i t ht

end Thread

open Thread

/-! ## Steps -/

/-- How far a plan goes without waiting or splitting. -/
theorem Plan.Stakes.go {p : Plan σ ω} {ends : ω → M → Prop} (number now : Nat) (stirred : Bool) (h : Plan.Stakes balance a p ends) :
    ∀ w rest, balance (a + rest) w →
      ∃ b, balance (b + rest) (p.go number now stirred w).1 ∧ Thread.Stakes balance b (p.go number now stirred w).2.1 ends := by
  induction h with
  | done hends => exact fun w rest hw => ⟨_, hw, .ended hends⟩
  | look _ ih => exact fun w rest hw => ih w rest hw w rest hw
  | act hf _ ih => exact fun w rest hw => ih w rest hw _ rest (hf w rest hw)
  | wait h ih =>
    intro w rest hw
    simp only [Plan.go]
    split
    · exact ih w rest hw
    · exact ⟨_, hw, .waiting h⟩
  | @fork a kept share partEnds branches next ends hsplit hbranches h =>
    intro w rest hw
    refine ⟨a, hw, ?_⟩
    -- No branch has ended yet.
    have hnone : ([] : List ω) = ([] : List (Nat × ω)).map Prod.snd := rfl
    simp only [Plan.go]
    rw [hnone]
    have hthreads : ∀ i t, (branches.map ofPlan)[i]? = some t →
        Thread.Stakes balance (share i) t fun r b => b = 0 ∧ partEnds i r := by
      intro i t ht
      rw [List.getElem?_map, Option.map_eq_some_iff] at ht
      obtain ⟨p, hp, rfl⟩ := ht
      exact .ready (hbranches i p hp)
    refine .forked (by rwa [List.length_map]) nofun .nil (fun i => ?_) hthreads (by rwa [List.length_map])
    simp [ofPlan]

namespace Thread

variable {t x : Thread σ ω} {ends : ω → M → Prop}

section

variable {kept : M} {share : Nat → M} {partEnds : Nat → ω → Prop} {ts : List (Thread σ ω)} {rs : List (Nat × ω)} {i : Nat}
  {standing : Standing ω} {next : List ω → Plan σ ω}

/-- What is under way in all branches but one. -/
def besides (share : Nat → M) (n i : Nat) : M :=
  ∑ j ∈ (Finset.range n).erase i, share j

theorem sum_share {n : Nat} (share : Nat → M) (hi : i < n) :
    ∑ j ∈ Finset.range n, share j = share i + besides share n i :=
  (Finset.add_sum_erase _ share (Finset.mem_range.2 hi)).symm

/-- A branch that has taken a step has changed its own stake only. -/
theorem besides_update {n : Nat} (share : Nat → M) (i : Nat) (b : M) :
    besides (Function.update share i b) n i = besides share n i :=
  Finset.sum_congr rfl fun _ hj => Function.update_of_ne (Finset.ne_of_mem_erase hj) b share

/-- When all branches have ended, nothing is under way but what the fork has kept. -/
theorem sum_share_ended (hthreads : ∀ i t, ts[i]? = some t → Stakes balance (share i) t fun r b => b = 0 ∧ partEnds i r)
    (hended : ∀ i, i < ts.length → ∃ r, ts[i]? = some (.ended r)) : ∑ i ∈ Finset.range ts.length, share i = 0 := by
  refine Finset.sum_eq_zero fun i hi => ?_
  obtain ⟨r, hr⟩ := hended i (Finset.mem_range.1 hi)
  exact ((hthreads i _ hr).of_result rfl).1

/-- What the step of a branch that had not ended leaves of a fork. -/
theorem Stakes.advance (hresults : ∀ x ∈ rs, partEnds x.1 x.2) (hnodup : (rs.map Prod.fst).Nodup)
    (hended : ∀ i, i ∈ rs.map Prod.fst ↔ ∃ r, ts[i]? = some (.ended r))
    (hthreads : ∀ i t, ts[i]? = some t → Stakes balance (share i) t fun r b => b = 0 ∧ partEnds i r)
    (h : ∀ rs : List (Nat × ω), (rs.map Prod.fst).Perm (List.range ts.length) → (∀ x ∈ rs, partEnds x.1 x.2) →
      Plan.Stakes balance kept (next (rs.map Prod.snd)) ends) (ht : ts[i]? = some t) (hnone : t.result? = none)
    (hturns : Turns t x standing) (hx : Stakes balance b x fun r b => b = 0 ∧ partEnds i r) (line : Line) :
    Stakes balance (b + besides share ts.length i + kept)
      (.forked (ts.set i x) line ((rs ++ standing.ending i).map Prod.snd) next) ends := by
  have hlt : i < ts.length := (List.getElem?_eq_some_iff.1 ht).1
  -- A branch has ended once its result is there, and this one had none.
  have hnot : i ∉ rs.map Prod.fst := by
    intro hmem
    obtain ⟨r, hr⟩ := (hended i).1 hmem
    rw [ht, Option.some.injEq] at hr
    rw [hr] at hnone
    cases hnone
  have hsplit : b + besides share ts.length i + kept =
      ∑ j ∈ Finset.range (ts.set i x).length, Function.update share i b j + kept := by
    rw [List.length_set, sum_share _ hlt, besides_update, Function.update_self]
  refine .forked hsplit ?_ ?_ (ended_set ht hnone hturns hended) ?_ (by rwa [List.length_set])
  · intro y hy
    rcases List.mem_append.1 hy with hy | hy
    · exact hresults y hy
    · cases standing with
      | last r again =>
        rw [List.mem_singleton.1 hy]
        rw [hturns.2] at hx
        exact (hx.of_result rfl).2
      | kept => cases hy
      | back again => cases hy
      | refused => cases hy
  · rw [List.map_append, List.nodup_append]
    refine ⟨hnodup, ?_, ?_⟩
    · cases standing <;> simp [Standing.ending]
    · intro j hj k hk
      cases standing with
      | last r again =>
        rw [Standing.ending, List.map_singleton, List.mem_singleton] at hk
        rw [hk]
        exact ne_of_mem_of_not_mem hj hnot
      | kept => cases hk
      | back again => cases hk
      | refused => cases hk
  · intro j u hu
    by_cases hj : j = i
    · subst hj
      rw [List.getElem?_set_self hlt, Option.some.injEq] at hu
      rw [← hu, Function.update_self]
      exact hx
    · rw [List.getElem?_set_ne (Ne.symm hj)] at hu
      rw [Function.update_of_ne hj]
      exact hthreads j u hu

end

/-- A step keeps the books balanced. -/
theorem Stakes.step (number now : Nat) (h : Stakes balance a t ends) :
    ∀ w rest, balance (a + rest) w →
      ∃ b, balance (b + rest) (t.step number now w).1 ∧ Stakes balance b (t.step number now w).2.1 ends := by
  induction h with
  | ended hends => exact fun w rest hw => ⟨_, hw, .ended hends⟩
  | waiting h => exact fun w rest hw => ⟨_, hw, .waiting h⟩
  | ready h => exact fun w rest hw => h.go number now _ w rest hw
  | @forked a kept share partEnds ts line rs next ends hsplit hresults hnodup hended hthreads h ih =>
    intro w rest hw
    have hsame : ∀ line', Stakes balance a (.forked ts line' (rs.map Prod.snd) next) ends :=
      fun line' => .forked hsplit hresults hnodup hended hthreads h
    cases hqueue : line.queue with
    | nil =>
      simp only [Thread.step, hqueue]
      split
      · rename_i hzero
        -- All branches have ended, so nothing is left of their stakes.
        have hperm := perm_of_live_eq_zero hnodup hended hzero
        have hnothing := sum_share_ended hthreads fun i hi => (hended i).1 (hperm.mem_iff.2 (List.mem_range.2 hi))
        rw [hnothing, zero_add] at hsplit
        exact ⟨a, hw, .ready (hsplit ▸ h rs hperm hresults)⟩
      · exact ⟨a, hw, hsame line.rest⟩
    | cons i queue =>
      simp only [Thread.step, hqueue]
      cases ht : ts[i]? with
      | none =>
        rw [stepAt_of_none ht]
        exact ⟨a, hw, hsame line.skip⟩
      | some t =>
        rw [stepAt_of_some ht]
        cases hresult : t.result? with
        | some r =>
          -- A branch that has ended long ago leaves everything as it is.
          rw [eq_ended_of_result? hresult] at ht ⊢
          simp only [Thread.step, set_of_getElem? ht]
          exact ⟨a, hw, hsame line.skip⟩
        | none =>
          have hlt : i < ts.length := (List.getElem?_eq_some_iff.1 ht).1
          -- To the branch that takes the step the stakes of all others are just something else that is under way.
          rw [hsplit, sum_share share hlt, add_assoc, add_assoc] at hw
          obtain ⟨b, hb, hx⟩ := ih i t ht w _ hw
          rw [← add_assoc, ← add_assoc] at hb
          have hafter := Stakes.advance hresults hnodup hended hthreads h ht hresult (step_turns number now t w) hx
          refine ⟨b + besides share ts.length i + kept, ?_⟩
          cases hr : t.step number now w with
          | mk v last =>
            obtain ⟨x, standing⟩ := last
            simp only [hr] at hb hafter ⊢
            cases standing with
            | kept => exact ⟨hb, by simpa [Standing.ending] using hafter line⟩
            | refused => exact ⟨hb, by simpa [Standing.ending] using hafter line.skip⟩
            | last r again => exact ⟨hb, by simpa [Standing.ending] using hafter (line.leave again)⟩
            | back again =>
              simp only
              split
              · exact ⟨hb, by simpa [Standing.ending] using hafter (line.pass again).rest⟩
              · exact ⟨hb, by simpa [Standing.ending] using hafter (line.pass again)⟩

end Thread

/-! ## Runs -/

namespace Host

variable {τ η κ δ : Type}

/-- Books that the outbox does not touch when it catches up with the clock, or does what comes at this time. -/
structure Steady (h : Host τ η κ δ) (balance : M → RunState τ κ δ → Prop) : Prop where
  catchUp : ∀ a now s, balance a s → balance a (h.catchUp now s)
  giveWay : ∀ a standing s, balance a s → balance a (h.giveWay standing s)

section

variable {h : Host τ η κ δ} {balance : M → RunState τ κ δ → Prop} {a : M} {s : RunState τ κ δ} {t : Running τ κ δ}
  {ends : Outcome → M → Prop}

/-- A program that is driven keeps the books balanced. -/
theorem drive_stakes (steady : h.Steady balance) (limit : Option Nat) (number : Nat) (awake : Bool) (hs : balance a s)
    (ht : t.Stakes balance a ends) :
    ∃ b, balance b (h.drive limit number awake s t).1 ∧ (h.drive limit number awake s t).2.Stakes balance b ends := by
  induction number, awake, s, t using drive.induct h limit generalizing a with
  | case1 number s t next =>
    rename_i ih
    rw [drive_step]
    obtain ⟨b, hb, hnext⟩ := ht.step number s.outbox.clock s 0 (by rwa [add_zero])
    rw [add_zero] at hb
    exact ih (steady.giveWay b _ _ hb) hnext
  | case2 number awake s t hawake hnone =>
    rw [h.drive_of_none hawake hnone]
    exact ⟨a, hs, ht⟩
  | case3 number awake s t hawake alarm hsome hreach =>
    rw [h.drive_of_reaches hawake hsome hreach]
    exact ⟨a, hs, ht⟩
  | case4 number awake s t hawake alarm hsome hreach called =>
    rename_i ih
    rw [h.drive_of_due hawake hsome hreach]
    exact ih (steady.catchUp a _ _ hs) (ht.call alarm)

/-- A plan that is driven without a limit comes to its end, and the books balance with what is under way then. -/
theorem drive_settled (steady : h.Steady balance) (number : Nat) {p : Plan (RunState τ κ δ) Outcome} (hs : balance a s)
    (hp : p.Stakes balance a ends) :
    ∃ r b, (h.drive none number true s (.ofPlan p)).2.result? = some r ∧ balance b (h.drive none number true s (.ofPlan p)).1 ∧
      ends r b := by
  obtain ⟨b, hb, ht⟩ := drive_stakes steady none number true hs (t := .ofPlan p) (.ready hp)
  cases hresult : (h.drive none number true s (.ofPlan p)).2.result? with
  | some r => exact ⟨r, b, rfl, hb, ht.of_result hresult⟩
  | none =>
    obtain ⟨alarm, _, hreach⟩ := h.drive_result none number true s (.ofPlan p) trivial (.inl rfl) hresult
    cases hreach

end

end Host

end Playbook
