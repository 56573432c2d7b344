import Mathlib.Data.List.Perm.Basic
import Mathlib.Logic.Relation
import Playbook.Run.Script
import Playbook.Run.Thread

/-!
# `Proofs.Run.Pact` — what branches may rely on

All branches of a run share one world, and each may find it changed whenever it has waited. A *pact* says what a branch does
to the world (`grant`) and what it puts up with from others (`rely`). A plan *keeps* a pact from a condition on if every change
that it makes is granted, as long as all other changes are those it relies on; a condition that has to outlast a wait must be
*firm*, so that no change of others breaks it.

A plan is compared with a plainer one at the same time. The worlds of the first may hold more than those of the second, which
are a `view` of them, and the first may write something up, now and then, where the second does nothing. So what is shown of a
run that keeps a record of itself holds of the run without the record.

## Contents
- **Pacts.** `Pact`, `Pact.Firm`, and `Pact.Shares`, which says how the branches of a fork divide a pact.
- **Plans.** `Plan.Keeps`.
- **Scripts.** `Script.Keeps`, with one rule for each way in which scripts are made.
- **Threads.** `Thread.Keeps`; `Thread.Keeps.rely` and `Thread.Keeps.call`: a change by others and a call leave it as it is.
- **Steps.** `StepKeeps`, `Plan.Keeps.go`, `Thread.Keeps.step`.
-/

namespace Playbook

open Relation (ReflTransGen)

variable {σ σ' ω α β : Type}

/-! ## Pacts -/

/-- What somebody does to the world, and what others do to it in the meantime. -/
structure Pact (σ : Type) where
  grant : σ → σ → Prop
  rely : σ → σ → Prop

namespace Pact

/-- A condition that others do not break. -/
def Firm (pact : Pact σ) (p : σ → Prop) : Prop :=
  ∀ w v, pact.rely w v → p w → p v

/-- How a number of branches divide the pact of their fork. Each has a part of its own and ends with one last change, and `joint`
    says what holds of the world when some of them have ended, in an order and with certain results. -/
structure Shares (pact : Pact σ) (n : Nat) (part : Nat → Pact σ) (ends : Nat → ω → σ → σ → Prop)
    (joint : List (Nat × ω) → σ → Prop) : Prop where
  /-- Others do not disturb what the branches have in common. -/
  firm : ∀ rs, pact.Firm (joint rs)
  /-- A branch that has not ended keeps what the branches have in common. -/
  kept : ∀ rs i w v, i < n → i ∉ rs.map Prod.fst → (part i).grant w v → joint rs w → joint rs v
  /-- With its last change a branch is added to those that have ended. -/
  last : ∀ rs i r w v, i < n → i ∉ rs.map Prod.fst → ends i r w v → joint rs w →
    joint (rs ++ [(i, r)]) v
  /-- What a branch does is granted by the pact of the block. -/
  up : ∀ i w v, i < n → (part i).grant w v → pact.grant w v
  /-- The last change of a branch is granted by the pact of the block. -/
  upLast : ∀ i r w v, i < n → ends i r w v → pact.grant w v
  /-- Every other branch relies on what a branch does. -/
  side : ∀ i j w v, i ≠ j → (part i).grant w v → (part j).rely w v
  sideLast : ∀ i j r w v, i ≠ j → ends i r w v → (part j).rely w v
  /-- What others do the branches put up with. -/
  down : ∀ i w v, pact.rely w v → (part i).rely w v

/-- Where somebody may get to, given how he stands then. -/
def Leads (pact : Pact σ) (ends : ω → σ → σ → Prop) (w : σ) : Standing ω → σ → Prop
  | .last r _, v => ∃ u, ReflTransGen pact.grant w u ∧ ends r u v
  | _, v => ReflTransGen pact.grant w v

end Pact

/-! ## Plans -/

/-- A plan, from a condition on, keeps a pact and ends with a certain last change; next to it a plainer plan does the same in the
    view of the world. -/
inductive Plan.Keeps (view : σ → σ') :
    Pact σ → (σ → Prop) → Plan σ ω → Plan σ' ω → (ω → σ → σ → Prop) → Prop where
  | done {pact : Pact σ} {pre : σ → Prop} {r : ω} {ends : ω → σ → σ → Prop}
      (hends : ∀ w, pre w → ends r w w) : Keeps view pact pre (.done r) (.done r) ends
  /-- The plan ends by writing up that it ends. -/
  | finish {pact : Pact σ} {pre : σ → Prop} {r : ω} {ends : ω → σ → σ → Prop} {f : σ → σ}
      (hview : ∀ w, view (f w) = view w) (hends : ∀ w, pre w → ends r w (f w)) :
      Keeps view pact pre (.look fun w => .put (f w) (.done r)) (.done r) ends
  /-- Only the first plan writes something up. -/
  | note {pact : Pact σ} {pre : σ → Prop} {f : σ → σ} {next : σ → Plan σ ω} {p' : Plan σ' ω}
      {ends : ω → σ → σ → Prop} (hview : ∀ w, view (f w) = view w)
      (hgrant : ∀ w, pre w → pact.grant w (f w))
      (h : ∀ w, pre w → Keeps view pact (· = f w) (next w) p' ends) :
      Keeps view pact pre (.look fun w => .put (f w) (next w)) p' ends
  /-- One of several conditions holds, and from each of them on the plan keeps the pact. -/
  | any {ι : Type} {pact : Pact σ} {pre : σ → Prop} {case : ι → σ → Prop} {p : Plan σ ω}
      {p' : Plan σ' ω} {ends : ω → σ → σ → Prop} (hany : ∀ w, pre w → ∃ i, case i w)
      (h : ∀ i, Keeps view pact (case i) p p' ends) : Keeps view pact pre p p' ends
  | look {pact : Pact σ} {pre : σ → Prop} {next : σ → Plan σ ω} {next' : σ' → Plan σ' ω}
      {ends : ω → σ → σ → Prop}
      (h : ∀ w, pre w → Keeps view pact (· = w) (next w) (next' (view w)) ends) :
      Keeps view pact pre (.look next) (.look next') ends
  | put {pact : Pact σ} {pre : σ → Prop} {u : σ} {next : Plan σ ω} {next' : Plan σ' ω}
      {ends : ω → σ → σ → Prop} (hgrant : ∀ w, pre w → pact.grant w u)
      (h : Keeps view pact (· = u) next next' ends) :
      Keeps view pact pre (.put u next) (.put (view u) next') ends
  | wait {pact : Pact σ} {pre mid : σ → Prop} {ms : Nat} {next : Plan σ ω} {next' : Plan σ' ω}
      {ends : ω → σ → σ → Prop} (hfirm : pact.Firm mid) (hmid : ∀ w, pre w → mid w)
      (h : Keeps view pact mid next next' ends) :
      Keeps view pact pre (.wait ms next) (.wait ms next') ends
  | fork {pact : Pact σ} {pre : σ → Prop} {branches : List (Plan σ ω)}
      {branches' : List (Plan σ' ω)} {next : List ω → Plan σ ω} {next' : List ω → Plan σ' ω}
      {ends : ω → σ → σ → Prop} {part : Nat → Pact σ} {start : Nat → σ → Prop}
      {partEnds : Nat → ω → σ → σ → Prop} {joint : List (Nat × ω) → σ → Prop}
      (hshares : pact.Shares branches.length part partEnds joint)
      (hlength : branches.length = branches'.length)
      (hjoint : ∀ w, pre w → joint [] w) (hstart : ∀ i w, pre w → start i w)
      (hfirm : ∀ i, (part i).Firm (start i))
      (hbranches : ∀ i p p', branches[i]? = some p → branches'[i]? = some p' →
        Keeps view (part i) (start i) p p' (partEnds i))
      (h : ∀ rs : List (Nat × ω), (rs.map Prod.fst).Perm (List.range branches.length) →
        Keeps view pact (joint rs) (next (rs.map Prod.snd)) (next' (rs.map Prod.snd)) ends) :
      Keeps view pact pre (.fork branches next) (.fork branches' next') ends

section

variable {view : σ → σ'} {pact : Pact σ} {pre pre' mid : σ → Prop}

/-- A plan keeps a pact from every stronger condition on. -/
theorem Plan.Keeps.mono {p : Plan σ ω} {p' : Plan σ' ω} {ends : ω → σ → σ → Prop}
    (h : Plan.Keeps view pact pre p p' ends) (hpre : ∀ w, pre' w → pre w) :
    Plan.Keeps view pact pre' p p' ends := by
  cases h with
  | done hends => exact .done fun w hw => hends w (hpre w hw)
  | finish hview hends => exact .finish hview fun w hw => hends w (hpre w hw)
  | note hview hgrant h =>
    exact .note hview (fun w hw => hgrant w (hpre w hw)) fun w hw => h w (hpre w hw)
  | any hany h => exact .any (fun w hw => hany w (hpre w hw)) h
  | look h => exact .look fun w hw => h w (hpre w hw)
  | put hgrant h => exact .put (fun w hw => hgrant w (hpre w hw)) h
  | wait hfirm hmid h => exact .wait hfirm (fun w hw => hmid w (hpre w hw)) h
  | fork hshares hlength hjoint hstart hfirm hbranches h =>
    exact .fork hshares hlength (fun w hw => hjoint w (hpre w hw))
      (fun i w hw => hstart i w (hpre w hw)) hfirm hbranches h

/-! ## Scripts -/

/-- A part of a plan that keeps a pact and leads from one condition to others, given how it goes. -/
def Script.Keeps (view : σ → σ') (pact : Pact σ) (pre : σ → Prop) (s : Script σ α)
    (s' : Script σ' α) (post : Except Failure α → σ → Prop) : Prop :=
  ∀ next next' ends, (∀ r, Plan.Keeps view pact (post r) (next r) (next' r) ends) →
    Plan.Keeps view pact pre (s next) (s' next') ends

namespace Script.Keeps

variable {s : Script σ α} {s' : Script σ' α} {post post' : Except Failure α → σ → Prop}

theorem mono (h : Script.Keeps view pact pre s s' post) (hpre : ∀ w, pre' w → pre w)
    (hpost : ∀ r w, post r w → post' r w) : Script.Keeps view pact pre' s s' post' := by
  intro next next' ends hnext
  have hlead : Plan.Keeps view pact pre (s next) (s' next') ends :=
    h next next' ends fun r => (hnext r).mono (hpost r)
  exact hlead.mono hpre

theorem any {ι : Type} (case : ι → σ → Prop) (hany : ∀ w, pre w → ∃ i, case i w)
    (h : ∀ i, Script.Keeps view pact (case i) s s' post) : Script.Keeps view pact pre s s' post :=
  fun next next' ends hnext => .any hany fun i => h i next next' ends hnext

theorem ofExcept {r : Except Failure α} (h : ∀ w, pre w → post r w) :
    Script.Keeps view pact pre (Script.ofExcept r) (Script.ofExcept r) post :=
  fun _ _ _ hnext => (hnext r).mono h

theorem pure {a : α} (h : ∀ w, pre w → post (.ok a) w) :
    Script.Keeps view pact pre (Pure.pure a : Script σ α) (Pure.pure a : Script σ' α) post :=
  fun _ _ _ hnext => (hnext (.ok a)).mono h

theorem bind {P : Except Failure α → σ → Prop} {f : α → Script σ β} {f' : α → Script σ' β}
    {final : Except Failure β → σ → Prop} (hs : Script.Keeps view pact pre s s' P)
    (hf : ∀ a, Script.Keeps view pact (P (.ok a)) (f a) (f' a) final)
    (herror : ∀ e w, P (.error e) w → final (.error e) w) :
    Script.Keeps view pact pre (s >>= f) (s' >>= f') final := by
  intro next next' ends hnext
  apply hs
  intro r
  cases r with
  | ok a => exact hf a next next' ends hnext
  | error e => exact (hnext (.error e)).mono (herror e)

theorem hold (h : Script.Keeps view pact pre s s' post) :
    Script.Keeps view pact pre s.hold s'.hold fun r w => ∃ a, r = .ok a ∧ post a w := by
  intro next next' ends hnext
  apply h
  intro r
  exact (hnext (.ok r)).mono fun w hw => ⟨r, rfl, hw⟩

theorem observe {f : σ → α} {f' : σ' → α} (hview : ∀ w, pre w → f' (view w) = f w)
    (h : ∀ w, pre w → post (.ok (f w)) w) :
    Script.Keeps view pact pre (Script.observe f) (Script.observe f') post := by
  intro next next' ends hnext
  refine .look fun w hw => ?_
  rw [hview w hw]
  exact (hnext (.ok (f w))).mono fun v hv => hv ▸ h w hw

theorem act {f : σ → α × σ} {f' : σ' → α × σ'}
    (hview : ∀ w, pre w → f' (view w) = ((f w).1, view (f w).2))
    (hgrant : ∀ w, pre w → pact.grant w (f w).2)
    (h : ∀ w, pre w → post (.ok (f w).1) (f w).2) :
    Script.Keeps view pact pre (Script.act f) (Script.act f') post := by
  intro next next' ends hnext
  refine .look fun w hw => ?_
  rw [hview w hw]
  refine .put (fun v hv => hv ▸ hgrant w hw) ?_
  exact (hnext (.ok (f w).1)).mono fun v hv => hv ▸ h w hw

theorem update {f : σ → σ} {f' : σ' → σ'} {post : Except Failure Unit → σ → Prop}
    (hview : ∀ w, pre w → f' (view w) = view (f w)) (hgrant : ∀ w, pre w → pact.grant w (f w))
    (h : ∀ w, pre w → post (.ok ()) (f w)) :
    Script.Keeps view pact pre (Script.update f) (Script.update f') post :=
  act (fun w hw => by rw [hview w hw]) hgrant h

theorem pause {ms : σ → Nat} {ms' : σ' → Nat} {post : Except Failure Unit → σ → Prop}
    (hview : ∀ w, pre w → ms' (view w) = ms w) (hfirm : pact.Firm mid) (hmid : ∀ w, pre w → mid w)
    (h : ∀ w, mid w → post (.ok ()) w) :
    Script.Keeps view pact pre (Script.pause ms) (Script.pause ms') post := by
  intro next next' ends hnext
  refine .look fun w hw => ?_
  rw [hview w hw]
  exact .wait hfirm (fun v hv => hv ▸ hmid w hw) ((hnext (.ok ())).mono h)

/-- A script before which something is written up keeps its pact if it does so from there on. -/
theorem note {f : σ → β × σ} {k : β → Script σ α} (mid : β → σ → Prop)
    (hview : ∀ w, view (f w).2 = view w) (hgrant : ∀ w, pre w → pact.grant w (f w).2)
    (hmid : ∀ w, pre w → mid (f w).1 (f w).2)
    (h : ∀ b, Script.Keeps view pact (mid b) (k b) s' post) :
    Script.Keeps view pact pre (Script.act f >>= k) s' post := by
  intro next next' ends hnext
  refine .note hview hgrant fun w hw => ?_
  exact (h (f w).1 next next' ends hnext).mono fun v hv => hv ▸ hmid w hw

/-- A script after which something is written up, whatever came of it, keeps the pact of the script. -/
theorem noteAfter {f : Except Failure α → σ → σ} {final : Except Failure α → σ → Prop}
    (h : Script.Keeps view pact pre s s' post) (hview : ∀ r w, view (f r w) = view w)
    (hgrant : ∀ r w, post r w → pact.grant w (f r w)) (hpost : ∀ r w, post r w → final r (f r w)) :
    Script.Keeps view pact pre
      (s.hold >>= fun r => Script.update (f r) >>= fun _ => Script.ofExcept r) s' final := by
  intro next next' ends hnext
  apply h
  intro r
  refine .note (hview r) (hgrant r) fun w hw => ?_
  exact (hnext r).mono fun v hv => hv ▸ hpost r w hw

/-- A plan that writes something up as the last thing that it does ends with this change. -/
theorem finish {s : Script σ Unit} {s' : Script σ' Unit} {post : Outcome → σ → Prop}
    {f : Outcome → σ → σ} {ends : Outcome → σ → σ → Prop}
    (h : Script.Keeps view pact pre s s' post) (hview : ∀ r w, view (f r w) = view w)
    (hends : ∀ r w, post r w → ends r w (f r w)) :
    Plan.Keeps view pact pre
      (s.hold >>= fun r => Script.update (f r) >>= fun _ => Script.ofExcept r).plan s'.plan ends := by
  apply h
  intro r
  exact .finish (hview r) (hends r)

/-- Branches that divide a pact keep it together. -/
theorem together {ss : List (Script σ Unit)} {ss' : List (Script σ' Unit)}
    {post : Except Failure (List Outcome) → σ → Prop} {part : Nat → Pact σ}
    {start : Nat → σ → Prop} {partEnds : Nat → Outcome → σ → σ → Prop}
    {joint : List (Nat × Outcome) → σ → Prop}
    (hshares : pact.Shares ss.length part partEnds joint) (hlength : ss.length = ss'.length) (hjoint : ∀ w, pre w → joint [] w)
    (hstart : ∀ i w, pre w → start i w) (hfirm : ∀ i, (part i).Firm (start i))
    (hbranches : ∀ i b b', ss[i]? = some b → ss'[i]? = some b' →
      Plan.Keeps view (part i) (start i) b.plan b'.plan (partEnds i))
    (h : ∀ (rs : List (Nat × Outcome)) w, (rs.map Prod.fst).Perm (List.range ss.length) →
      joint rs w → post (.ok (rs.map Prod.snd)) w) :
    Script.Keeps view pact pre (Script.together ss) (Script.together ss') post := by
  intro next next' ends hnext
  refine .fork (by simpa using hshares) (by simpa using hlength) hjoint hstart hfirm ?_ ?_
  · intro i p p' hp hp'
    rw [List.getElem?_map, Option.map_eq_some_iff] at hp hp'
    obtain ⟨b, hb, rfl⟩ := hp
    obtain ⟨b', hb', rfl⟩ := hp'
    exact hbranches i b b' hb hb'
  · intro rs hperm
    rw [List.length_map] at hperm
    exact (hnext (.ok (rs.map Prod.snd))).mono fun w hw => h rs w hperm hw

end Script.Keeps

/-! ## Threads -/

namespace Thread

/-- A thread in a world keeps a pact and ends with a certain last change; next to it a plainer thread does the same. -/
inductive Keeps (view : σ → σ') :
    Pact σ → σ → Thread σ ω → Thread σ' ω → (ω → σ → σ → Prop) → Prop where
  | ended {pact : Pact σ} {w : σ} {r : ω} {ends : ω → σ → σ → Prop} :
      Keeps view pact w (.ended r) (.ended r) ends
  | waiting {pact : Pact σ} {w : σ} {alarm : Alarm} {pre : σ → Prop} {next : Plan σ ω}
      {next' : Plan σ' ω} {ends : ω → σ → σ → Prop} (hfirm : pact.Firm pre) (hpre : pre w)
      (h : Plan.Keeps view pact pre next next' ends) :
      Keeps view pact w (.waiting alarm next) (.waiting alarm next') ends
  | ready {pact : Pact σ} {w : σ} {stirred : Bool} {pre : σ → Prop} {next : Plan σ ω}
      {next' : Plan σ' ω} {ends : ω → σ → σ → Prop} (hfirm : pact.Firm pre) (hpre : pre w)
      (h : Plan.Keeps view pact pre next next' ends) :
      Keeps view pact w (.ready next stirred) (.ready next' stirred) ends
  | forked {pact : Pact σ} {w : σ} {ts : List (Thread σ ω)} {ts' : List (Thread σ' ω)} {line : Line}
      {rs : List (Nat × ω)} {next : List ω → Plan σ ω} {next' : List ω → Plan σ' ω}
      {ends : ω → σ → σ → Prop} {part : Nat → Pact σ} {partEnds : Nat → ω → σ → σ → Prop}
      {joint : List (Nat × ω) → σ → Prop} (hshares : pact.Shares ts.length part partEnds joint)
      (hlength : ts.length = ts'.length) (hjoint : joint rs w)
      (hnodup : (rs.map Prod.fst).Nodup)
      (hended : ∀ i, i ∈ rs.map Prod.fst ↔ ∃ r, ts[i]? = some (.ended r))
      (hthreads : ∀ i t t', ts[i]? = some t → ts'[i]? = some t' →
        Keeps view (part i) w t t' (partEnds i))
      (h : ∀ rs : List (Nat × ω), (rs.map Prod.fst).Perm (List.range ts.length) →
        Plan.Keeps view pact (joint rs) (next (rs.map Prod.snd)) (next' (rs.map Prod.snd)) ends) :
      Keeps view pact w (.forked ts line (rs.map Prod.snd) next)
        (.forked ts' line (rs.map Prod.snd) next') ends

variable {w v : σ} {t : Thread σ ω} {t' : Thread σ' ω} {ends : ω → σ → σ → Prop}

/-- A thread that keeps a pact puts up with what others do. -/
theorem Keeps.rely (h : Keeps view pact w t t' ends) (hrely : pact.rely w v) :
    Keeps view pact v t t' ends := by
  induction h with
  | ended => exact .ended
  | waiting hfirm hpre h => exact .waiting hfirm (hfirm _ _ hrely hpre) h
  | ready hfirm hpre h => exact .ready hfirm (hfirm _ _ hrely hpre) h
  | forked hshares hlength hjoint hnodup hended _ h ih =>
    refine .forked hshares hlength (hshares.firm _ _ _ hrely hjoint) hnodup hended ?_ h
    intro i t t' ht ht'
    exact ih i t t' ht ht' (hshares.down i _ _ hrely)

/-- Lists that agree place by place under two maps. -/
theorem map_eq_map {γ δ ε : Type} {xs : List γ} {ys : List δ} {f : γ → ε} {g : δ → ε}
    (hlength : xs.length = ys.length)
    (h : ∀ (i : Nat) x y, xs[i]? = some x → ys[i]? = some y → f x = g y) : xs.map f = ys.map g := by
  apply List.ext_getElem (by simpa using hlength)
  intro i hi hi'
  rw [List.length_map] at hi hi'
  rw [List.getElem_map, List.getElem_map]
  exact h i xs[i] ys[i] (List.getElem?_eq_getElem hi) (List.getElem?_eq_getElem hi')

theorem set_of_getElem? {γ : Type} {xs : List γ} {i : Nat} {x : γ} (h : xs[i]? = some x) :
    xs.set i x = xs := by
  obtain ⟨hlt, hx⟩ := List.getElem?_eq_some_iff.1 h
  rw [← hx, List.set_getElem_self]

theorem live_eq_count (ts : List (Thread σ ω)) :
    live ts = (ts.map result?).countP Option.isNone := by
  rw [live, List.countP_map]
  rfl

theorem dueAll_eq_foldr (ts : List (Thread σ ω)) :
    dueAll ts = (ts.map due).foldr Alarm.earlier none := by
  induction ts with
  | nil => rfl
  | cons t ts ih => rw [dueAll, ih, List.map_cons, List.foldr_cons]

theorem callAll_fst (alarm : Alarm) (position : Nat) (ts : List (Thread σ ω)) :
    (callAll alarm position ts).1 = ts.map fun t => (t.call alarm).1 := by
  induction ts generalizing position with
  | nil => rfl
  | cons t ts ih =>
    simp only [callAll, List.map_cons]
    rw [ih]

/-- Which threads are called depends on nothing but whether each of them is. -/
theorem callAll_snd_eq (alarm : Alarm) {position : Nat} {ts : List (Thread σ ω)}
    {ts' : List (Thread σ' ω)}
    (h : (ts.map fun t => (t.call alarm).2) = ts'.map fun t => (t.call alarm).2) :
    (callAll alarm position ts).2 = (callAll alarm position ts').2 := by
  induction ts generalizing position ts' with
  | nil =>
    rw [List.map_nil, eq_comm, List.map_eq_nil_iff] at h
    rw [h]
    rfl
  | cons t ts ih =>
    cases ts' with
    | nil => cases h
    | cons t' ts' =>
      rw [List.map_cons, List.map_cons, List.cons.injEq] at h
      simp only [callAll]
      rw [h.1, ih h.2]

theorem Keeps.result?_eq (h : Keeps view pact w t t' ends) : t.result? = t'.result? := by
  cases h <;> rfl

/-- As many branches of a fork have ended in both threads. -/
theorem Keeps.live_eq {ts : List (Thread σ ω)} {ts' : List (Thread σ' ω)} {line line' : Line}
    {rs rs' : List ω} {next : List ω → Plan σ ω} {next' : List ω → Plan σ' ω}
    (h : Keeps view pact w (.forked ts line rs next) (.forked ts' line' rs' next') ends) :
    live ts = live ts' := by
  cases h with
  | forked _ hlength _ _ _ hthreads _ =>
    have hmap : ts.map result? = ts'.map result? :=
      map_eq_map hlength fun i t t' ht ht' => (hthreads i t t' ht ht').result?_eq
    rw [live_eq_count, live_eq_count, hmap]

theorem eq_ended_of_result? {r : ω} (h : t.result? = some r) : t = .ended r := by
  cases t with
  | ended => rw [Option.some.inj h]
  | waiting => cases h
  | ready => cases h
  | forked => cases h

/-- Both threads wait for the same alarm. -/
theorem Keeps.due_eq (h : Keeps view pact w t t' ends) : t.due = t'.due := by
  induction h with
  | ended => rfl
  | waiting => rfl
  | ready => rfl
  | forked _ hlength _ _ _ _ _ ih =>
    rw [due, due, dueAll_eq_foldr, dueAll_eq_foldr, map_eq_map hlength ih]

theorem call_ended_iff (alarm : Alarm) (r : ω) :
    (t.call alarm).1 = .ended r ↔ t = .ended r := by
  cases t with
  | ended => simp [call]
  | ready => simp [call]
  | forked => simp [call]
  | waiting own next =>
    simp only [call]
    split <;> simp

theorem call_result? {alarm : Alarm} (t : Thread σ ω) (h : t.result? = none) :
    (t.call alarm).1.result? = none := by
  cases t with
  | ended => cases h
  | ready => rfl
  | forked => rfl
  | waiting own next =>
    simp only [call]
    split <;> rfl

/-- A call leaves the pact as it is and finds the same waits in both threads. -/
theorem Keeps.call (alarm : Alarm) (h : Keeps view pact w t t' ends) :
    Keeps view pact w (t.call alarm).1 (t'.call alarm).1 ends ∧
      (t.call alarm).2 = (t'.call alarm).2 := by
  induction h with
  | ended => exact ⟨.ended, rfl⟩
  | ready hfirm hpre h => exact ⟨.ready hfirm hpre h, rfl⟩
  | waiting hfirm hpre h =>
    simp only [Thread.call]
    split
    · exact ⟨.ready hfirm hpre h, rfl⟩
    · exact ⟨.waiting hfirm hpre h, rfl⟩
  | @forked pact w ts ts' line rs next next' ends part partEnds joint hshares hlength hjoint hnodup
      hended hthreads h ih =>
    have hcalled : (callAll alarm 0 ts).2 = (callAll alarm 0 ts').2 :=
      callAll_snd_eq alarm (map_eq_map hlength fun i t t' ht ht' => (ih i t t' ht ht').2)
    simp only [Thread.call]
    rw [← hcalled, callAll_fst, callAll_fst]
    refine ⟨.forked (by simpa using hshares) (by simpa using hlength) hjoint hnodup ?_ ?_ ?_, rfl⟩
    · intro i
      rw [hended i, List.getElem?_map]
      simp [call_ended_iff]
    · intro i u u' hu hu'
      rw [List.getElem?_map, Option.map_eq_some_iff] at hu hu'
      obtain ⟨t, ht, rfl⟩ := hu
      obtain ⟨t', ht', rfl⟩ := hu'
      exact (ih i t t' ht ht').1
    · simpa using h

/-- A step of the thread at a place. -/
theorem stepAt_of_some {number now i : Nat} {ts : List (Thread σ ω)} (ht : ts[i]? = some t) :
    stepAt number now i ts w =
      ((t.step number now w).1, ts.set i (t.step number now w).2.1, (t.step number now w).2.2) := by
  induction ts generalizing i with
  | nil => cases ht
  | cons u ts ih =>
    cases i with
    | zero =>
      rw [List.getElem?_cons_zero, Option.some.injEq] at ht
      rw [stepAt, ht, List.set_cons_zero]
    | succ i =>
      rw [List.getElem?_cons_succ] at ht
      rw [stepAt, ih ht, List.set_cons_succ]

/-- There is no step where no thread is. -/
theorem stepAt_of_none {number now i : Nat} {ts : List (Thread σ ω)} (ht : ts[i]? = none) :
    stepAt number now i ts w = (w, ts, .refused) := by
  induction ts generalizing i with
  | nil => cases i <;> rfl
  | cons u ts ih =>
    cases i with
    | zero => cases ht
    | succ i =>
      rw [List.getElem?_cons_succ] at ht
      rw [stepAt, ih ht]

/-- What has become of a thread, as far as its result goes, after a step. -/
def Turns (t u : Thread σ ω) : Standing ω → Prop
  | .last r _ => t.result? = none ∧ u = .ended r
  | _ => t.result? = u.result?

end Thread

open Thread

/-! ## Steps -/

/-- What a plan leaves has ended if it says so. -/
theorem Plan.go_turns (number now : Nat) (stirred : Bool) (t : Thread σ ω) (ht : t.result? = none) :
    ∀ (p : Plan σ ω) (w : σ),
      Turns t (p.go number now stirred w).2.1 (p.go number now stirred w).2.2
  | .done _, _ => ⟨ht, rfl⟩
  | .look next, w => go_turns number now stirred t ht (next w) w
  | .put world next, _ => go_turns number now stirred t ht next world
  | .wait ms next, w => by
    simp only [go]
    split
    · exact go_turns number now stirred t ht next w
    · exact ht
  | .fork _ _, _ => ht

/-- A thread has ended after a step if the step says so, or if it had before. -/
theorem Thread.step_turns (number now : Nat) (t : Thread σ ω) (w : σ) :
    Turns t (t.step number now w).2.1 (t.step number now w).2.2 := by
  cases t with
  | ended => rfl
  | waiting => rfl
  | ready next stirred => exact Plan.go_turns number now stirred _ rfl next w
  | forked ts line results next =>
    simp only [step]
    split
    · split <;> rfl
    · split
      · rfl
      · rfl
      · rfl
      · split <;> rfl

/-- Two threads after a step each, and the worlds that they have come to. -/
structure StepKeeps (view : σ → σ') (pact : Pact σ) (ends : ω → σ → σ → Prop) (w : σ)
    (r : σ × Thread σ ω × Standing ω) (r' : σ' × Thread σ' ω × Standing ω) : Prop where
  world : r'.1 = view r.1
  standing : r'.2.2 = r.2.2
  leads : pact.Leads ends w r.2.2 r.1
  thread : Thread.Keeps view pact r.1 r.2.1 r'.2.1 ends

section

variable {w v u : σ} {ends : ω → σ → σ → Prop} {r : σ × Thread σ ω × Standing ω}
  {r' : σ' × Thread σ' ω × Standing ω}

theorem Pact.Leads.after {standing : Standing ω} (hwv : pact.grant w v)
    (h : pact.Leads ends v standing u) : pact.Leads ends w standing u := by
  cases standing with
  | last r again =>
    obtain ⟨u', hvu, hends⟩ := h
    exact ⟨u', .head hwv hvu, hends⟩
  | kept => exact .head hwv h
  | back again => exact .head hwv h
  | refused => exact .head hwv h

theorem StepKeeps.after (hwv : pact.grant w v) (h : StepKeeps view pact ends v r r') :
    StepKeeps view pact ends w r r' :=
  ⟨h.world, h.standing, h.leads.after hwv, h.thread⟩

/-- How far a plan goes without waiting or splitting. -/
theorem Plan.Keeps.go {p : Plan σ ω} {p' : Plan σ' ω} (number now : Nat) (stirred : Bool)
    (h : Plan.Keeps view pact pre p p' ends) :
    ∀ w, pre w → StepKeeps view pact ends w (p.go number now stirred w)
      (p'.go number now stirred (view w)) := by
  induction h with
  | done hends =>
    intro w hw
    exact ⟨rfl, rfl, ⟨w, .refl, hends w hw⟩, .ended⟩
  | finish hview hends =>
    intro w hw
    exact ⟨(hview w).symm, rfl, ⟨w, .refl, hends w hw⟩, .ended⟩
  | @note pact pre f next p' ends hview hgrant _ ih =>
    intro w hw
    simp only [Plan.go]
    have hstep := ih w hw (f w) rfl
    rw [hview w] at hstep
    exact hstep.after (hgrant w hw)
  | any hany _ ih =>
    intro w hw
    obtain ⟨i, hi⟩ := hany w hw
    exact ih i w hi
  | look _ ih =>
    intro w hw
    exact ih w hw w rfl
  | put hgrant _ ih =>
    intro w hw
    exact (ih _ rfl).after (hgrant w hw)
  | wait hfirm hmid h ih =>
    intro w hw
    simp only [Plan.go]
    split
    · exact ih w (hmid w hw)
    · exact ⟨rfl, rfl, .refl, .waiting hfirm (hmid w hw) h⟩
  | @fork pact pre branches branches' next next' ends part start partEnds joint hshares hlength
      hjoint hstart hfirm hbranches h =>
    intro w hw
    simp only [Plan.go, hlength]
    refine ⟨rfl, rfl, .refl, ?_⟩
    -- No branch has ended yet.
    have hnone : ([] : List ω) = ([] : List (Nat × ω)).map Prod.snd := rfl
    rw [hnone]
    refine .forked (by simpa using hshares) (by simpa using hlength) (hjoint w hw) .nil ?_ ?_ ?_
    · intro i
      simp [ofPlan]
    · intro i t t' ht ht'
      rw [List.getElem?_map, Option.map_eq_some_iff] at ht ht'
      obtain ⟨p, hp, rfl⟩ := ht
      obtain ⟨p', hp', rfl⟩ := ht'
      exact .ready (hfirm i) (hstart i w hw) (hbranches i p p' hp hp')
    · simpa using h

/-- The branch that has ended in a step of it, with its result. -/
def Standing.ending (i : Nat) : Standing ω → List (Nat × ω)
  | .last r _ => [(i, r)]
  | _ => []

section

variable {n : Nat} {part : Nat → Pact σ} {partEnds : Nat → ω → σ → σ → Prop}
  {joint : List (Nat × ω) → σ → Prop} {i j : Nat} {rs : List (Nat × ω)} {standing : Standing ω}

/-- What a branch does in a step is granted to the fork. -/
theorem Pact.Shares.leads_up (hshares : pact.Shares n part partEnds joint) (hi : i < n)
    (h : (part i).Leads (partEnds i) w standing v) : ReflTransGen pact.grant w v := by
  have hup : ∀ w v, (part i).grant w v → pact.grant w v := fun w v => hshares.up i w v hi
  cases standing with
  | last r again =>
    obtain ⟨u, hwu, hends⟩ := h
    exact (ReflTransGen.mono hup w u hwu).tail (hshares.upLast i r u v hi hends)
  | kept => exact ReflTransGen.mono hup w v h
  | back again => exact ReflTransGen.mono hup w v h
  | refused => exact ReflTransGen.mono hup w v h

/-- What a branch does in a step the others rely on. -/
theorem Pact.Shares.leads_side (hshares : pact.Shares n part partEnds joint) (hij : i ≠ j)
    (h : (part i).Leads (partEnds i) w standing v) : ReflTransGen (part j).rely w v := by
  have hside : ∀ w v, (part i).grant w v → (part j).rely w v := fun w v => hshares.side i j w v hij
  cases standing with
  | last r again =>
    obtain ⟨u, hwu, hends⟩ := h
    exact (ReflTransGen.mono hside w u hwu).tail (hshares.sideLast i j r u v hij hends)
  | kept => exact ReflTransGen.mono hside w v h
  | back again => exact ReflTransGen.mono hside w v h
  | refused => exact ReflTransGen.mono hside w v h

/-- What the branches have in common outlasts the step of one that had not ended. -/
theorem Pact.Shares.leads_joint (hshares : pact.Shares n part partEnds joint) (hlt : i < n)
    (hi : i ∉ rs.map Prod.fst) (h : (part i).Leads (partEnds i) w standing v) (hw : joint rs w) :
    joint (rs ++ standing.ending i) v := by
  have hkept : ∀ u, ReflTransGen (part i).grant w u → joint rs u := by
    intro u hwu
    induction hwu with
    | refl => exact hw
    | tail _ hgrant ih => exact hshares.kept rs i _ _ hlt hi hgrant ih
  cases standing with
  | last r again =>
    obtain ⟨u, hwu, hends⟩ := h
    exact hshares.last rs i r u v hlt hi hends (hkept u hwu)
  | kept => simpa [Standing.ending] using hkept v h
  | back again => simpa [Standing.ending] using hkept v h
  | refused => simpa [Standing.ending] using hkept v h

namespace Thread

variable {ts : List (Thread σ ω)} {ts' : List (Thread σ' ω)} {t x : Thread σ ω}
  {x' : Thread σ' ω} {line : Line} {next : List ω → Plan σ ω} {next' : List ω → Plan σ' ω}

theorem Keeps.relies {t' : Thread σ' ω} (h : Keeps view pact w t t' ends)
    (hrely : ReflTransGen pact.rely w v) : Keeps view pact v t t' ends := by
  induction hrely with
  | refl => exact h
  | tail _ hlast ih => exact ih.rely hlast

/-- The branches that have ended after a step of one that had not. -/
theorem ended_set (ht : ts[i]? = some t) (hnone : t.result? = none) (hturns : Turns t x standing)
    (hended : ∀ j, j ∈ rs.map Prod.fst ↔ ∃ r, ts[j]? = some (.ended r)) :
    ∀ j, j ∈ (rs ++ standing.ending i).map Prod.fst ↔ ∃ r, (ts.set i x)[j]? = some (.ended r) := by
  intro j
  have hi : i < ts.length := (List.getElem?_eq_some_iff.1 ht).1
  have hnot : i ∉ rs.map Prod.fst := by
    intro hmem
    obtain ⟨r, hr⟩ := (hended i).1 hmem
    rw [ht, Option.some.injEq] at hr
    rw [hr] at hnone
    cases hnone
  have hlive : standing.ending i = [] → x.result? = none := by
    intro hending
    cases standing with
    | last r again => cases hending
    | kept => exact hturns.symm.trans hnone
    | back again => exact hturns.symm.trans hnone
    | refused => exact hturns.symm.trans hnone
  by_cases hj : j = i
  · subst hj
    rw [List.getElem?_set_self hi]
    cases hending : standing.ending j with
    | nil =>
      have hx := hlive hending
      rw [List.append_nil]
      refine ⟨fun hmem => absurd hmem hnot, ?_⟩
      rintro ⟨r, hr⟩
      rw [Option.some.injEq] at hr
      rw [hr] at hx
      cases hx
    | cons e rest =>
      cases standing with
      | last r again =>
        rw [hturns.2, ← hending]
        simp [Standing.ending]
      | kept => cases hending
      | back again => cases hending
      | refused => cases hending
  · rw [List.getElem?_set_ne (Ne.symm hj), ← hended j]
    cases standing <;> simp [Standing.ending, hj]

/-- What the step of a branch that had not ended leaves of a fork. -/
theorem Keeps.advance (hshares : pact.Shares ts.length part partEnds joint)
    (hlength : ts.length = ts'.length) (hjoint : joint rs w) (hnodup : (rs.map Prod.fst).Nodup)
    (hended : ∀ j, j ∈ rs.map Prod.fst ↔ ∃ r, ts[j]? = some (.ended r))
    (hthreads : ∀ j u u', ts[j]? = some u → ts'[j]? = some u' →
      Keeps view (part j) w u u' (partEnds j))
    (h : ∀ rs : List (Nat × ω), (rs.map Prod.fst).Perm (List.range ts.length) →
      Plan.Keeps view pact (joint rs) (next (rs.map Prod.snd)) (next' (rs.map Prod.snd)) ends)
    (ht : ts[i]? = some t) (hnone : t.result? = none) (hturns : Turns t x standing)
    (hleads : (part i).Leads (partEnds i) w standing v)
    (hx : Keeps view (part i) v x x' (partEnds i)) :
    Keeps view pact v (.forked (ts.set i x) line ((rs ++ standing.ending i).map Prod.snd) next)
      (.forked (ts'.set i x') line ((rs ++ standing.ending i).map Prod.snd) next') ends := by
  have hnot : i ∉ rs.map Prod.fst := by
    intro hmem
    obtain ⟨r, hr⟩ := (hended i).1 hmem
    rw [ht, Option.some.injEq] at hr
    rw [hr] at hnone
    cases hnone
  have hlt : i < ts.length := (List.getElem?_eq_some_iff.1 ht).1
  refine .forked (by simpa using hshares) (by simpa using hlength)
    (hshares.leads_joint hlt hnot hleads hjoint) ?_ (ended_set ht hnone hturns hended) ?_
    (by simpa using h)
  · cases standing with
    | last r again =>
      rw [Standing.ending, List.map_append, List.nodup_append]
      refine ⟨hnodup, by simp, ?_⟩
      intro j hj k hk
      rw [List.map_singleton, List.mem_singleton] at hk
      rw [hk]
      exact ne_of_mem_of_not_mem hj hnot
    | kept => simpa [Standing.ending] using hnodup
    | back again => simpa [Standing.ending] using hnodup
    | refused => simpa [Standing.ending] using hnodup
  · intro j u u' hu hu'
    by_cases hj : j = i
    · subst hj
      rw [List.getElem?_set_self hlt, Option.some.injEq] at hu
      rw [List.getElem?_set_self (hlength ▸ hlt), Option.some.injEq] at hu'
      rw [← hu, ← hu']
      exact hx
    · rw [List.getElem?_set_ne (Ne.symm hj)] at hu hu'
      exact (hthreads j u u' hu hu').relies (hshares.leads_side (Ne.symm hj) hleads)

/-- When no branch is left that has not ended, all of them have. -/
theorem perm_of_live_eq_zero (hnodup : (rs.map Prod.fst).Nodup)
    (hended : ∀ j, j ∈ rs.map Prod.fst ↔ ∃ r, ts[j]? = some (.ended r)) (hzero : live ts = 0) :
    (rs.map Prod.fst).Perm (List.range ts.length) := by
  rw [List.perm_ext_iff_of_nodup hnodup List.nodup_range]
  intro j
  rw [hended j, List.mem_range]
  constructor
  · rintro ⟨r, hr⟩
    exact (List.getElem?_eq_some_iff.1 hr).1
  · intro hlt
    rw [live, List.countP_eq_zero] at hzero
    have hsome := hzero ts[j] (List.getElem_mem hlt)
    rw [List.getElem?_eq_getElem hlt]
    cases hj : ts[j] with
    | ended r => exact ⟨r, rfl⟩
    | waiting => simp [hj, result?] at hsome
    | ready => simp [hj, result?] at hsome
    | forked => simp [hj, result?] at hsome

/-- A step keeps the pact. -/
theorem Keeps.step {t' : Thread σ' ω} (number now : Nat) (h : Keeps view pact w t t' ends) :
    StepKeeps view pact ends w (t.step number now w) (t'.step number now (view w)) := by
  induction h with
  | ended => exact ⟨rfl, rfl, .refl, .ended⟩
  | waiting hfirm hpre h => exact ⟨rfl, rfl, .refl, .waiting hfirm hpre h⟩
  | ready hfirm hpre h => exact h.go number now _ _ hpre
  | @forked pact w ts ts' line rs next next' ends part partEnds joint hshares hlength hjoint hnodup
      hended hthreads h ih =>
    have hsame : ∀ line', Keeps view pact w (.forked ts line' (rs.map Prod.snd) next)
        (.forked ts' line' (rs.map Prod.snd) next') ends :=
      fun line' => .forked hshares hlength hjoint hnodup hended hthreads h
    have hlive := (hsame line).live_eq
    cases hqueue : line.queue with
    | nil =>
      simp only [Thread.step, hqueue, ← hlive]
      split
      · rename_i hzero
        exact ⟨rfl, rfl, .refl,
          .ready (hshares.firm rs) hjoint (h rs (perm_of_live_eq_zero hnodup hended hzero))⟩
      · exact ⟨rfl, rfl, .refl, hsame line.rest⟩
    | cons i queue =>
      simp only [Thread.step, hqueue]
      cases ht : ts[i]? with
      | none =>
        have ht' : ts'[i]? = none := by
          rw [List.getElem?_eq_none_iff] at ht ⊢
          omega
        rw [stepAt_of_none ht, stepAt_of_none ht']
        exact ⟨rfl, rfl, .refl, hsame line.skip⟩
      | some t =>
        have hlt : i < ts'.length := hlength ▸ (List.getElem?_eq_some_iff.1 ht).1
        obtain ⟨t', ht'⟩ : ∃ t', ts'[i]? = some t' := ⟨ts'[i], List.getElem?_eq_getElem hlt⟩
        rw [stepAt_of_some ht, stepAt_of_some ht']
        cases hresult : t.result? with
        | some r =>
          -- A branch that has ended long ago leaves everything as it is.
          have hresult' := (hthreads i t t' ht ht').result?_eq.symm.trans hresult
          rw [eq_ended_of_result? hresult] at ht ⊢
          rw [eq_ended_of_result? hresult'] at ht' ⊢
          simp only [Thread.step, set_of_getElem? ht, set_of_getElem? ht']
          exact ⟨rfl, rfl, .refl, hsame line.skip⟩
        | none =>
          obtain ⟨hworld, hstanding, hleads, hthread⟩ := ih i t t' ht ht'
          have hturns := step_turns number now t w
          have hafter : ∀ line', Keeps view pact (t.step number now w).1
              (.forked (ts.set i (t.step number now w).2.1) line'
                ((rs ++ (t.step number now w).2.2.ending i).map Prod.snd) next)
              (.forked (ts'.set i (t'.step number now (view w)).2.1) line'
                ((rs ++ (t.step number now w).2.2.ending i).map Prod.snd) next') ends :=
            fun line' => .advance hshares hlength hjoint hnodup hended hthreads h ht hresult hturns
              hleads hthread
          have hup := hshares.leads_up (List.getElem?_eq_some_iff.1 ht).1 hleads
          cases hr : t.step number now w with
          | mk v rest =>
            cases hr' : t'.step number now (view w) with
            | mk v' rest' =>
              obtain ⟨x, standing⟩ := rest
              obtain ⟨x', standing'⟩ := rest'
              simp only [hr, hr'] at hworld hstanding hafter hup ⊢
              subst hworld hstanding
              cases standing' with
              | kept => exact ⟨rfl, rfl, hup, by simpa [Standing.ending] using hafter line⟩
              | refused => exact ⟨rfl, rfl, hup, by simpa [Standing.ending] using hafter line.skip⟩
              | last r again =>
                exact ⟨rfl, rfl, hup, by simpa [Standing.ending] using hafter (line.leave again)⟩
              | back again =>
                have hlive' := (hafter line).live_eq
                simp only [hlive']
                split
                · exact ⟨rfl, rfl, hup, by simpa [Standing.ending] using hafter (line.pass again).rest⟩
                · exact ⟨rfl, rfl, hup, by simpa [Standing.ending] using hafter (line.pass again)⟩

end Thread

end

end

end

end Playbook
