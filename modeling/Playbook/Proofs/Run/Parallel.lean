import Playbook.Proofs.Run.Courses

/-!
# `Proofs.Run.Parallel` — branches never stop one another

Whatever becomes of the other branches of a parallel block, each runs once and to its own end before the block ends, and how the block
goes is settled by the order in which they end. A branch that names its result has bound the name to it when the block ends, if it
went well, and has bound nothing if it did not.

## Contents
- **Outcomes.** `firstFailure_eq_ok_iff`, `firstFailure_of_first`.
- **Branches.** `SideBySide`, `Account.sideBySide`; `Account.named` for those that name their results.
- **Names.** `Host.NamesResults`: what the names read after the block.
- **Runs.** `parallel_settles`.
-/

namespace Playbook

/-! ## Outcomes -/

theorem firstFailure_eq_ok_iff {outcomes : List Outcome} :
    Host.firstFailure outcomes = .ok () ↔ ∀ r ∈ outcomes, r = .ok () := by
  induction outcomes with
  | nil => simp [Host.firstFailure]
  | cons r rest ih =>
    cases r with
    | ok u => simpa [Host.firstFailure] using ih
    | error e => simp [Host.firstFailure]

/-- The first failure is the one before which all went well. -/
theorem firstFailure_of_first {before after : List Outcome} {e : Failure}
    (hbefore : ∀ r ∈ before, r = .ok ()) :
    Host.firstFailure (before ++ .error e :: after) = .error e := by
  induction before with
  | nil => rfl
  | cons r rest ih =>
    obtain rfl := hbefore r List.mem_cons_self
    exact ih fun r hr => hbefore r (List.mem_cons_of_mem _ hr)

/-! ## Branches -/

/-- What the journal says of a parallel block at a place that went as given. The branches ended in an order, each of them with a
    result. -/
structure SideBySide (l : Journal) (x : Place) (policy : FailurePolicy) (branches : List Branch)
    (rs : List (Nat × Outcome)) (r : Outcome) : Prop where
  /-- Each branch ends once. -/
  each : (rs.map Prod.fst).Perm (List.range branches.length)
  /-- The journal names the branches in the order in which they ended. -/
  order : l.endings x = rs
  /-- Each has run once, and to its own end. -/
  whole : ∀ i b r, branches[i]? = some b → (i, r) ∈ rs →
    Account (.branch i :: x) (.task (.branch b)) (l.under (.branch i :: x)) r ∧
      (l.under (.branch i :: x)).course x = turn x (.branch i) (.branch b) r
  /-- All that they do is done between the beginning of the block and its end. -/
  between : ∃ m, l.under x = .began x (.stmt (.parallel policy branches)) :: (m ++ [.ended x r]) ∧
    ∀ e ∈ m, ∃ i < branches.length, (.branch i :: x) <:+ e.place
  /-- Failures that are to be ignored do not count. -/
  ignored : policy = .ignore → r = .ok ()
  /-- If failures count, the block goes well if and only if all of its branches do. -/
  fine : policy ≠ .ignore → (r = .ok () ↔ ∀ q ∈ rs, q.2 = .ok ())
  /-- If failures count, the block fails as the first branch did that has failed. -/
  first : policy ≠ .ignore → ∀ before i e after, rs = before ++ (i, .error e) :: after →
    (∀ q ∈ before, q.2 = .ok ()) → r = .error e
  /-- A branch that names its result and fails binds nothing. -/
  silent : ∀ i b e, branches[i]? = some b → b.isNamed → (i, .error e) ∈ rs →
    ∀ y n bd text, (.branch i :: x) <:+ y → .bound y n bd text ∉ l

section

variable {x y : Place} {policy : FailurePolicy} {branches : List Branch} {b : Branch}
  {l l' m : Journal} {rs : List (Nat × Outcome)} {r : Outcome} {e : Entry}

/-- A branch that names its result holds a session and then binds the name to what it gave. -/
theorem Account.named (h : Account y (.task (.branch b)) m r) (hnamed : b.isNamed) :
    ∃ name call resume m', b.name = some name ∧ m = .began y (.branch b) :: (m' ++ [.ended y r]) ∧
      Then (Asked y call resume) (Wrote y name .assigned) m' r := by
  cases h with
  | leaf h =>
    cases h with
    | @branchSession name call _ _ h => exact ⟨name, call, false, _, rfl, rfl, h⟩
    | @branchResume name call _ _ h => exact ⟨name, call, true, _, rfl, rfl, h⟩
  | chain hparts _ => simp [Task.chain, hnamed] at hparts

theorem Account.silent {e : Failure} (h : Account y (.task (.branch b)) m (.error e))
    (hnamed : b.isNamed) {z : Place} {n : Nat} {bd : Binding} {text : String} :
    .bound z n bd text ∉ m := by
  obtain ⟨name, call, resume, m', _, rfl, hthen⟩ := h.named hnamed
  have hnone : .bound z n bd text ∉ m' := by
    cases hthen with
    | stop hask =>
      cases hask
      simp
    | next hask hwrite =>
      cases hask
      cases hwrite
      simp
  simp [hnone]

/-- A branch that names its result and goes well has bound the name to what the session gave. -/
theorem Account.bound (h : Account y (.task (.branch b)) m (.ok ())) {name : String}
    (hnamed : b.isNamed) (hname : b.name = some name) :
    ∃ k text n bd, .answered y k (.ok text) ∈ m ∧ .bound y n bd text ∈ m ∧ bd.name = name := by
  obtain ⟨name', call, resume, m', hname', rfl, hthen⟩ := h.named hnamed
  obtain rfl := Option.some.inj (hname.symm.trans hname')
  cases hthen with
  | @next _ _ text _ hask hwrite =>
    cases hask with
    | mk k _ =>
      cases hwrite with
      | bound n receipt =>
        exact ⟨k, text, n, Host.bindingOf name .assigned text receipt, by simp, by simp, rfl⟩

theorem endings_under (x : Place) (l : Journal) : (l.under x).endings x = l.endings x := by
  unfold Journal.endings Journal.under
  rw [List.filterMap_filter]
  congr 1
  funext e
  split
  · rfl
  · rename_i hplace
    cases e with
    | ended z r =>
      unfold Entry.ending?
      split
      · rename_i i y r' heq
        rw [Entry.ended.injEq] at heq
        obtain ⟨rfl, rfl⟩ := heq
        rw [decide_eq_true_eq] at hplace
        have hne : y ≠ x := fun hy => hplace (hy ▸ List.suffix_cons _ y)
        exact (if_neg hne).symm
      · rfl
    | _ => rfl

/-- The end of a block is not the end of one of its branches. -/
theorem ending?_self (x : Place) (r : Outcome) : (Entry.ended x r).ending? x = none := by
  unfold Entry.ending?
  split
  · rename_i i y r' heq
    rw [Entry.ended.injEq] at heq
    exact if_neg fun hy => List.cons_ne_self _ _ (heq.1.symm.trans hy.symm)
  · rfl

/-- What a parallel block leaves. -/
theorem Account.sideBySide
    (h : Account x (.task (.stmt (.parallel policy branches))) (l.under x) r) :
    ∃ rs, SideBySide l x policy branches rs r := by
  generalize hl : l.under x = under at h
  cases h with
  | leaf h => cases h
  | chain hparts _ => cases hparts
  | @parallel _ _ _ m rs hperm hendings honly hbranches =>
    have hunder : ∀ i, l.under (.branch i :: x) = m.under (.branch i :: x) := by
      intro i
      have hx : ¬(Leg.branch i :: x) <:+ x := not_suffix_of_leg (List.suffix_refl _)
      rw [← Journal.under_under (List.suffix_cons (Leg.branch i) x), hl]
      change Journal.under _ ([_] ++ (m ++ [_])) = _
      rw [Journal.under_append, Journal.under_append, Journal.under_eq_nil (l := [Entry.began x _]) (by simpa [Entry.place] using hx),
        Journal.under_eq_nil (l := [Entry.ended x _]) (by simpa [Entry.place] using hx)]
      simp
    have hwhole : ∀ i b r, branches[i]? = some b → (i, r) ∈ rs →
        Account (.branch i :: x) (.task (.branch b)) (l.under (.branch i :: x)) r := by
      intro i b r hb hr
      rw [hunder]
      exact hbranches i b r hb hr
    have hsettled : policy ≠ .ignore →
        Host.settle policy (rs.map Prod.snd) = Host.firstFailure (rs.map Prod.snd) := by
      intro hpolicy
      cases policy with
      | ignore => exact absurd rfl hpolicy
      | failFast => rfl
      | proceed => rfl
    refine ⟨rs, hperm, ?_, ?_, ⟨m, hl, honly⟩, ?_, ?_, ?_, ?_⟩
    · rw [← endings_under, hl]
      change Journal.endings x ([Entry.began x _] ++ (m ++ [Entry.ended x _])) = rs
      have hlast : Journal.endings x [.ended x (Host.settle policy (rs.map Prod.snd))] = [] := by
        rw [Journal.endings, List.filterMap_eq_nil_iff]
        simpa using ending?_self x _
      rw [Journal.endings_append, Journal.endings_append, hendings, hlast, List.append_nil]
      rfl
    · intro i b r hb hr
      exact ⟨hwhole i b r hb hr, (hwhole i b r hb hr).course_task (by simp)⟩
    · rintro rfl
      rfl
    · intro hpolicy
      rw [hsettled hpolicy, firstFailure_eq_ok_iff]
      exact List.forall_mem_map
    · rintro hpolicy before i e after rfl hbefore
      rw [hsettled hpolicy, List.map_append, List.map_cons]
      refine firstFailure_of_first fun r hr => ?_
      obtain ⟨q, hq, rfl⟩ := List.mem_map.1 hr
      exact hbefore q hq
    · intro i b e hb hnamed hr y n bd text hy hmem
      exact (hwhole i b (.error e) hb hr).silent hnamed (Journal.mem_under.2 ⟨hmem, hy⟩)

/-- When a block has ended, all has been told of what its branches do. -/
theorem mem_of_ended {t : Task} {r' : Outcome} (hl : l.under x = .began x t :: (m ++ [.ended x r]))
    (hm : ∀ e ∈ m, e.place ≠ x) (hbegin : l' <+: l) (hended : .ended x r' ∈ l') (he : e ∈ l)
    (hplace : x <:+ e.place) : e ∈ l' := by
  obtain ⟨rest, rfl⟩ := hbegin
  have hnil : Journal.under x rest = [] := by
    rw [Journal.under_append, ← List.cons_append] at hl
    rcases List.eq_nil_or_concat (Journal.under x rest) with hnil | ⟨rest', e', hrest⟩
    · exact hnil
    · -- Else the end of the block would not be the last thing told of it.
      rw [hrest, List.concat_eq_append, ← List.append_assoc] at hl
      have hfront := (List.append_inj' hl rfl).1
      have hmem : .ended x r' ∈ Entry.began x t :: m := by
        rw [← hfront]
        exact List.mem_append_left _ (Journal.mem_under.2 ⟨hended, List.suffix_refl x⟩)
      rcases List.mem_cons.1 hmem with heq | hmem
      · cases heq
      · exact absurd rfl (hm _ hmem)
  rcases List.mem_append.1 he with he | he
  · exact he
  · have hmem : e ∈ Journal.under x rest := Journal.mem_under.2 ⟨he, hplace⟩
    rw [hnil] at hmem
    cases hmem

end

/-! ## Names -/

namespace Host

variable {τ η κ δ : Type}

/-- After a parallel block a name for the result of a branch that went well reads that result, unless another text has been bound
    to it since. -/
def NamesResults (h : Host τ η κ δ) (p : Program) (inputs : KeyMap String) (limit : Option Nat)
    (s : RunState τ κ δ) (l : Journal) (x : Place) (branches : List Branch)
    (rs : List (Nat × Outcome)) : Prop :=
  ∀ i b name, branches[i]? = some b → b.isNamed → b.name = some name → (i, .ok ()) ∈ rs →
    ∃ k text n bd, .answered (.branch i :: x) k (.ok text) ∈ l ∧ bd.name = name ∧
      ∀ l' w r, h.Tale p inputs limit s [] l' w → .ended x r ∈ l' →
        ∃ l₁ l₂, l' = l₁ ++ .bound (.branch i :: x) n bd text :: l₂ ∧
          ((∀ y n' b' text', .bound y n' b' text' ∈ l₂ → b'.name ≠ name) →
            w.scope.value? name = some text)

variable {h : Host τ η κ δ} {p : Program} {inputs : KeyMap String} {limit : Option Nat}
  {s : RunState τ κ δ} {l : Journal} {x : Place} {policy : FailurePolicy} {branches : List Branch}
  {rs : List (Nat × Outcome)} {r r' : Outcome}

theorem Recounted.namesResults (htold : h.Recounted p inputs limit s [] l r)
    (hside : SideBySide l x policy branches rs r') :
    h.NamesResults p inputs limit s l x branches rs := by
  intro i b name hb hnamed hname hr
  obtain ⟨haccount, _⟩ := hside.whole i b (.ok ()) hb hr
  obtain ⟨k, text, n, bd, hanswered, hbound, rfl⟩ := haccount.bound hnamed hname
  obtain ⟨hbound, hplace⟩ := Journal.mem_under.1 hbound
  refine ⟨k, text, n, bd, (Journal.mem_under.1 hanswered).1, rfl, fun l' w r htale hended => ?_⟩
  obtain ⟨m, hm, honly⟩ := hside.between
  have hdeep : ∀ e ∈ m, e.place ≠ x := by
    rintro e he heq
    obtain ⟨i, _, hi⟩ := honly e he
    exact not_suffix_of_leg hi (heq ▸ List.suffix_refl _)
  have hbound' := mem_of_ended hm hdeep (htold.prefix_of_tale htale) hended hbound
    ((List.suffix_cons _ x).trans hplace)
  obtain ⟨l₁, l₂, rfl⟩ := List.append_of_mem hbound'
  refine ⟨l₁, l₂, rfl, fun hlast => ?_⟩
  rw [htale.scope_eq]
  exact Scope.value?_replay hlast

end Host

/-! ## Runs -/

/-- Whatever its backend, its store and its sink do, each branch of a parallel block is run once and to its own end before the block
    ends; the block goes as its policy says, by the order in which the branches ended; and the names for their results read these. -/
theorem parallel_settles {τ η κ δ : Type} (h : Host τ η κ δ) (p : Program) (inputs : KeyMap String) :
    (∀ backend store sink, ∃ r, (h.run p inputs none (.fresh backend store sink)).2 = some r) ∧
    ∀ limit s r, (h.run p inputs limit s).2 = some r →
      ∃ l, h.Recounted p inputs limit s [] l r ∧
        (∀ w, h.Passes limit 0 true (h.begun p inputs s).1 (h.begun p inputs s).2 w →
          ∃ l', h.Tale p inputs limit s [] l' w) ∧
        ∀ x policy branches, .began x (.stmt (.parallel policy branches)) ∈ l →
          ∃ rs r', SideBySide l x policy branches rs r' ∧
            h.NamesResults p inputs limit s l x branches rs := by
  refine ⟨h.run_ends p inputs, fun limit s r hrun => ?_⟩
  obtain ⟨l, htold, hstory⟩ := Host.run_story hrun
  refine ⟨l, htold, fun w hw => Host.tale_of_moment hw, fun x policy branches hmem => ?_⟩
  obtain ⟨_, r', haccount⟩ := hstory.within hmem
  obtain ⟨rs, hside⟩ := haccount.sideBySide
  exact ⟨rs, r', hside, htold.namesResults hside⟩

/-- A program of two branches that name their results. -/
def Program.racing : Program :=
  ⟨[], [], [.parallel .failFast [.mk (some "a") (.session ⟨none, "One"⟩),
    .mk (some "b") (.session ⟨none, "fail Two"⟩)]]⟩

/-- Whether an entry tells that a parallel block begins of which the second branch ends before the first. -/
def Entry.isRace (l : Journal) : Entry → Bool
  | .began x (.stmt (.parallel _ _)) => (l.endings x).map Prod.fst == [1, 0]
  | _ => false

/-- The second branch fails while the first one is under way. -/
theorem parallel_settles_racing : ∃ l r x policy branches rs r',
    Host.trial.Recounted .racing [] none .slowFirst [] l r ∧ SideBySide l x policy branches rs r' ∧
    Host.trial.NamesResults .racing [] none .slowFirst l x branches rs ∧ rs.map Prod.fst = [1, 0] := by
  obtain ⟨hends, hruns⟩ := parallel_settles Host.trial .racing []
  obtain ⟨r, hrun⟩ := hends RunState.slowFirst.backend RunState.slowFirst.store ()
  obtain ⟨l, htold, _, hblocks⟩ := hruns none .slowFirst r hrun
  have hworked : (Host.trial.journaled.driveWithin none 120 0 true
      (Host.trial.toldStart .racing [] .slowFirst []) (Host.trial.toldThread .racing [])).any
        (fun w => w.1.journal.any (Entry.isRace w.1.journal)) = true := by
    decide +kernel
  obtain ⟨w, hwithin, hrace⟩ := (Option.any_eq_true _ _).1 hworked
  rw [htold.journal_of_within hwithin] at hrace
  obtain ⟨entry, hmem, hentry⟩ := List.any_eq_true.1 hrace
  unfold Entry.isRace at hentry
  split at hentry
  · rename_i x policy branches
    obtain ⟨rs, r', hside, hnames⟩ := hblocks x policy branches hmem
    rw [hside.order, beq_iff_eq] at hentry
    exact ⟨l, r, x, policy, branches, rs, r', htold, hside, hnames, hentry⟩
  · cases hentry

end Playbook
