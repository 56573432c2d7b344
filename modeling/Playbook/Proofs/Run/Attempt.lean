import Playbook.Proofs.Run.Courses

/-!
# `Proofs.Run.Attempt` — what runs after a failure

Whatever a program is made of, its blocks end at the first failure, and a `try` runs its handler and its final body as it should.

In a program without parallel blocks a failure that cannot be caught ends everything on its way out: after it nothing is told but
that the enclosing tasks have ended, the innermost first, and what their final bodies do.

## Contents
- **No branches.** `Program.isSequential`.
- **Unwinding.** `Unwound`, `Account.unwound`.
- **Runs.** `attempts_disciplined`.
-/

namespace Playbook

/-! ## No branches -/

mutual

/-- Whether there is no parallel block in a statement. -/
def Stmt.isSequential : Stmt → Bool
  | .parallel _ _ => false
  | .attempt body _ handler final =>
    areSequential body && Stmt.isSequentialOption handler && Stmt.isSequentialOption final
  | .loop _ body => areSequential body
  | _ => true

/-- Whether there is no parallel block in a block. -/
def Stmt.areSequential : List Stmt → Bool
  | [] => true
  | s :: rest => s.isSequential && areSequential rest

/-- Whether there is no parallel block in a block that may be missing. -/
def Stmt.isSequentialOption : Option (List Stmt) → Bool
  | none => true
  | some b => areSequential b

end

/-- Whether there is no parallel block in a program. -/
def Program.isSequential (p : Program) : Bool :=
  Stmt.areSequential p.statements

/-- Whether there is no parallel block in a task. -/
def Task.isSequential : Task → Bool
  | .stmt s => s.isSequential
  | .block b => Stmt.areSequential b
  | .branch _ => false

/-- Whether there is no parallel block in what there is an account of. -/
def Passage.isSequential : Passage → Bool
  | .task t => t.isSequential
  | .chain parts => parts.all fun part => part.2.isSequential
  | .handling _ handler _ => Stmt.isSequentialOption handler

/-! ## Unwinding -/

/-- What is told after a failure at a place until all up to a place around it has ended with it: one after another the places
    end, the innermost first, and final bodies run on the way. -/
inductive Unwound (e : Failure) (l : Journal) (y : Place) : Place → Journal → Prop where
  | here : Unwound e l y y [.ended y (.error e)]
  /-- Out of a statement of a block, or out of a round of a loop. -/
  | out {leg : Leg} {x : Place} {m : Journal} (hleg : (∃ i, leg = .stmt i) ∨ ∃ i, leg = .round i)
      (h : Unwound e l y (leg :: x) m) : Unwound e l y x (m ++ [.ended x (.error e)])
  /-- Out of the body or the handler of a `try`: its final body runs, if there is one, and does not fail. -/
  | attempt {leg : Leg} {x : Place} {body : List Stmt} {catchName : Option String}
      {handler final : Option (List Stmt)} {m f : Journal} (hleg : leg = .body ∨ leg = .handler)
      (hx : .began x (.stmt (.attempt body catchName handler final)) ∈ l)
      (h : Unwound e l y (leg :: x) m) (hfinal : Account x (.chain (finalChain final)) f (.ok ())) :
      Unwound e l y x (m ++ f ++ [.ended x (.error e)])

section

/-- Where an entry lies in two journals one after the other. -/
theorem split_append {a b m₁ m₂ : Journal} {e : Entry} (h : a ++ b = m₁ ++ e :: m₂) :
    (∃ m, a = m₁ ++ e :: m ∧ m₂ = m ++ b) ∨ ∃ m, b = m ++ e :: m₂ ∧ m₁ = a ++ m := by
  rcases List.append_eq_append_iff.1 h with ⟨m, hm, hb⟩ | ⟨m, ha, hm⟩
  · exact .inr ⟨m, hb, hm⟩
  · cases m with
    | nil =>
      rw [List.nil_append] at hm
      exact .inr ⟨[], hm.symm, by simpa using ha.symm⟩
    | cons e' m =>
      rw [List.cons_append, List.cons.injEq] at hm
      obtain ⟨rfl, rfl⟩ := hm
      exact .inl ⟨m, ha, rfl⟩

/-- Where an entry lies among those of a task that neither begins nor ends the task. -/
theorem split_task {x : Place} {t : Task} {m m₁ m₂ : Journal} {r : Outcome} {e : Entry}
    (he : e.isMark = false) (h : Entry.began x t :: (m ++ [.ended x r]) = m₁ ++ e :: m₂) :
    ∃ m₁' m₂', m = m₁' ++ e :: m₂' ∧ m₂ = m₂' ++ [.ended x r] := by
  cases m₁ with
  | nil =>
    rw [List.nil_append, List.cons.injEq] at h
    rw [← h.1] at he
    cases he
  | cons a m₁ =>
    rw [List.cons_append, List.cons.injEq] at h
    rcases split_append h.2 with ⟨m', rfl, rfl⟩ | ⟨m', hm', _⟩
    · exact ⟨m₁, m', rfl, rfl⟩
    · rcases List.append_eq_singleton_iff.1 hm'.symm with ⟨_, heq⟩ | ⟨_, heq⟩
      · rw [List.cons.injEq] at heq
        rw [heq.1] at he
        cases he
      · cases heq

variable {l : Journal} {y : Place} {n : Nat} {e : Failure}

theorem Asked.answered {x : Place} {call : SessionCall} {resume : Bool} {m m₁ m₂ : Journal}
    {r : Except Failure String} (h : Asked x call resume m r)
    (hm : m = m₁ ++ .answered y n (.error e) :: m₂) : r = .error e ∧ m₂ = [] ∧ y = x := by
  cases h with
  | mk k r =>
    cases m₁ with
    | nil => cases hm
    | cons a m₁ =>
      rw [List.cons_append, List.cons.injEq] at hm
      cases m₁ with
      | nil =>
        rw [List.nil_append, List.cons.injEq, Entry.answered.injEq] at hm
        obtain ⟨_, ⟨rfl, _, rfl⟩, rfl⟩ := hm
        exact ⟨rfl, rfl, rfl⟩
      | cons b m₁ =>
        rw [List.cons_append, List.cons.injEq] at hm
        exact absurd hm.2.2.symm (List.append_ne_nil_of_right_ne_nil m₁ (List.cons_ne_nil _ _))

theorem Valued.answered {x : Place} {value : Expr} {m m₁ m₂ : Journal} {r : Except Failure String}
    (h : Valued x value m r) (hm : m = m₁ ++ .answered y n (.error e) :: m₂) :
    r = .error e ∧ m₂ = [] ∧ y = x := by
  have hnone : [] ≠ m₁ ++ Entry.answered y n (.error e) :: m₂ :=
    (List.append_ne_nil_of_right_ne_nil m₁ (List.cons_ne_nil _ _)).symm
  cases h with
  | str => exact absurd hm hnone
  | var => exact absurd hm hnone
  | unknown => exact absurd hm hnone
  | session h => exact h.answered hm
  | resume h => exact h.answered hm

/-- No session is held while a binding is written. -/
theorem Wrote.not_answered {x : Place} {name text : String} {kind : BindingKind} {m : Journal}
    {r : Outcome} {r' : Except Failure String} (h : Wrote x name kind text m r) :
    .answered y n r' ∉ m := by
  cases h <;> simp

theorem Then.answered {x : Place} {name : String} {kind : BindingKind} {m m₁ m₂ : Journal}
    {r : Outcome} {first : Journal → Except Failure String → Prop}
    (hfirst : ∀ {m m₁ m₂ r}, first m r → m = m₁ ++ .answered y n (.error e) :: m₂ →
      r = .error e ∧ m₂ = [] ∧ y = x) (h : Then first (Wrote x name kind) m r)
    (hm : m = m₁ ++ .answered y n (.error e) :: m₂) : r = .error e ∧ m₂ = [] ∧ y = x := by
  cases h with
  | stop h =>
    obtain ⟨hr, hm₂, hy⟩ := hfirst h hm
    cases hr
    exact ⟨rfl, hm₂, hy⟩
  | next h h' =>
    rcases split_append hm with ⟨m, hfst, _⟩ | ⟨m, hsnd, _⟩
    · cases (hfirst h hfst).1
    · exact absurd (hsnd ▸ List.mem_append_right m List.mem_cons_self) h'.not_answered

/-- A task in which nothing else begins fails at once when its session does. -/
theorem Leaf.answered {x : Place} {t : Task} {m m₁ m₂ : Journal} {r : Outcome} (h : Leaf x t m r)
    (hm : m = m₁ ++ .answered y n (.error e) :: m₂) : r = .error e ∧ m₂ = [] ∧ y = x := by
  cases h with
  | comment =>
    exact absurd hm (List.append_ne_nil_of_right_ne_nil m₁ (List.cons_ne_nil _ _)).symm
  | session h =>
    obtain ⟨rfl, hrest⟩ := h.answered hm
    exact ⟨rfl, hrest⟩
  | resume h =>
    obtain ⟨rfl, hrest⟩ := h.answered hm
    exact ⟨rfl, hrest⟩
  | assign h => exact h.answered Valued.answered hm
  | output h => exact h.answered Valued.answered hm
  | branchSession h => exact h.answered Asked.answered hm
  | branchResume h => exact h.answered Asked.answered hm

theorem blockChain_sequential {b : List Stmt} (h : Stmt.areSequential b) (i : Nat) :
    ((blockChain i b).all fun part => part.2.isSequential) ∧
      ∀ leg ∈ (blockChain i b).map Prod.fst, ∃ j, leg = .stmt j := by
  induction b generalizing i with
  | nil => simp [blockChain]
  | cons s rest ih =>
    rw [Stmt.areSequential, Bool.and_eq_true] at h
    obtain ⟨hall, hlegs⟩ := ih h.2 (i + 1)
    refine ⟨Bool.and_eq_true_iff.2 ⟨h.1, hall⟩, ?_⟩
    intro leg hleg
    rcases List.mem_cons.1 hleg with rfl | hleg
    · exact ⟨i, rfl⟩
    · exact hlegs leg hleg

theorem roundChain_sequential {b : List Stmt} (h : Stmt.areSequential b) (i k : Nat) :
    ((roundChain b i k).all fun part => part.2.isSequential) ∧
      ∀ leg ∈ (roundChain b i k).map Prod.fst, ∃ j, leg = .round j := by
  induction k generalizing i with
  | zero => simp [roundChain]
  | succ k ih =>
    obtain ⟨hall, hlegs⟩ := ih (i + 1)
    refine ⟨Bool.and_eq_true_iff.2 ⟨h, hall⟩, ?_⟩
    intro leg hleg
    rcases List.mem_cons.1 hleg with rfl | hleg
    · exact ⟨i, rfl⟩
    · exact hlegs leg hleg

/-- The tasks that follow one another in a task without parallel blocks. -/
theorem chain_sequential {t : Task} {parts : List (Leg × Task)} (hparts : t.chain = some parts)
    (h : t.isSequential) : (Passage.chain parts).isSequential ∧
      ∀ leg ∈ parts.map Prod.fst, (∃ i, leg = .stmt i) ∨ ∃ i, leg = .round i := by
  match t, hparts, h with
  | .block b, hparts, h =>
    obtain rfl := Option.some.inj hparts
    exact (blockChain_sequential h 0).imp id fun hlegs leg hleg => .inl (hlegs leg hleg)
  | .stmt (.loop count body), hparts, h =>
    obtain rfl := Option.some.inj hparts
    exact (roundChain_sequential h 0 count.toNat).imp id fun hlegs leg hleg => .inr (hlegs leg hleg)

/-- A failure that cannot be caught is passed on. -/
theorem Account.passed {x : Place} {catchName : Option String} {handler : Option (List Stmt)}
    {m : Journal} {r : Outcome} (h : Account x (.handling catchName handler (.error e)) m r)
    (hcatchable : e.isCatchable = false) : m = [] ∧ r = .error e := by
  cases h with
  | unhandled => exact ⟨rfl, rfl⟩
  | unbound hc => simp [hcatchable] at hc
  | caught hc => simp [hcatchable] at hc

/-- What a final body tells, if it does not fail, given that it does not say that it failed. -/
theorem Account.finished {x : Place} {final : Option (List Stmt)} {m : Journal} {r : Outcome}
    (h : Account x (.chain (finalChain final)) m r) (hr : ∀ e', .ended (.final :: x) (.error e') ∉ m) :
    r = .ok () := by
  cases final with
  | none =>
    cases h with
    | nil => rfl
  | some fb =>
    cases h with
    | @stop _ _ _ _ _ e' h =>
      obtain ⟨m', rfl, _⟩ := h.task_shape
      exact absurd (by simp) (hr e')
    | next _ h hrest =>
      cases hrest with
      | nil => rfl

/-- A failure that cannot be caught ends all of the tasks around it. -/
theorem Account.unwound {x : Place} {passage : Passage} {m m₁ m₂ : Journal} {r : Outcome}
    (h : Account x passage m r) (hsequential : passage.isSequential)
    (hm : m = m₁ ++ .answered y n (.error e) :: m₂) (hml : ∀ e ∈ m, e ∈ l)
    (hcatchable : e.isCatchable = false) (houtside : .final ∉ y)
    (hfinals : ∀ z e', z <:+ y → .ended (.final :: z) (.error e') ∉ l) :
    r = .error e ∧
      match passage with
      | .task _ => Unwound e l y x m₂
      | .chain parts => ∃ leg ∈ parts.map Prod.fst, Unwound e l y (leg :: x) m₂
      | .handling _ _ _ => Unwound e l y (.handler :: x) m₂ := by
  induction h generalizing m₁ m₂ with
  | leaf h =>
    obtain ⟨m₁', m₂', hm', rfl⟩ := split_task rfl hm
    obtain ⟨rfl, rfl, rfl⟩ := h.answered hm'
    exact ⟨rfl, .here⟩
  | chain hparts h ih =>
    obtain ⟨m₁', m₂', hm', rfl⟩ := split_task rfl hm
    obtain ⟨hall, hlegs⟩ := chain_sequential hparts hsequential
    obtain ⟨rfl, leg, hleg, hunwound⟩ := ih hall hm' fun e he => hml e (by simp [he])
    exact ⟨rfl, .out (hlegs leg hleg) hunwound⟩
  | @attempt x body catchName handler final ma mb mc ra rb rc hbody hhandling hfinal iha ihb ihc =>
    obtain ⟨m₁', m₂', hm', rfl⟩ := split_task rfl hm
    simp only [Passage.isSequential, Task.isSequential, Stmt.isSequential, Bool.and_eq_true]
      at hsequential
    obtain ⟨⟨hbodySeq, hhandlerSeq⟩, _⟩ := hsequential
    have hx : .began x (.stmt (.attempt body catchName handler final)) ∈ l := hml _ (by simp)
    have hin : ∀ {leg : Leg} {m : Journal}, (∀ e ∈ m, (leg :: x) <:+ e.place) →
        (∃ m₁ m₂, m = m₁ ++ .answered y n (.error e) :: m₂) → (leg :: x) <:+ y := by
      rintro leg _ hm ⟨m₁, m₂, rfl⟩
      exact hm (.answered y n (.error e)) (List.mem_append_right m₁ List.mem_cons_self)
    -- The final body does not fail, so it leaves the failure as it is.
    have hrc : x <:+ y → rc = .ok () := fun hxy => hfinal.finished fun e' hmem =>
      hfinals x e' hxy (hml _ (by simp [hmem]))
    rcases split_append hm' with ⟨m', hab, rfl⟩ | ⟨m', hc, _⟩
    · rcases split_append hab with ⟨m'', ha, rfl⟩ | ⟨m'', hb, _⟩
      · obtain ⟨rfl, hunwound⟩ := iha hbodySeq ha fun e he => hml e (by simp [he])
        obtain ⟨rfl, rfl⟩ := hhandling.passed hcatchable
        obtain rfl := hrc ((List.suffix_cons _ x).trans (hin hbody.covered ⟨_, _, ha⟩))
        rw [List.append_nil]
        exact ⟨rfl, .attempt (.inl rfl) hx hunwound hfinal⟩
      · obtain ⟨rfl, hunwound⟩ := ihb hhandlerSeq hb fun e he => hml e (by simp [he])
        have hy : .answered y n (.error e) ∈ mb := hb ▸ List.mem_append_right m'' List.mem_cons_self
        obtain ⟨leg, _, hleg⟩ := hhandling.covered_handling _ hy
        obtain rfl := hrc ((List.suffix_cons _ x).trans hleg)
        exact ⟨rfl, .attempt (.inr rfl) hx hunwound hfinal⟩
    · exact absurd ((hin hfinal.covered_final ⟨_, _, hc⟩).subset List.mem_cons_self) houtside
  | parallel => cases hsequential
  | nil => exact absurd hm (List.append_ne_nil_of_right_ne_nil m₁ (List.cons_ne_nil _ _)).symm
  | stop h ih =>
    obtain ⟨heq, hunwound⟩ := ih (Bool.and_eq_true_iff.1 hsequential).1 hm hml
    exact ⟨heq, _, List.mem_cons_self, hunwound⟩
  | next _ h hrest ih ih' =>
    obtain ⟨hfirst, hothers⟩ := Bool.and_eq_true_iff.1 hsequential
    rcases split_append hm with ⟨m', ha, _⟩ | ⟨m', hb, _⟩
    · cases (ih hfirst ha fun e he => hml e (List.mem_append_left _ he)).1
    · obtain ⟨heq, leg, hleg, hunwound⟩ :=
        ih' hothers hb fun e he => hml e (List.mem_append_right _ he)
      exact ⟨heq, leg, List.mem_cons_of_mem _ hleg, hunwound⟩
  | fine => exact absurd hm (List.append_ne_nil_of_right_ne_nil m₁ (List.cons_ne_nil _ _)).symm
  | unhandled h => exact absurd hm (List.append_ne_nil_of_right_ne_nil m₁ (List.cons_ne_nil _ _)).symm
  | unbound _ hmessage =>
    exact absurd (hm ▸ List.mem_append_right m₁ List.mem_cons_self) hmessage.not_answered
  | @caught x catchName _ _ _ _ _ _ hmessage h ih =>
    rcases split_append hm with ⟨m', ha, _⟩ | ⟨m', hb, _⟩
    · -- Nothing but the write of the message comes before the handler.
      have hmem : .answered y n (.error e) ∈ m₁ ++ Entry.answered y n (.error e) :: m' :=
        List.mem_append_right m₁ List.mem_cons_self
      rw [← ha] at hmem
      cases catchName with
      | none =>
        rw [hmessage] at hmem
        cases hmem
      | some name => exact absurd hmem hmessage.not_answered
    · exact ih hsequential hb fun e he => hml e (List.mem_append_right _ he)

end

/-! ## Runs -/

section

variable {τ η κ δ : Type} {p : Program} {inputs : List (String × String)} {l : Journal} {r : Outcome}

theorem Fed.not_answered {i : Nat} (h : Fed i inputs l r) {y : Place} {n : Nat}
    {r' : Except Failure String} : .answered y n r' ∉ l := by
  induction h with
  | nil => simp
  | stop h => exact h.not_answered
  | next h _ ih =>
    rw [List.mem_append, not_or]
    exact ⟨h.not_answered, ih⟩

/-- A failure that cannot be caught ends the whole story. -/
theorem Story.unwound (h : Story p inputs l r) (hsequential : p.isSequential) {l₁ l₂ : Journal}
    {y : Place} {n : Nat} {e : Failure} (hl : l = l₁ ++ .answered y n (.error e) :: l₂)
    (hcatchable : e.isCatchable = false) (houtside : .final ∉ y)
    (hfinals : ∀ z e', z <:+ y → .ended (.final :: z) (.error e') ∉ l) :
    r = .error e ∧ Unwound e l y [.main] l₂ := by
  cases h with
  | refused h => exact absurd (hl ▸ List.mem_append_right l₁ List.mem_cons_self) h.not_answered
  | ran h hmain =>
    rcases split_append hl with ⟨m, hm, _⟩ | ⟨m, hm, _⟩
    · exact absurd (hm ▸ List.mem_append_right l₁ List.mem_cons_self) h.not_answered
    · exact hmain.unwound hsequential hm (fun e he => List.mem_append_right _ he) hcatchable houtside
        hfinals

/-- Every run of a program comes to an outcome unless it is canceled, and then its blocks have ended at the first failure and every
    `try` has run as it should. In a program without parallel blocks an integrity failure of a session, or a cancellation, is the
    outcome of the run and has ended all around it, if no final body on its way has failed. -/
theorem attempts_disciplined (h : Host τ η κ δ) (p : Program) (inputs : KeyMap String) :
    (∀ backend store sink, ∃ r, (h.run p inputs none (.fresh backend store sink)).2 = some r) ∧
    ∀ limit s r, (h.run p inputs limit s).2 = some r →
      ∃ l, h.Recounted p inputs limit s [] l r ∧ Disciplined l ∧
        (p.isSequential → ∀ l₁ l₂ y n e, l = l₁ ++ .answered y n (.error e) :: l₂ →
          (e.kind.isIntegrity ∨ e.kind = .canceled) → .final ∉ y →
          (∀ z e', z <:+ y → .ended (.final :: z) (.error e') ∉ l) →
          r = .error e ∧ Unwound e l y [.main] l₂) := by
  refine ⟨h.run_ends p inputs, fun limit s r hrun => ?_⟩
  obtain ⟨l, htold, hstory⟩ := Host.run_story hrun
  refine ⟨l, htold, hstory.disciplined, fun hsequential l₁ l₂ y n e hl hkind houtside hfinals => ?_⟩
  refine hstory.unwound hsequential hl ?_ houtside hfinals
  rcases hkind with hkind | hkind
  · simp [Failure.isCatchable, Failure.Kind.isCatchable, hkind]
  · simp [Failure.isCatchable, Failure.Kind.isCatchable, hkind]

end

/-- A program that tidies up after a session, and then goes on. -/
def Program.tidying : Program :=
  ⟨[], [], [.attempt [.session ⟨none, "Ask"⟩] (some "why") (some [.assign "a" (.str "caught")])
    (some [.assign "b" (.str "tidied")]), .assign "c" (.str "later")]⟩

/-- Before a trial in which the session is canceled. -/
def RunState.cutOff : RunState Rehearsal RefusingStore Unit :=
  .trial [("Ask", [{ Part.plain with openFailure := some (.ofKind .canceled "stop") }])] []

/-- Whether an entry tells that a session outside of final bodies was canceled. -/
def Entry.isCanceled : Entry → Bool
  | .answered y _ (.error e) => e.kind = .canceled && !y.contains .final
  | _ => false

/-- Whether an entry tells that a final body has failed. -/
def Entry.isUntidy : Entry → Bool
  | .ended (.final :: _) (.error _) => true
  | _ => false

/-- The session is canceled, the final body runs, and the run ends as the session did. -/
theorem attempts_disciplined_canceled : ∃ l₁ l₂ y n e, e.kind = .canceled ∧
    Host.trial.Recounted .tidying [] none .cutOff [] (l₁ ++ .answered y n (.error e) :: l₂)
      (.error e) ∧
    Unwound e (l₁ ++ .answered y n (.error e) :: l₂) y [.main] l₂ := by
  obtain ⟨hends, hruns⟩ := attempts_disciplined Host.trial .tidying []
  obtain ⟨r, hrun⟩ := hends RunState.cutOff.backend RunState.cutOff.store ()
  obtain ⟨l, htold, _, hcut⟩ := hruns none .cutOff r hrun
  have hworked : (Host.trial.journaled.driveWithin none 60 0 true
      (Host.trial.toldStart .tidying [] .cutOff []) (Host.trial.toldThread .tidying [])).any
        (fun w => w.1.journal.any Entry.isCanceled && !w.1.journal.any Entry.isUntidy) = true := by
    decide +kernel
  obtain ⟨w, hwithin, htells⟩ := (Option.any_eq_true _ _).1 hworked
  rw [htold.journal_of_within hwithin, Bool.and_eq_true, Bool.not_eq_true'] at htells
  obtain ⟨hcanceled, htidy⟩ := htells
  obtain ⟨entry, hmem, hentry⟩ := List.any_eq_true.1 hcanceled
  obtain ⟨y, n, e, rfl, hkind, houtside⟩ : ∃ y n e, entry = .answered y n (.error e) ∧
      e.kind = .canceled ∧ .final ∉ y := by
    unfold Entry.isCanceled at hentry
    split at hentry
    · rename_i y n e
      simp only [Bool.and_eq_true, decide_eq_true_eq, Bool.not_eq_true', List.contains_eq_mem,
        decide_eq_false_iff_not] at hentry
      exact ⟨y, n, e, rfl, hentry⟩
    · cases hentry
  obtain ⟨l₁, l₂, rfl⟩ := List.append_of_mem hmem
  obtain ⟨rfl, hunwound⟩ := hcut (by decide) l₁ l₂ y n e rfl (.inr hkind) houtside
    fun z e' _ hfailed => by
      have hnone := List.any_eq_false.1 htidy _ hfailed
      exact hnone rfl
  exact ⟨l₁, l₂, y, n, e, hkind, htold, hunwound⟩

end Playbook
