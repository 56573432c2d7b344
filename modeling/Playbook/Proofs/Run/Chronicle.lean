import Playbook.Proofs.Run.Account

/-!
# `Proofs.Run.Chronicle` — a run with a narrator is the run itself

A *chronicle* compares scripts of a run that has a narrator with those of the run itself, at a place of the program, and with what is
told there. Which comparison that is does not matter here. If it goes along with all ways in which scripts are made and with what
the narrator does, then it holds of everything that runs, with accounts for what is told: so the text of the interpreter is followed
once, for all narrators.

## Contents
- **Chronicles.** `Inside`, `Gathered`, and `Chronicle`, with what such a comparison has to go along with.
- **Values and failures.** `Chronicle.tells_eval`, `Chronicle.tells_guard`.
- **Tasks one after another, and side by side.** `Chronicle.tells_chain`, `Chronicle.tells_rounds`, `Chronicle.tells_parallel`.
- **Programs.** `Chronicle.tells_stmt`, `Chronicle.tells_script`.
-/

namespace Playbook

variable {τ η κ δ σ α β : Type}

/-! ## Chronicles -/

/-- A script tells an account of a task, less that the task begins and ends. -/
def Inside (y : Place) (t : Task) (m : Journal) (r : Outcome) : Prop :=
  Account y (.task t) (.began y t :: (m ++ [.ended y r])) r

/-- What the journal says of the branches of a parallel block, of which some have ended. -/
structure Gathered (y : Place) (bs : List Branch) (rs : List (Nat × Outcome)) (m : Journal) :
    Prop where
  only : ∀ e ∈ m, ∃ i < bs.length, (.branch i :: y) <:+ e.place
  endings : m.endings y = rs
  accounts : ∀ i b r, bs[i]? = some b → (i, r) ∈ rs →
    Account (.branch i :: y) (.task (.branch b)) (m.under (.branch i :: y)) r

section

variable {y : Place} {bs : List Branch} {rs : List (Nat × Outcome)} {m m' : Journal} {i : Nat} {r : Outcome}

theorem Journal.endings_append (y : Place) (m m' : Journal) :
    Journal.endings y (m ++ m') = Journal.endings y m ++ Journal.endings y m' :=
  List.filterMap_append ..

/-- What a branch tells before it has ended. -/
theorem Gathered.append (hgathered : Gathered y bs rs m) (hi : i < bs.length)
    (hnot : i ∉ rs.map Prod.fst)
    (hm' : ∀ e ∈ m', (.branch i :: y) <:+ e.place ∧ ¬e.Closes (.branch i :: y)) :
    Gathered y bs rs (m ++ m') := by
  refine ⟨?_, ?_, ?_⟩
  · intro e he
    rcases List.mem_append.1 he with he | he
    · exact hgathered.only e he
    · exact ⟨i, hi, (hm' e he).1⟩
  · have hnil : Journal.endings y m' = [] := by
      rw [Journal.endings, List.filterMap_eq_nil_iff]
      intro e he
      obtain ⟨hplace, hcloses⟩ := hm' e he
      unfold Entry.ending?
      split
      · rename_i j z r
        split
        · rename_i hz
          subst hz
          have hij := leg_eq_of_suffix hplace (List.suffix_refl _)
          exact absurd hij.symm (fun heq => hcloses (heq ▸ rfl))
        · rfl
      · rfl
    rw [Journal.endings_append, hnil, List.append_nil]
    exact hgathered.endings
  · intro j b r hb hr
    have hne : j ≠ i := fun heq => hnot (heq ▸ List.mem_map_of_mem hr)
    have hnil : Journal.under (.branch j :: y) m' = [] :=
      Account.under_eq_nil_of_leg (List.suffix_refl _) fun e he =>
        ⟨.branch i, fun heq => hne (Leg.branch.inj heq).symm, (hm' e he).1⟩
    rw [Journal.under_append, hnil, List.append_nil]
    exact hgathered.accounts j b r hb hr

/-- What a branch tells at last. -/
theorem Gathered.last {b : Branch} (hgathered : Gathered y bs rs m) (hi : i < bs.length)
    (hnot : i ∉ rs.map Prod.fst) (hb : bs[i]? = some b)
    (haccount : Account (.branch i :: y) (.task (.branch b))
      (m.under (.branch i :: y) ++ [.ended (.branch i :: y) r]) r) :
    Gathered y bs (rs ++ [(i, r)]) (m ++ [.ended (.branch i :: y) r]) := by
  refine ⟨?_, ?_, ?_⟩
  · intro e he
    rcases List.mem_append.1 he with he | he
    · exact hgathered.only e he
    · rw [List.mem_singleton] at he
      exact ⟨i, hi, he ▸ List.suffix_refl _⟩
  · rw [Journal.endings_append, hgathered.endings]
    simp [Journal.endings, Entry.ending?]
  · intro j c r' hc hr
    rw [Journal.under_append]
    rw [List.mem_append, List.mem_singleton, Prod.mk.injEq] at hr
    rcases hr with hr | ⟨rfl, rfl⟩
    · have hne : j ≠ i := fun heq => hnot (heq ▸ List.mem_map_of_mem hr)
      have hnil : Journal.under (.branch j :: y) [.ended (.branch i :: y) r] = [] :=
        Account.under_eq_nil_of_leg (List.suffix_refl _) fun e he =>
          ⟨.branch i, fun heq => hne (Leg.branch.inj heq).symm,
            List.mem_singleton.1 he ▸ List.suffix_refl _⟩
      rw [hnil, List.append_nil]
      exact hgathered.accounts j c r' hc hr
    · rw [hb, Option.some.injEq] at hc
      subst hc
      rw [Journal.under_eq_self (l := [.ended (.branch j :: y) r']) (by simp [Entry.place])]
      exact haccount

end

/-- A comparison of scripts of a run with a narrator and scripts of the run itself. It stands for a place, where the first script
    tells something, and it says of what is told there and of how the script goes that they are in some relation. -/
structure Chronicle (n : Narrator τ σ δ) (h : Host τ η κ δ) (p : Program) where
  tells : {α : Type} → Place → Work τ σ δ α → Work τ κ δ α →
    (Journal → Except Failure α → Prop) → Prop
  mono : ∀ {α : Type} {x : Place} {s : Work τ σ δ α} {s' : Work τ κ δ α}
    {P P' : Journal → Except Failure α → Prop}, tells x s s' P → (∀ m r, P m r → P' m r) →
    tells x s s' P'
  ofExcept : ∀ {α : Type} {x : Place} {r : Except Failure α} {P : Journal → Except Failure α → Prop},
    P [] r → tells x (Script.ofExcept r) (Script.ofExcept r) P
  bind : ∀ {α β : Type} {x : Place} {s : Work τ σ δ α} {s' : Work τ κ δ α} {f : α → Work τ σ δ β}
    {f' : α → Work τ κ δ β} {P : Journal → Except Failure α → Prop}
    {Q : α → Journal → Except Failure β → Prop} {T : Journal → Except Failure β → Prop},
    tells x s s' P → (∀ a, tells x (f a) (f' a) (Q a)) →
    (∀ m e, P m (.error e) → T m (.error e)) →
    (∀ a m m' r, P m (.ok a) → Q a m' r → T (m ++ m') r) → tells x (s >>= f) (s' >>= f') T
  hold : ∀ {α : Type} {x : Place} {s : Work τ σ δ α} {s' : Work τ κ δ α}
    {P : Journal → Except Failure α → Prop}, tells x s s' P →
    tells x s.hold s'.hold fun m r => ∃ a, r = .ok a ∧ P m a
  observe : ∀ {α : Type} {x : Place} (f : Scope → α),
    tells x (Script.observe fun s => f s.scope) (Script.observe fun s => f s.scope)
      fun m r => m = [] ∧ ∃ a, r = .ok a
  /-- A statement is counted. -/
  begin : ∀ {x : Place}, tells x Host.begin Host.begin fun m r => m = [] ∧ ∃ a, r = .ok a
  /-- Branches run side by side, each with its own account. -/
  together : ∀ {x y : Place} {bs : List Branch} {told : List (Work τ σ δ Unit)}
    {plain : List (Work τ κ δ Unit)}, x <:+ y → told.length = bs.length →
    plain.length = bs.length →
    (∀ i b s s', bs[i]? = some b → told[i]? = some s → plain[i]? = some s' →
      ∃ work, s = n.enter (.branch i :: y) (.branch b) work ∧
        tells (.branch i :: y) work s' (Inside (.branch i :: y) (.branch b))) →
    tells x (Script.together told) (Script.together plain) fun m r =>
      ∃ rs : List (Nat × Outcome), r = .ok (rs.map Prod.snd) ∧
        (rs.map Prod.fst).Perm (List.range bs.length) ∧ Gathered y bs rs m
  /-- A task begins and ends. -/
  enter : ∀ {x y : Place} {leg : Leg} {t : Task} {work : Work τ σ δ Unit} {plain : Work τ κ δ Unit}
    {P : Journal → Outcome → Prop}, x <:+ y → tells x work plain P →
    tells x (n.enter (leg :: y) t work) plain fun m r =>
      ∃ m', m = .began (leg :: y) t :: (m' ++ [.ended (leg :: y) r]) ∧ P m' r
  call : ∀ x y call resume, x <:+ y →
    tells x (n.call y call resume) (h.callSession p call resume) (Asked y call resume)
  write : ∀ x y name kind text, x <:+ y →
    tells x (n.write y name kind text) (h.writeBinding name kind text) (Wrote y name kind text)

namespace Chronicle

variable {n : Narrator τ σ δ} {h : Host τ η κ δ} {p : Program} (C : Chronicle n h p) {x y : Place}

theorem pure {a : α} {P : Journal → Except Failure α → Prop} (ha : P [] (.ok a)) :
    C.tells x (Pure.pure a : Work τ σ δ α) (Pure.pure a : Work τ κ δ α) P :=
  C.ofExcept ha

theorem fail {e : Failure} {P : Journal → Except Failure α → Prop} (he : P [] (.error e)) :
    C.tells x (Script.fail e) (Script.fail e) P :=
  C.ofExcept he

/-- One script after another, of which the first tells nothing and does not fail. -/
theorem after {s : Work τ σ δ β} {s' : Work τ κ δ β} {k : Work τ σ δ α} {k' : Work τ κ δ α}
    {P : Journal → Except Failure α → Prop}
    (hs : C.tells x s s' fun m r => m = [] ∧ ∃ a, r = .ok a) (hk : C.tells x k k' P) :
    C.tells x (s >>= fun _ => k) (s' >>= fun _ => k') P := by
  refine C.bind hs (fun _ => hk) ?_ ?_
  · rintro m e ⟨_, a, ha⟩
    cases ha
  · rintro a m m' r ⟨rfl, _⟩ hm'
    exact hm'

/-! ## Values and failures -/

/-- A script that uses the text of another one, which tells nothing of itself. -/
theorem tells_then {first : Work τ σ δ String} {first' : Work τ κ δ String}
    {second : String → Work τ σ δ Unit} {second' : String → Work τ κ δ Unit}
    {P : Journal → Except Failure String → Prop} {Q : String → Journal → Outcome → Prop}
    (hfirst : C.tells x first first' P)
    (hsecond : ∀ text, C.tells x (second text) (second' text) (Q text)) :
    C.tells x (first >>= second) (first' >>= second') (Then P Q) :=
  C.bind hfirst hsecond (fun _ _ => .stop) fun _ _ _ _ => .next

theorem tells_eval (hxy : x <:+ y) (value : Expr) :
    C.tells x (n.eval y value) (h.eval p value) (Valued y value) := by
  cases value with
  | str value => exact C.pure (.str value)
  | var name =>
    refine C.bind (Q := fun _ m r => Valued y (.var name) m r)
      (C.observe fun scope => scope.value? name) ?_ ?_ ?_
    · intro o
      cases o with
      | some value => exact C.pure (.var name value)
      | none => exact C.fail (.unknown name)
    · rintro m e ⟨_, o, ho⟩
      cases ho
    · rintro o m m' r ⟨rfl, _⟩ hr
      exact hr
  | session call => exact C.mono (C.call x y call false hxy) fun _ _ => .session
  | resume call => exact C.mono (C.call x y call true hxy) fun _ _ => .resume

theorem tells_bindValue (hxy : x <:+ y) (name : String) (kind : BindingKind) (value : Expr) :
    C.tells x (n.bindValue y name kind value) (h.bindValue p name kind value)
      (Then (Valued y value) (Wrote y name kind)) :=
  C.tells_then (C.tells_eval hxy value) fun text => C.write x y name kind text hxy

theorem tells_bindSession (hxy : x <:+ y) (name : String) (call : SessionCall) (resume : Bool) :
    C.tells x (n.bindSession y name call resume) (h.bindSession p name call resume)
      (Then (Asked y call resume) (Wrote y name .assigned)) :=
  C.after C.begin (C.tells_then (C.call x y call resume hxy)
    fun text => C.write x y name .assigned text hxy)

/-- A call whose text is not used. -/
theorem tells_alone (hxy : x <:+ y) (call : SessionCall) (resume : Bool) :
    C.tells x
      (Host.begin >>= fun _ => n.call y call resume >>= fun _ => Pure.pure ())
      (Host.begin >>= fun _ => h.callSession p call resume >>= fun _ => Pure.pure ())
      fun m r => ∃ r', Asked y call resume m r' ∧ r = r'.map fun _ => () := by
  refine C.after C.begin ?_
  refine C.bind (Q := fun _ m r => m = [] ∧ r = .ok ()) (C.call x y call resume hxy)
    (fun _ => C.pure ⟨rfl, rfl⟩) (fun m e he => ⟨_, he, rfl⟩) ?_
  rintro text m m' r hm ⟨rfl, rfl⟩
  rw [List.append_nil]
  exact ⟨_, hm, rfl⟩

/-- A task that is told when it begins and ends has an account. -/
theorem tells_enter {work : Work τ σ δ Unit} {plain : Work τ κ δ Unit} {leg : Leg} {t : Task}
    (hxy : x <:+ y) (hs : C.tells x work plain (Inside (leg :: y) t)) :
    C.tells x (n.enter (leg :: y) t work) plain (Account (leg :: y) (.task t)) := by
  refine C.mono (C.enter hxy hs) ?_
  rintro m r ⟨m', rfl, hm⟩
  exact hm

theorem tells_message (hxy : x <:+ y) (catchName : Option String) (e : Failure) :
    C.tells x (n.message y catchName e) (h.bindMessage catchName e) fun m r =>
      match catchName with
      | some name => Wrote (.message :: y) name .assigned e.message m r
      | none => m = [] ∧ r = .ok () := by
  cases catchName with
  | none => exact C.pure ⟨rfl, rfl⟩
  | some name =>
    exact C.write x (.message :: y) name .assigned e.message (hxy.trans (List.suffix_cons _ y))

theorem tells_handle (hxy : x <:+ y) (catchName : Option String) (handler : Option (List Stmt))
    (hblock : ∀ b ∈ handler, C.tells x (n.block (.handler :: y) 0 b) (h.execBlock p b)
      (Inside (.handler :: y) (.block b))) (outcome : Outcome) :
    C.tells x (n.handle y catchName (n.optional (.handler :: y) handler) outcome)
      (h.handle catchName (h.execOptional p handler) outcome)
      (Account y (.handling catchName handler outcome)) := by
  cases outcome with
  | ok u => exact C.pure .fine
  | error e =>
    cases handler with
    | none => exact C.fail (.unhandled (.inl rfl))
    | some b =>
      unfold Narrator.handle Host.handle
      simp only [Narrator.optional, Host.execOptional]
      by_cases hcatchable : e.isCatchable
      · rw [if_pos hcatchable, if_pos hcatchable]
        refine C.bind (C.tells_message hxy catchName e)
          (fun _ => C.tells_enter hxy (hblock b rfl)) ?_ ?_
        · intro m e' hm
          cases catchName with
          | none => cases hm.2
          | some name => exact .unbound hcatchable hm
        · rintro u m m' r hm hm'
          refine .caught hcatchable ?_ hm'
          cases catchName with
          | none => exact hm.1
          | some name => exact hm
      · rw [if_neg hcatchable, if_neg hcatchable]
        exact C.fail (.unhandled (.inr hcatchable))

theorem tells_final (hxy : x <:+ y) (final : Option (List Stmt))
    (hblock : ∀ b ∈ final, C.tells x (n.block (.final :: y) 0 b) (h.execBlock p b)
      (Inside (.final :: y) (.block b))) :
    C.tells x ((n.optional (.final :: y) final).getD (Pure.pure ()))
      ((h.execOptional p final).getD (Pure.pure ())) (Account y (.chain (finalChain final))) := by
  cases final with
  | none =>
    simp only [Narrator.optional, Host.execOptional, Option.getD_none]
    exact C.pure .nil
  | some b =>
    simp only [Narrator.optional, Host.execOptional, Option.getD_some]
    exact C.mono (C.tells_enter hxy (hblock b rfl)) fun _ _ => Account.single

/-- How a `try` goes on when its body has ended. -/
theorem tells_guard (hxy : x <:+ y) (body : List Stmt) (catchName : Option String)
    (handler final : Option (List Stmt))
    (hbody : C.tells x (n.block (.body :: y) 0 body) (h.execBlock p body)
      (Inside (.body :: y) (.block body)))
    (hhandler : ∀ b ∈ handler, C.tells x (n.block (.handler :: y) 0 b) (h.execBlock p b)
      (Inside (.handler :: y) (.block b)))
    (hfinal : ∀ b ∈ final, C.tells x (n.block (.final :: y) 0 b) (h.execBlock p b)
      (Inside (.final :: y) (.block b))) :
    C.tells x
      (n.guard y (n.enter (.body :: y) (.block body) (n.block (.body :: y) 0 body)) catchName
        (n.optional (.handler :: y) handler) (n.optional (.final :: y) final))
      (h.guard (h.execBlock p body) catchName (h.execOptional p handler) (h.execOptional p final))
      (Inside y (.stmt (.attempt body catchName handler final))) := by
  unfold Narrator.guard Host.guard
  refine C.bind (C.hold (C.tells_enter hxy hbody))
    (Q := fun r₁ m r => ∃ m₂ m₃ r₂ r₃, m = m₂ ++ m₃ ∧ r = overrule r₃ r₂ ∧
      Account y (.handling catchName handler r₁) m₂ r₂ ∧
      Account y (.chain (finalChain final)) m₃ r₃) (fun r₁ => ?_) ?_ ?_
  · refine C.bind (C.hold (C.tells_handle hxy catchName handler hhandler r₁))
      (Q := fun r₂ m r => ∃ r₃, r = overrule r₃ r₂ ∧ Account y (.chain (finalChain final)) m r₃)
      (fun r₂ => ?_) ?_ ?_
    · refine C.bind (C.tells_final hxy final hfinal)
        (Q := fun _ m r => m = [] ∧ r = r₂) (fun _ => C.ofExcept ⟨rfl, rfl⟩) ?_ ?_
      · exact fun m e hm => ⟨.error e, rfl, hm⟩
      · rintro u m m' r hm ⟨rfl, rfl⟩
        rw [List.append_nil]
        exact ⟨.ok u, rfl, hm⟩
    · rintro m e ⟨a, ha, _⟩
      cases ha
    · rintro r₂ m m' r ⟨a, ha, hm⟩ ⟨r₃, rfl, hm'⟩
      cases ha
      exact ⟨m, m', r₂, r₃, rfl, rfl, hm, hm'⟩
  · rintro m e ⟨a, ha, _⟩
    cases ha
  · rintro r₁ m m' r ⟨a, ha, hm⟩ ⟨m₂, m₃, r₂, r₃, rfl, rfl, hm₂, hm₃⟩
    cases ha
    have haccount := Account.attempt hm hm₂ hm₃
    unfold Inside
    rwa [← List.append_assoc m m₂ m₃]

/-! ## Tasks one after another, and side by side -/

/-- The first of several tasks, and then the others. -/
theorem tells_chain {first rest : Work τ σ δ Unit} {first' rest' : Work τ κ δ Unit} {leg : Leg}
    {t : Task} {parts : List (Leg × Task)} (hfresh : leg ∉ parts.map Prod.fst)
    (hfirst : C.tells x first first' (Account (leg :: y) (.task t)))
    (hrest : C.tells x rest rest' (Account y (.chain parts))) :
    C.tells x (first >>= fun _ => rest) (first' >>= fun _ => rest')
      (Account y (.chain ((leg, t) :: parts))) :=
  C.bind hfirst (fun _ => hrest) (fun _ _ => .stop) fun _ _ _ _ => .next hfresh

theorem round_not_mem (b : List Stmt) {i j : Nat} (hij : i < j) (count : Nat) :
    Leg.round i ∉ (roundChain b j count).map Prod.fst := by
  induction count generalizing j with
  | zero => simp [roundChain]
  | succ count ih =>
    have hrest := ih (Nat.lt_succ_of_lt hij)
    rw [roundChain, List.map_cons, List.mem_cons, not_or]
    exact ⟨fun heq => Nat.ne_of_lt hij (Leg.round.inj heq), hrest⟩

theorem stmt_not_mem {i j : Nat} (hij : i < j) (b : List Stmt) :
    Leg.stmt i ∉ (blockChain j b).map Prod.fst := by
  induction b generalizing j with
  | nil => simp [blockChain]
  | cons s rest ih =>
    have hrest := ih (Nat.lt_succ_of_lt hij)
    rw [blockChain, List.map_cons, List.mem_cons, not_or]
    exact ⟨fun heq => Nat.ne_of_lt hij (Leg.stmt.inj heq), hrest⟩

theorem tells_rounds {b : List Stmt} {body : Place → Work τ σ δ Unit} {plain : Work τ κ δ Unit}
    (hxy : x <:+ y)
    (hbody : ∀ i, C.tells x (body (.round i :: y)) plain (Inside (.round i :: y) (.block b)))
    (i count : Nat) :
    C.tells x (n.rounds y b body i count) (Script.repeatTimes plain count)
      (Account y (.chain (roundChain b i count))) := by
  induction count generalizing i with
  | zero => exact C.pure .nil
  | succ count ih =>
    refine C.after (C.observe fun _ => ()) ?_
    exact C.tells_chain (round_not_mem b (Nat.lt_succ_self i) count) (C.tells_enter hxy (hbody i))
      (ih _)

theorem branches_length (y : Place) (i : Nat) (bs : List Branch) :
    (n.branches y i bs).length = bs.length := by
  induction bs generalizing i with
  | nil => rfl
  | cons b bs ih =>
    simp only [Narrator.branches, List.length_cons]
    rw [ih]

theorem execBranches_length (bs : List Branch) : (h.execBranches p bs).length = bs.length := by
  induction bs with
  | nil => rfl
  | cons b bs ih =>
    simp only [Host.execBranches, List.length_cons]
    rw [ih]

/-- A branch and its two runs, at their position. -/
structure BranchAt (n : Narrator τ σ δ) (h : Host τ η κ δ) (p : Program) (y : Place) (b : Branch)
    (i : Nat) (s : Work τ σ δ Unit) (s' : Work τ κ δ Unit) : Prop where
  told : s = n.enter (.branch i :: y) (.branch b) (n.branch (.branch i :: y) b)
  plain : s' = h.execBranch p b

theorem branchAt {y : Place} {k i : Nat} {bs : List Branch} {b : Branch} {s : Work τ σ δ Unit}
    {s' : Work τ κ δ Unit} (hb : bs[i]? = some b) (hs : (n.branches y k bs)[i]? = some s)
    (hs' : (h.execBranches p bs)[i]? = some s') : BranchAt n h p y b (k + i) s s' := by
  induction bs generalizing i k with
  | nil => cases hb
  | cons c bs ih =>
    simp only [Narrator.branches, Host.execBranches] at hs hs'
    cases i with
    | zero =>
      rw [List.getElem?_cons_zero, Option.some.injEq] at hb hs hs'
      rw [← hb, ← hs, ← hs']
      exact ⟨rfl, rfl⟩
    | succ i =>
      rw [List.getElem?_cons_succ] at hb hs hs'
      have hrest := ih hb hs hs'
      rwa [show k + 1 + i = k + (i + 1) by omega] at hrest

/-- A parallel block has an account if its branches do. -/
theorem tells_parallel (hxy : x <:+ y) (policy : FailurePolicy) (bs : List Branch)
    (hbranches : ∀ i b, bs[i]? = some b →
      C.tells (.branch i :: y) (n.branch (.branch i :: y) b) (h.execBranch p b)
        (Inside (.branch i :: y) (.branch b))) :
    C.tells x
      (Script.together (n.branches y 0 bs) >>= fun outcomes =>
        Script.ofExcept (Host.settle policy outcomes))
      (Script.together (h.execBranches p bs) >>= fun outcomes =>
        Script.ofExcept (Host.settle policy outcomes))
      (Inside y (.stmt (.parallel policy bs))) := by
  refine C.bind (Q := fun outcomes m r => m = [] ∧ r = Host.settle policy outcomes)
    (C.together hxy (branches_length y 0 bs) (execBranches_length bs) ?_)
    (fun outcomes => C.ofExcept ⟨rfl, rfl⟩) ?_ ?_
  · intro i b s s' hb hs hs'
    obtain ⟨rfl, rfl⟩ := branchAt hb hs hs'
    rw [Nat.zero_add]
    exact ⟨_, rfl, hbranches i b hb⟩
  · rintro m e ⟨rs, hrs, _⟩
    cases hrs
  · rintro outcomes m m' r ⟨rs, hrs, hperm, hgathered⟩ ⟨rfl, rfl⟩
    cases hrs
    rw [List.append_nil]
    exact .parallel rs hperm hgathered.endings hgathered.only hgathered.accounts

/-! ## Programs -/

theorem inside_leaf {t : Task} {m : Journal} {r : Outcome} (hleaf : Leaf y t m r) : Inside y t m r :=
  .leaf hleaf

theorem inside_block {b : List Stmt} {m : Journal} {r : Outcome}
    (hchain : Account y (.chain (blockChain 0 b)) m r) : Inside y (.block b) m r :=
  .chain rfl hchain

/-- A branch that is no more than a statement has an account if the statement does. -/
theorem tells_plainBranch {b : Branch} (hnamed : b.isNamed = false)
    (htold : n.branch y b = n.enter (.stmt 0 :: y) (.stmt b.stmt) (n.stmt (.stmt 0 :: y) b.stmt))
    (hplain : h.execBranch p b = h.exec p b.stmt)
    (hstmt : C.tells y (n.stmt (.stmt 0 :: y) b.stmt) (h.exec p b.stmt)
      (Inside (.stmt 0 :: y) (.stmt b.stmt))) :
    C.tells y (n.branch y b) (h.execBranch p b) (Inside y (.branch b)) := by
  rw [htold, hplain]
  refine C.mono (C.tells_enter (List.suffix_refl y) hstmt) fun m r hm => ?_
  have hchain : (Task.branch b).chain = some [(.stmt 0, .stmt b.stmt)] := by
    simp [Task.chain, hnamed]
  exact .chain hchain hm.single

mutual

/-- A statement has an account, wherever it runs. -/
theorem tells_stmt : ∀ (s : Stmt) (x y : Place), x <:+ y →
    C.tells x (n.stmt y s) (h.exec p s) (Inside y (.stmt s))
  | .comment text, _, _, _ => by
    simp only [Narrator.stmt, Host.exec]
    refine C.mono C.begin ?_
    rintro m r ⟨rfl, b, rfl⟩
    exact inside_leaf (.comment text)
  | .session call, _, _, hxy => by
    simp only [Narrator.stmt, Host.exec]
    refine C.mono (C.tells_alone hxy call false) ?_
    rintro m r ⟨r', hm, rfl⟩
    exact inside_leaf (.session hm)
  | .resume call, _, _, hxy => by
    simp only [Narrator.stmt, Host.exec]
    refine C.mono (C.tells_alone hxy call true) ?_
    rintro m r ⟨r', hm, rfl⟩
    exact inside_leaf (.resume hm)
  | .assign name value, _, _, hxy => by
    simp only [Narrator.stmt, Host.exec]
    exact C.after C.begin (C.mono (C.tells_bindValue hxy name .assigned value)
      fun _ _ hm => inside_leaf (.assign hm))
  | .output name value, _, _, hxy => by
    simp only [Narrator.stmt, Host.exec]
    exact C.after C.begin (C.mono (C.tells_bindValue hxy name .output value)
      fun _ _ hm => inside_leaf (.output hm))
  | .attempt body catchName handler final, x, y, hxy => by
    simp only [Narrator.stmt, Host.exec]
    exact C.after C.begin (C.tells_guard hxy body catchName handler final
      (C.mono (tells_statements body x (.body :: y) 0 (hxy.trans (List.suffix_cons _ y)))
        fun _ _ => inside_block)
      (tells_optional handler x (.handler :: y) (hxy.trans (List.suffix_cons _ y)))
      (tells_optional final x (.final :: y) (hxy.trans (List.suffix_cons _ y))))
  | .parallel policy branches, _, y, hxy => by
    simp only [Narrator.stmt, Host.exec]
    exact C.after C.begin (C.tells_parallel hxy policy branches
      fun i b hb => tells_branches branches i b hb (.branch i :: y))
  | .loop count body, x, y, hxy => by
    simp only [Narrator.stmt, Host.exec]
    refine C.after C.begin (C.mono (C.tells_rounds hxy (fun i => ?_) 0 count.toNat)
      fun _ _ hm => .chain rfl hm)
    exact C.mono (tells_statements body x (.round i :: y) 0 (hxy.trans (List.suffix_cons _ y)))
      fun _ _ => inside_block

/-- The statements of a block have accounts, up to the first that fails. -/
theorem tells_statements : ∀ (b : List Stmt) (x y : Place) (i : Nat), x <:+ y →
    C.tells x (n.block y i b) (h.execBlock p b) (Account y (.chain (blockChain i b)))
  | [], _, _, _, _ => by
    simp only [Narrator.block, Host.execBlock]
    exact C.pure .nil
  | s :: rest, x, y, i, hxy => by
    simp only [Narrator.block, Host.execBlock]
    exact C.tells_chain (stmt_not_mem (Nat.lt_succ_self i) rest)
      (C.tells_enter hxy (tells_stmt s x (.stmt i :: y) (hxy.trans (List.suffix_cons _ y))))
      (tells_statements rest x y (i + 1) hxy)

/-- A block that may be missing has an account. -/
theorem tells_optional : ∀ (o : Option (List Stmt)) (x y : Place), x <:+ y →
    ∀ b ∈ o, C.tells x (n.block y 0 b) (h.execBlock p b) (Inside y (.block b))
  | none, _, _, _ => by simp
  | some b, x, y, hxy => by
    intro b' hb'
    rw [Option.mem_some] at hb'
    rw [← hb']
    exact C.mono (tells_statements b x y 0 hxy) fun _ _ => inside_block

/-- A branch has an account. -/
theorem tells_branch : ∀ (b : Branch) (y : Place),
    C.tells y (n.branch y b) (h.execBranch p b) (Inside y (.branch b))
  | .mk name stmt, y => by
    have hstmt := tells_stmt stmt y (.stmt 0 :: y) (List.suffix_cons _ y)
    cases name with
    | none =>
      exact C.tells_plainBranch rfl (by simp only [Narrator.branch]; rfl)
        (by simp only [Host.execBranch]; rfl) hstmt
    | some name =>
      cases stmt with
      | session call =>
        simp only [Narrator.branch, Host.execBranch]
        exact C.mono (C.tells_bindSession (List.suffix_refl y) name call false)
          fun _ _ hm => inside_leaf (.branchSession hm)
      | resume call =>
        simp only [Narrator.branch, Host.execBranch]
        exact C.mono (C.tells_bindSession (List.suffix_refl y) name call true)
          fun _ _ hm => inside_leaf (.branchResume hm)
      | _ =>
        exact C.tells_plainBranch rfl (by simp only [Narrator.branch]; rfl)
          (by simp only [Host.execBranch]; rfl) hstmt

/-- Each of several branches has an account. -/
theorem tells_branches : ∀ (bs : List Branch) (i : Nat) (b : Branch), bs[i]? = some b →
    ∀ y : Place, C.tells y (n.branch y b) (h.execBranch p b) (Inside y (.branch b))
  | [], _, _, hb, _ => by cases hb
  | c :: bs, i, b, hb, y => by
    cases i with
    | zero =>
      rw [List.getElem?_cons_zero, Option.some.injEq] at hb
      rw [← hb]
      exact tells_branch c y
    | succ i =>
      rw [List.getElem?_cons_succ] at hb
      exact tells_branches bs i b hb y

end

theorem tells_inputs (i : Nat) (inputs : List (String × String)) :
    C.tells [] (n.inputs i inputs) (h.bindInputs inputs) (Fed i inputs) := by
  induction inputs generalizing i with
  | nil => exact C.pure .nil
  | cons input rest ih =>
    obtain ⟨name, text⟩ := input
    exact C.bind (C.write [] [.input i] name .input text List.nil_suffix) (fun _ => ih (i + 1))
      (fun _ _ => .stop) fun _ _ _ _ => .next

/-- A run has a story. -/
theorem tells_script (inputs : KeyMap String) :
    C.tells [] (n.script p inputs) (h.script p inputs) (Story p inputs) := by
  have hmain : C.tells [] (n.enter [.main] (.block p.statements) (n.block [.main] 0 p.statements))
      (h.execBlock p p.statements) (Account [.main] (.task (.block p.statements))) :=
    C.tells_enter List.nil_suffix (C.mono (C.tells_statements p.statements [] [.main] 0
      List.nil_suffix) fun _ _ => inside_block)
  exact C.bind (C.tells_inputs 0 inputs) (fun _ => hmain) (fun _ _ => .refused)
    fun _ _ _ _ => .ran

end Chronicle

end Playbook
