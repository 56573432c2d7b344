import Playbook.Proofs.Run.Chronicle
import Playbook.Proofs.Run.Moments

/-!
# `Proofs.Run.Telling` — a run that keeps a journal does what it tells

The run that keeps a journal is the run of the program (`Rules.tells_script` compares the two step by step), and of everything that
has run to its end the journal holds an account.

What else is to hold at every moment is given by `Rules`: an invariant, and what may be done at certain places and at no others.
Rules are about bindings, sessions and the store, so a program keeps them if its writes and its session calls do
(`Rules.Kept`).

## Contents
- **Rules.** `Quiet` changes, `Rules`, `Rules.pact`, `Rules.Own`.
- **Scripts.** `Rules.Tells`: a script does what it tells.
- **Branches.** `Rules.shares`, `Rules.tells_together`.
- **Programs.** `Rules.Kept`, `Rules.Kept.chronicle`, `Rules.tells_script`.
- **Runs.** `Host.Tale`: a moment of a run and what has been told by then; `Host.Recounted`, `Host.Recounted.story`: the whole run.
-/

namespace Playbook

variable {τ η κ δ α β : Type}

/-! ## Rules -/

/-- A change that has nothing to do with bindings, sessions and what is stored. -/
structure Quiet (h : Host τ η κ δ) (s v : ToldState τ κ δ) : Prop where
  scope : v.scope = s.scope
  sessions : v.sessions = s.sessions
  written : v.counters.bindingsWritten = s.counters.bindingsWritten
  store : v.store.1 = s.store.1 ∨ ∃ key, v.store.1 = (h.store.get key s.store.1).2
  journal : ∃ m, v.journal = s.journal ++ m ∧ ∀ e ∈ m, e.isMark

/-- What is to hold at all moments, and what may be done at some places and at no others. Both are about bindings, sessions and the
    store. -/
structure Rules (h : Host τ η κ δ) where
  inv : ToldState τ κ δ → Prop
  own : (Place → Prop) → ToldState τ κ δ → ToldState τ κ δ → Prop
  inv_quiet : ∀ s v, Quiet h s v → inv s → inv v
  own_quiet : ∀ P s v, Quiet h s v → inv s → own P s v
  own_mono : ∀ (P Q : Place → Prop) s v, (∀ x, P x → Q x) → own P s v → own Q s v

namespace Rules

variable {h : Host τ η κ δ} (R : Rules h)

/-- A change that keeps to the rules, at some places. -/
def Obeys (P : Place → Prop) (s v : ToldState τ κ δ) : Prop :=
  R.inv s → R.inv v ∧ R.own P s v

/-- What runs at a place makes entries about this place and those within, but leaves it to others to tell of its end. -/
def pact (x : Place) : Pact (ToldState τ κ δ) where
  grant s v := R.Obeys (x <:+ ·) s v ∧
    ∃ m, v.journal = s.journal ++ m ∧ ∀ e ∈ m, x <:+ e.place ∧ ¬e.Closes x
  rely s v := R.Obeys (¬x <:+ ·) s v ∧
    ∃ m, v.journal = s.journal ++ m ∧ ∀ e ∈ m, ¬x <:+ e.place

/-- The invariant holds, and this is what the journal says of a place. -/
def Own (x : Place) (L : Journal) (s : ToldState τ κ δ) : Prop :=
  R.inv s ∧ s.journal.under x = L

variable {R} {x y : Place} {L : Journal} {s v : ToldState τ κ δ}

theorem Obeys.mono {P Q : Place → Prop} (hPQ : ∀ x, P x → Q x) (h : R.Obeys P s v) :
    R.Obeys Q s v :=
  fun hinv => ⟨(h hinv).1, R.own_mono P Q s v hPQ (h hinv).2⟩

theorem obeys_of_quiet (P : Place → Prop) (hquiet : Quiet h s v) : R.Obeys P s v :=
  fun hinv => ⟨R.inv_quiet s v hquiet hinv, R.own_quiet P s v hquiet hinv⟩

/-- Others do not change what the journal says of a place. -/
theorem firm_own (x : Place) (L : Journal) : (R.pact x).Firm (R.Own x L) := by
  rintro s v ⟨hobeys, m, hm, hplace⟩ ⟨hinv, hL⟩
  refine ⟨(hobeys hinv).1, ?_⟩
  rw [hm, Journal.under_append, hL, Journal.under_eq_nil hplace, List.append_nil]

/-- Who owns a place still does when the journal goes on with entries that are all told of the place. -/
theorem own_append {m : Journal} (hown : R.Own x L s) (hinv : R.inv v)
    (hm : v.journal = s.journal ++ m) (hplace : ∀ e ∈ m, x <:+ e.place) : R.Own x (L ++ m) v := by
  refine ⟨hinv, ?_⟩
  rw [hm, Journal.under_append, hown.2, Journal.under_eq_self hplace]

/-! ## Scripts -/

variable (R)

/-- A script, next to a plainer one, keeps the rules at a place, and `P` says what it tells there and how it goes. -/
def Tells (x : Place) (s : ToldWork τ κ δ α) (s' : Work τ κ δ α)
    (P : Journal → Except Failure α → Prop) : Prop :=
  ∀ L, Script.Keeps RunState.plain (R.pact x) (R.Own x L) s s'
    fun r w => ∃ m, P m r ∧ R.Own x (L ++ m) w

variable {R}

namespace Tells

variable {s : ToldWork τ κ δ α} {s' : Work τ κ δ α} {P P' : Journal → Except Failure α → Prop}

theorem mono (h : R.Tells x s s' P) (hP : ∀ m r, P m r → P' m r) : R.Tells x s s' P' := by
  intro L
  refine (h L).mono (fun _ hw => hw) ?_
  rintro r w ⟨m, hm, hown⟩
  exact ⟨m, hP m r hm, hown⟩

theorem ofExcept {r : Except Failure α} (h : P [] r) :
    R.Tells x (Script.ofExcept r) (Script.ofExcept r) P :=
  fun L => Script.Keeps.ofExcept fun _ hw => ⟨[], h, by rwa [List.append_nil]⟩

theorem bind {f : α → ToldWork τ κ δ β} {f' : α → Work τ κ δ β}
    {Q : α → Journal → Except Failure β → Prop} {T : Journal → Except Failure β → Prop}
    (hs : R.Tells x s s' P) (hf : ∀ a, R.Tells x (f a) (f' a) (Q a))
    (herror : ∀ m e, P m (.error e) → T m (.error e))
    (hok : ∀ a m m' r, P m (.ok a) → Q a m' r → T (m ++ m') r) :
    R.Tells x (s >>= f) (s' >>= f') T := by
  intro L
  refine Script.Keeps.bind (hs L) (fun a => ?_) ?_
  · -- What has been told before is one of the things that may have been told.
    refine Script.Keeps.any (fun m : { m // P m (.ok a) } => R.Own x (L ++ m)) ?_ ?_
    · rintro w ⟨m, hm, hown⟩
      exact ⟨⟨m, hm⟩, hown⟩
    · rintro ⟨m, hm⟩
      refine (hf a (L ++ m)).mono (fun _ hw => hw) ?_
      rintro r w ⟨m', hm', hown⟩
      rw [List.append_assoc] at hown
      exact ⟨m ++ m', hok a m m' r hm hm', hown⟩
  · rintro e w ⟨m, hm, hown⟩
    exact ⟨m, herror m e hm, hown⟩

theorem hold (hs : R.Tells x s s' P) :
    R.Tells x s.hold s'.hold fun m r => ∃ a, r = .ok a ∧ P m a := by
  intro L
  refine (hs L).hold.mono (fun _ hw => hw) ?_
  rintro r w ⟨a, rfl, m, hm, hown⟩
  exact ⟨m, ⟨a, rfl, hm⟩, hown⟩

theorem observe {f : ToldState τ κ δ → α} {f' : RunState τ κ δ → α} (hview : ∀ w, f' w.plain = f w)
    (h : ∀ a, P [] (.ok a)) : R.Tells x (Script.observe f) (Script.observe f') P := by
  intro L
  refine Script.Keeps.observe (fun w _ => hview w) fun w hw => ⟨[], h (f w), ?_⟩
  rwa [List.append_nil]

theorem quiet {f : ToldState τ κ δ → ToldState τ κ δ} {f' : RunState τ κ δ → RunState τ κ δ}
    (hview : ∀ w, f' w.plain = (f w).plain) (hquiet : ∀ w, Quiet h w (f w))
    (hjournal : ∀ w, (f w).journal = w.journal) :
    R.Tells x (Script.update f) (Script.update f') fun m r => m = [] ∧ ∃ b, r = .ok b := by
  intro L
  have hown : ∀ w, R.Own x L w → R.Own x (L ++ []) (f w) := by
    intro w hw
    exact own_append hw (R.inv_quiet _ _ (hquiet w) hw.1) (by simp [hjournal]) (by simp)
  refine Script.Keeps.update (fun w _ => hview w) (fun w _ => ?_) fun w hw =>
    ⟨[], ⟨rfl, (), rfl⟩, hown w hw⟩
  exact ⟨obeys_of_quiet _ (hquiet w), [], by simp [hjournal], by simp⟩

end Tells

theorem quiet_tell (s : ToldState τ κ δ) {e : Entry} (he : e.isMark) : Quiet h s (s.tell e) :=
  ⟨rfl, rfl, rfl, .inl rfl, [e], rfl, by simpa using he⟩

/-- Who owns a place still does when the journal goes on with the beginning or the end of something there. -/
theorem own_tell {e : Entry} (hown : R.Own x L s) (he : e.isMark) (hplace : x <:+ e.place) :
    R.Own x (L ++ [e]) (s.tell e) :=
  own_append hown (R.inv_quiet _ _ (quiet_tell s he) hown.1) rfl (by simpa using hplace)

theorem grant_tell {e : Entry} (s : ToldState τ κ δ) (he : e.isMark) (hplace : x <:+ e.place)
    (hcloses : ¬e.Closes x) : (R.pact x).grant s (s.tell e) :=
  ⟨obeys_of_quiet _ (quiet_tell s he), [e], rfl, by simpa using ⟨hplace, hcloses⟩⟩

/-- What is told when a task begins, and when it has ended. -/
theorem Tells.enter {work : ToldWork τ κ δ Unit} {plain : Work τ κ δ Unit}
    {P : Journal → Outcome → Prop} {leg : Leg} {t : Task} (hxy : x <:+ y)
    (hs : R.Tells x work plain P) :
    R.Tells x (Host.enter (leg :: y) t work) plain fun m r =>
      ∃ m', m = .began (leg :: y) t :: (m' ++ [.ended (leg :: y) r]) ∧ P m' r := by
  intro L
  have hplace : x <:+ leg :: y := hxy.trans (List.suffix_cons leg y)
  have hne : leg :: y ≠ x := by
    intro heq
    rw [← heq] at hxy
    exact not_suffix_of_leg (List.suffix_refl _) hxy
  refine Script.Keeps.note (fun _ => R.Own x (L ++ [.began (leg :: y) t])) (fun _ => rfl)
    (fun w _ => grant_tell w rfl hplace nofun) (fun w hw => own_tell hw rfl hplace) fun _ => ?_
  refine Script.Keeps.noteAfter (hs _) (fun _ _ => rfl) (fun r w _ => grant_tell w rfl hplace hne) ?_
  rintro r w ⟨m, hm, hown⟩
  refine ⟨_, ⟨m, rfl, hm⟩, ?_⟩
  have hended := own_tell (e := .ended (leg :: y) r) hown rfl hplace
  simpa using hended

/-! ## Branches -/

/-- The last change of a branch: it tells that it has ended, and this completes an account of it. -/
structure LastTold (R : Rules h) (y : Place) (bs : List Branch) (L : Journal) (i : Nat) (r : Outcome)
    (w v : ToldState τ κ δ) : Prop where
  told : v = w.tell (.ended (.branch i :: y) r)
  inv : R.inv w
  account : ∃ b m, bs[i]? = some b ∧
    w.journal.under (.branch i :: y) = L.under (.branch i :: y) ++ m ∧
    Account (.branch i :: y) (.task (.branch b)) (m ++ [.ended (.branch i :: y) r]) r

/-- What has been told since the branches of a parallel block began. -/
def Joint (R : Rules h) (x y : Place) (bs : List Branch) (L : Journal) (rs : List (Nat × Outcome))
    (w : ToldState τ κ δ) : Prop :=
  R.inv w ∧ ∃ m, w.journal.under x = L ++ m ∧ Gathered y bs rs m

variable {bs : List Branch} {rs : List (Nat × Outcome)} {m m' : Journal} {i : Nat} {r : Outcome}

/-- The branches of a parallel block divide the pact of the place at which it runs. -/
theorem shares (R : Rules h) (hxy : x <:+ y) (bs : List Branch) (L : Journal) :
    (R.pact x).Shares bs.length (fun i => R.pact (.branch i :: y)) (LastTold R y bs L)
      (Joint R x y bs L) where
  firm := by
    rintro rs w v ⟨hobeys, m', hm', hplace⟩ ⟨hinv, m, hm, hgathered⟩
    refine ⟨(hobeys hinv).1, m, ?_, hgathered⟩
    rw [hm', Journal.under_append, Journal.under_eq_nil hplace, List.append_nil]
    exact hm
  kept := by
    rintro rs i w v hi hnot ⟨hobeys, m', hm', hplace⟩ ⟨hinv, m, hm, hgathered⟩
    refine ⟨(hobeys hinv).1, m ++ m', ?_, hgathered.append hi hnot hplace⟩
    have hself : Journal.under x m' = m' := Journal.under_eq_self fun e he =>
      hxy.trans ((List.suffix_cons _ y).trans (hplace e he).1)
    rw [hm', Journal.under_append, hself, hm, List.append_assoc]
  last := by
    rintro rs i r w v hi hnot ⟨rfl, hinv, b, mi, hb, hmi, haccount⟩ ⟨_, m, hm, hgathered⟩
    have hplace : x <:+ (Leg.branch i :: y) := hxy.trans (List.suffix_cons _ y)
    refine ⟨R.inv_quiet _ _ (quiet_tell w rfl) hinv, m ++ [.ended (.branch i :: y) r], ?_, ?_⟩
    · rw [RunState.journal_tell, Journal.under_append, hm,
        Journal.under_eq_self (x := x) (l := [.ended (.branch i :: y) r])
          (by simpa [Entry.place] using hplace),
        List.append_assoc]
    · -- The branch has told what is under its place, and nobody else has.
      have hunder : m.under (.branch i :: y) = mi := by
        rw [← Journal.under_under hplace, hm, Journal.under_append] at hmi
        exact List.append_cancel_left hmi
      exact hgathered.last hi hnot hb (hunder.symm ▸ haccount)
  up := by
    rintro i w v _ ⟨hobeys, m, hm, hplace⟩
    refine ⟨hobeys.mono fun z hz => hxy.trans ((List.suffix_cons _ y).trans hz), m, hm, ?_⟩
    intro e he
    refine ⟨hxy.trans ((List.suffix_cons _ y).trans (hplace e he).1), fun hcloses => ?_⟩
    have hplace := (hplace e he).1
    cases e with
    | ended z r =>
      have hz : z = x := hcloses
      subst hz
      exact not_suffix_of_leg hplace hxy
    | _ => exact hcloses
  upLast := by
    rintro i r w v _ ⟨rfl, _, _⟩
    refine grant_tell w rfl (hxy.trans (List.suffix_cons _ y)) fun hcloses => ?_
    have hz : Leg.branch i :: y = x := hcloses
    rw [← hz] at hxy
    exact not_suffix_of_leg (List.suffix_refl _) hxy
  side := by
    rintro i j w v hij ⟨hobeys, m, hm, hplace⟩
    have hother : ∀ z, (Leg.branch i :: y) <:+ z → ¬(Leg.branch j :: y) <:+ z := fun z hi hj =>
      hij (Leg.branch.inj (leg_eq_of_suffix hi hj))
    exact ⟨hobeys.mono hother, m, hm, fun e he => hother _ (hplace e he).1⟩
  sideLast := by
    rintro i j r w v hij ⟨rfl, _, _⟩
    refine ⟨obeys_of_quiet _ (quiet_tell w rfl), [.ended (.branch i :: y) r], rfl, ?_⟩
    intro e he hj
    rw [List.mem_singleton] at he
    subst he
    exact hij (Leg.branch.inj (leg_eq_of_suffix (List.suffix_refl (Leg.branch i :: y)) hj))
  down := by
    rintro i w v ⟨hobeys, m, hm, hplace⟩
    have hdown : ∀ z, ¬x <:+ z → ¬(Leg.branch i :: y) <:+ z := fun z hz hi =>
      hz (hxy.trans ((List.suffix_cons _ y).trans hi))
    exact ⟨hobeys.mono hdown, m, hm, fun e he => hdown _ (hplace e he)⟩

/-- The plan of a branch ends when it tells that the branch has ended. -/
theorem branch_keeps {b : Branch} {work : ToldWork τ κ δ Unit} {plain : Work τ κ δ Unit}
    (hb : bs[i]? = some b)
    (hs : R.Tells (.branch i :: y) work plain (Inside (.branch i :: y) (.branch b))) :
    Plan.Keeps RunState.plain (R.pact (.branch i :: y))
      (R.Own (.branch i :: y) (L.under (.branch i :: y)))
      (Host.enter (.branch i :: y) (.branch b) work).plan plain.plan (LastTold R y bs L i) := by
  have hself : (Leg.branch i :: y) <:+ (Leg.branch i :: y) := List.suffix_refl _
  have hconclude : Plan.Keeps RunState.plain (R.pact (.branch i :: y))
      (R.Own (.branch i :: y)
        (L.under (.branch i :: y) ++ [.began (.branch i :: y) (.branch b)]))
      (Host.conclude (.branch i :: y) work).plan plain.plan (LastTold R y bs L i) := by
    refine Script.Keeps.finish (f := fun r w => w.tell (.ended (.branch i :: y) r)) (hs _)
      (fun _ _ => rfl) ?_
    rintro r v ⟨m, hm, hown⟩
    refine ⟨rfl, hown.1, b, .began (.branch i :: y) (.branch b) :: m, hb, ?_, hm⟩
    rw [hown.2, List.append_assoc, List.singleton_append]
  refine .note (fun _ => rfl) (fun w _ => grant_tell w rfl hself nofun) fun w hw => ?_
  exact hconclude.mono fun v hv => hv ▸ own_tell hw rfl hself

/-- Branches that run side by side, each with its own account. -/
theorem tells_together {told : List (ToldWork τ κ δ Unit)} {plain : List (Work τ κ δ Unit)}
    (hxy : x <:+ y) (htold : told.length = bs.length) (hplain : plain.length = bs.length)
    (hbranch : ∀ i b s s', bs[i]? = some b → told[i]? = some s → plain[i]? = some s' →
      ∃ work, s = Host.enter (.branch i :: y) (.branch b) work ∧
        R.Tells (.branch i :: y) work s' (Inside (.branch i :: y) (.branch b))) :
    R.Tells x (Script.together told) (Script.together plain) fun m r =>
      ∃ rs : List (Nat × Outcome), r = .ok (rs.map Prod.snd) ∧
        (rs.map Prod.fst).Perm (List.range bs.length) ∧ Gathered y bs rs m := by
  intro L
  have hshares := R.shares hxy bs L
  rw [← htold] at hshares
  refine Script.Keeps.together hshares (htold.trans hplain.symm) ?_ ?_
    (fun i => R.firm_own (.branch i :: y) (L.under (.branch i :: y))) ?_ ?_
  · rintro w ⟨hinv, hL⟩
    refine ⟨hinv, [], by rw [hL, List.append_nil], ⟨by simp, rfl, ?_⟩⟩
    intro i b r _ hr
    cases hr
  · rintro i w ⟨hinv, hL⟩
    refine ⟨hinv, ?_⟩
    rw [← hL, Journal.under_under (hxy.trans (List.suffix_cons _ y))]
  · intro i s s' hs hs'
    have hi : i < bs.length := htold ▸ (List.getElem?_eq_some_iff.1 hs).1
    have hb : bs[i]? = some bs[i] := List.getElem?_eq_getElem hi
    obtain ⟨work, rfl, hwork⟩ := hbranch i bs[i] s s' hb hs hs'
    exact branch_keeps hb hwork
  · rintro rs w hperm ⟨hinv, m, hm, hgathered⟩
    rw [htold] at hperm
    exact ⟨m, ⟨rs, rfl, hperm, hgathered⟩, hinv, hm⟩

/-! ## Programs -/

/-- The rules are kept by the writes and the session calls of a program, wherever they are made. -/
structure Kept (R : Rules h) (p : Program) : Prop where
  write : ∀ x y name kind text, x <:+ y →
    R.Tells x (h.tellWrite y name kind text) (h.writeBinding name kind text)
      (Wrote y name kind text)
  call : ∀ x y call resume, x <:+ y →
    R.Tells x (h.tellCall p y call resume) (h.callSession p call resume) (Asked y call resume)

variable {p : Program}

theorem tells_begin : R.Tells x Host.begin Host.begin fun m r => m = [] ∧ ∃ b, r = .ok b :=
  Tells.quiet (fun _ => rfl) (fun _ => ⟨rfl, rfl, rfl, .inl rfl, [], by simp [RunState.journal,
    RunState.count], by simp⟩) fun _ => rfl

/-- A program that keeps the rules does what it tells. -/
def Kept.chronicle (kept : R.Kept p) : Chronicle (h.teller p) h p where
  tells x s s' P := R.Tells x s s' P
  mono := Tells.mono
  ofExcept := Tells.ofExcept
  bind := Tells.bind
  hold := Tells.hold
  observe _ := Tells.observe (fun _ => rfl) fun a => ⟨rfl, a, rfl⟩
  begin := tells_begin
  together := tells_together
  enter := Tells.enter
  call := kept.call
  write := kept.write

/-- A run has a story. -/
theorem tells_script (kept : R.Kept p) (inputs : KeyMap String) :
    R.Tells [] ((h.teller p).script p inputs) (h.script p inputs) (Story p inputs) :=
  kept.chronicle.tells_script inputs

end Rules

/-! ## Runs -/

open Relation (ReflTransGen)

namespace Host

variable (h : Host τ η κ δ) (p : Program) (inputs : KeyMap String) (limit : Option Nat)

/-- The start of a run that keeps a journal, with a journal of what happened before. -/
def toldStart (s : RunState τ κ δ) (L : Journal) : ToldState τ κ δ :=
  (h.begun p inputs s).1.withJournal L

/-- The program of a run that keeps a journal. -/
def toldThread : Running τ (κ × Journal) δ :=
  .ofPlan ((h.teller p).script p inputs).plan

/-- A moment of a run, with what the journal says by then, if it said `L` when the run began. -/
def Tale (s : RunState τ κ δ) (L l : Journal) (w : RunState τ κ δ) : Prop :=
  h.journaled.Passes limit 0 true (h.toldStart p inputs s L) (h.toldThread p inputs)
    (w.withJournal l)

/-- How a run that keeps a journal ends. -/
def ToldEnd (R : Rules h) (L : Journal) (r : Outcome) (u v : ToldState τ κ δ) : Prop :=
  u = v ∧ ∃ m, Story p inputs m r ∧ R.Own [] (L ++ m) v

variable {h p inputs limit} {R : Rules h} {s w : RunState τ κ δ} {L l : Journal}

theorem under_nil (l : Journal) : l.under [] = l :=
  Journal.under_eq_self fun _ _ => List.nil_suffix

/-- The host of a run that keeps a journal stands for the host of the run. -/
theorem journaled_overlays (R : Rules h) :
    h.journaled.Overlays h RunState.plain (R.pact []) where
  courier := rfl
  outbox _ := rfl
  withOutbox _ _ := rfl
  rely s outbox := by
    have hquiet : Quiet h s { s with outbox } :=
      ⟨rfl, rfl, rfl, .inl rfl, [], by simp [RunState.journal], by simp⟩
    exact ⟨Rules.obeys_of_quiet _ hquiet, [], by simp [RunState.journal], by simp⟩

/-- The program of a run that keeps a journal does what the program does. -/
theorem told_keeps (kept : R.Kept p) (hinv : R.inv (h.toldStart p inputs s L)) :
    Thread.Keeps RunState.plain (R.pact []) (h.toldStart p inputs s L) (h.toldThread p inputs)
      (h.begun p inputs s).2 (h.ToldEnd p inputs R L) := by
  have hown : R.Own [] L (h.toldStart p inputs s L) := ⟨hinv, under_nil L⟩
  refine .ready (R.firm_own [] L) hown ?_
  refine Rules.tells_script kept inputs L _ _ _ fun r => .done ?_
  rintro w ⟨m, hm, hown⟩
  exact ⟨rfl, m, hm, hown⟩

/-- The invariant outlasts all changes, and nothing is taken out of the journal. -/
theorem inv_of_changes {u v : ToldState τ κ δ}
    (hchanges : ReflTransGen (Changes (R.pact []) (h.ToldEnd p inputs R L)) u v) :
    (R.inv u → R.inv v) ∧ u.journal <+: v.journal := by
  induction hchanges with
  | refl => exact ⟨id, List.prefix_refl _⟩
  | tail _ hchange ih =>
    rcases hchange with (⟨hobeys, m, hm, _⟩ | ⟨r, rfl, _⟩) | ⟨hobeys, m, hm, _⟩
    · exact ⟨fun hu => (hobeys (ih.1 hu)).1, ih.2.trans ⟨m, hm.symm⟩⟩
    · exact ih
    · exact ⟨fun hu => (hobeys (ih.1 hu)).1, ih.2.trans ⟨m, hm.symm⟩⟩

/-- At every moment of a run the invariant holds. -/
theorem Tale.inv (kept : R.Kept p) (hinv : R.inv (h.toldStart p inputs s L))
    (htale : h.Tale p inputs limit s L l w) : R.inv (w.withJournal l) ∧ L <+: l := by
  obtain ⟨hto, _, _⟩ := passes_keeps (journaled_overlays R) (told_keeps kept hinv) htale
  obtain ⟨hholds, hbegin⟩ := inv_of_changes hto
  exact ⟨hholds hinv, hbegin⟩

/-- What is told is of a moment of the run. -/
theorem Tale.passes (kept : R.Kept p) (hinv : R.inv (h.toldStart p inputs s L))
    (htale : h.Tale p inputs limit s L l w) :
    h.Passes limit 0 true (h.begun p inputs s).1 (h.begun p inputs s).2 w :=
  (passes_keeps (journaled_overlays R) (told_keeps kept hinv) htale).2.2

/-- There is something told of every moment of the run. -/
theorem tale_of_passes (kept : R.Kept p) (hinv : R.inv (h.toldStart p inputs s L))
    (hw : h.Passes limit 0 true (h.begun p inputs s).1 (h.begun p inputs s).2 w) :
    ∃ l, h.Tale p inputs limit s L l w := by
  obtain ⟨v, hv, rfl⟩ :=
    passes_view (journaled_overlays R) (told_keeps (L := L) kept hinv) rfl hw
  exact ⟨v.journal, hv⟩

/-- How a run went, and what the journal says of it, if it said `L` when the run began. -/
structure Recounted (h : Host τ η κ δ) (p : Program) (inputs : KeyMap String) (limit : Option Nat)
    (s : RunState τ κ δ) (L l : Journal) (r : Outcome) : Prop where
  result : (h.journaled.drive limit 0 true (h.toldStart p inputs s L)
    (h.toldThread p inputs)).2.result? = some r
  journal : (h.journaled.drive limit 0 true (h.toldStart p inputs s L)
    (h.toldThread p inputs)).1.journal = l
  /-- It is the run itself that is told. -/
  state : (h.journaled.drive limit 0 true (h.toldStart p inputs s L)
    (h.toldThread p inputs)).1.plain = (h.drive limit 0 true (h.begun p inputs s).1
      (h.begun p inputs s).2).1

/-- A run that ends in some number of steps is at its last moment then. -/
theorem tale_of_within {steps : Nat} {last : ToldState τ κ δ × Running τ (κ × Journal) δ}
    (hwithin : h.journaled.driveWithin limit steps 0 true (h.toldStart p inputs s L)
      (h.toldThread p inputs) = some last) : h.Tale p inputs limit s L last.1.journal last.1.plain := by
  have hpasses := h.journaled.passes_drive limit 0 true (h.toldStart p inputs s L)
    (h.toldThread p inputs)
  rw [h.journaled.drive_of_within hwithin] at hpasses
  exact hpasses

/-- The journal of a run that ends in some number of steps is the one that it has then. -/
theorem Recounted.journal_of_within {r : Outcome} (htold : h.Recounted p inputs limit s L l r) {steps : Nat}
    {last : ToldState τ κ δ × Running τ (κ × Journal) δ}
    (hwithin : h.journaled.driveWithin limit steps 0 true (h.toldStart p inputs s L)
      (h.toldThread p inputs) = some last) : last.1.journal = l := by
  rw [← htold.journal, h.journaled.drive_of_within hwithin]

/-- A run that has ended has a story. -/
theorem Recounted.story (kept : R.Kept p) (hinv : R.inv (h.toldStart p inputs s L)) {r : Outcome}
    (htold : h.Recounted p inputs limit s L l r) : ∃ m, Story p inputs m r ∧ l = L ++ m := by
  obtain ⟨_, _, _, hlast⟩ :=
    drive_keeps limit 0 true (journaled_overlays R) (told_keeps kept hinv)
  obtain ⟨u, _, _, m, hm, hown⟩ := hlast rfl r htold.result
  refine ⟨m, hm, ?_⟩
  rw [← htold.journal, ← hown.2, under_nil]

/-- At no moment does the journal say more than in the end. -/
theorem Recounted.before (kept : R.Kept p) (hinv : R.inv (h.toldStart p inputs s L)) {r : Outcome}
    {l' : Journal} (htold : h.Recounted p inputs limit s L l r)
    (htale : h.Tale p inputs limit s L l' w) : l' <+: l := by
  obtain ⟨_, hfrom, _⟩ := passes_keeps (journaled_overlays R) (told_keeps kept hinv) htale
  have hbegin := (inv_of_changes hfrom).2
  rw [htold.journal] at hbegin
  exact hbegin

/-- The run that keeps a journal goes as the run does. -/
theorem recounted_of_result (kept : R.Kept p) (hinv : R.inv (h.toldStart p inputs s L)) {r : Outcome}
    (hresult : (h.drive limit 0 true (h.begun p inputs s).1 (h.begun p inputs s).2).2.result? =
      some r) : ∃ l, h.Recounted p inputs limit s L l r := by
  have hdrive := drive_keeps limit 0 true (journaled_overlays R) (told_keeps kept hinv)
  exact ⟨_, hdrive.result.symm.trans hresult, rfl, hdrive.world.symm⟩

/-- A run that has an outcome has run its program to the end. -/
theorem result_of_run {r : Outcome} (hrun : (h.run p inputs limit s).2 = some r) :
    (h.drive limit 0 true (h.begun p inputs s).1 (h.begun p inputs s).2).2.result? = some r := by
  unfold run at hrun
  simp only at hrun
  split at hrun
  · rename_i outcome hresult
    rw [hresult]
    unfold finish at hrun
    simp only at hrun
    split at hrun
    · cases hrun
    · exact hrun
  · cases hrun

end Host

end Playbook
