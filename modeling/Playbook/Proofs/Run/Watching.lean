import Mathlib.Data.List.Forall2
import Playbook.Proofs.Run.Chronicle
import Playbook.Proofs.Run.Moments
import Playbook.Proofs.Run.Watch

/-!
# `Proofs.Run.Watching` — what holds at all moments of a run that is watched

A run that is watched goes as the run does (`Watches` compares the two step by step). What its notes say of sessions and of what is
stored is an invariant that every part of the run may break off at, and that no part breaks: a program keeps it if its writes and its
session calls do (`Heeds`). Since notes are only added, what they say once they say for good.

## Contents
- **Changes.** `Calm` changes, `Abides`, `common`: the pact that all parts of a run have with one another.
- **Stages.** `Holds`: the invariant, and something that is noted; `Lasting`.
- **Scripts.** `Watches`, with one rule for each way in which scripts are made; `Yields`: a script gives more when it is watched.
- **Programs.** `Heeds`, `Heeds.chronicle`, `Heeds.watches_script`.
- **Runs.** `Host.Watched`: a moment of a run and what has been noted by then; `Host.Watched.holds`; `Host.Minuted`: the end of a run
  and all that has been noted; `Host.Mirrored`: a run is the same whether it is watched or not.
-/

namespace Playbook

variable {τ η κ δ α β γ ε : Type}

/-! ## Changes -/

/-- A change that has nothing to do with sessions, with what is stored and with what is noted. -/
structure Calm (h : Host τ η κ δ) (w v : WatchState τ κ δ) : Prop where
  sessions : v.sessions = w.sessions
  log : v.log = w.log
  store : v.store.1 = w.store.1 ∨ ∃ key, v.store.1 = (h.store.get key w.store.1).2

/-- A change that an invariant outlasts and that takes nothing out of the log. -/
structure Abides (inv : WatchState τ κ δ → Prop) (w v : WatchState τ κ δ) : Prop where
  inv : inv w → inv v
  log : w.log <+: v.log

/-- What all parts of a run grant one another. -/
def common (inv : WatchState τ κ δ → Prop) : Pact (WatchState τ κ δ) where
  grant := Abides inv
  rely := Abides inv

variable {inv : WatchState τ κ δ → Prop}

theorem Abides.refl (w : WatchState τ κ δ) : Abides inv w w :=
  ⟨id, List.prefix_refl _⟩

theorem Abides.trans {u v w : WatchState τ κ δ} (huw : Abides inv u w) (hwv : Abides inv w v) : Abides inv u v :=
  ⟨hwv.inv ∘ huw.inv, huw.log.trans hwv.log⟩

/-! ## Stages -/

/-- What holds at a stage of a run: the invariant, and something that the notes say. -/
def Holds (inv : WatchState τ κ δ → Prop) (P : Log → Prop) (w : WatchState τ κ δ) : Prop :=
  inv w ∧ P w.log

/-- What notes say for good. -/
def Lasting (P : Log → Prop) : Prop :=
  ∀ l m, l <+: m → P l → P m

/-- What all notes say. -/
def Always (_ : Log) : Prop :=
  True

theorem lasting_always : Lasting Always :=
  fun _ _ _ => id

variable {P : Log → Prop}

theorem Holds.abides {w v : WatchState τ κ δ} (hw : Holds inv P w) (hP : Lasting P) (h : Abides inv w v) :
    Holds inv P v :=
  ⟨h.inv hw.1, hP _ _ h.log hw.2⟩

theorem firm_holds (hP : Lasting P) : (common inv).Firm (Holds inv P) :=
  fun _ _ hrely hw => hw.abides hP hrely

/-- Branches have the pact in common, and end without doing anything more. -/
theorem shares_common (hP : Lasting P) (n : Nat) :
    (common inv).Shares n (fun _ => common inv) (fun _ (_ : Outcome) w v => w = v) fun _ => Holds inv P where
  firm _ := firm_holds hP
  kept _ _ _ _ _ _ hgrant hw := hw.abides hP hgrant
  last _ _ _ _ _ _ _ heq hw := heq ▸ hw
  up _ _ _ _ := id
  upLast _ _ _ _ _ heq := heq ▸ .refl _
  side _ _ _ _ _ := id
  sideLast _ _ _ _ _ _ heq := heq ▸ .refl _
  down _ _ _ := id

/-! ## Scripts -/

/-- A script that is watched, next to the one that is not, keeps an invariant at a stage, however it goes. -/
abbrev Watches (inv : WatchState τ κ δ → Prop) (P : Log → Prop) (s : WatchWork τ κ δ α) (s' : Work τ κ δ α) : Prop :=
  Script.Keeps RunState.unwatched (common inv) (Holds inv P) s s' fun _ => Holds inv P

/-- An invariant that is about nothing but sessions, what is stored and what is noted. -/
def Unmoved (h : Host τ η κ δ) (inv : WatchState τ κ δ → Prop) : Prop :=
  ∀ w v, Calm h w v → inv w → inv v

namespace Watches

variable {s : WatchWork τ κ δ α} {s' : Work τ κ δ α} {h : Host τ η κ δ}

theorem ofExcept (r : Except Failure α) : Watches inv P (Script.ofExcept r) (Script.ofExcept r) :=
  Script.Keeps.ofExcept fun _ => id

theorem pure (a : α) : Watches inv P (Pure.pure a : WatchWork τ κ δ α) (Pure.pure a) :=
  Script.Keeps.pure fun _ => id

theorem bind {f : α → WatchWork τ κ δ β} {f' : α → Work τ κ δ β} (hs : Watches inv P s s')
    (hf : ∀ a, Watches inv P (f a) (f' a)) : Watches inv P (s >>= f) (s' >>= f') :=
  Script.Keeps.bind hs hf fun _ _ => id

theorem hold (hs : Watches inv P s s') : Watches inv P s.hold s'.hold := by
  refine (Script.Keeps.hold hs).mono (fun _ => id) ?_
  rintro r w ⟨_, _, hw⟩
  exact hw

theorem observe {f : WatchState τ κ δ → α} {f' : RunState τ κ δ → α} (hview : ∀ w, f' w.unwatched = f w) :
    Watches inv P (Script.observe f) (Script.observe f') :=
  Script.Keeps.observe (fun w _ => hview w) fun _ => id

theorem pause {ms : WatchState τ κ δ → Nat} {ms' : RunState τ κ δ → Nat} (hP : Lasting P)
    (hview : ∀ w, ms' w.unwatched = ms w) : Watches inv P (Script.pause ms) (Script.pause ms') :=
  Script.Keeps.pause (fun w _ => hview w) (firm_holds hP) (fun _ => id) fun _ => id

/-- A step that the invariant outlasts and that is not noted goes as in the run. -/
theorem act {f : WatchState τ κ δ → α × WatchState τ κ δ} {f' : RunState τ κ δ → α × RunState τ κ δ}
    (hview : ∀ w, f' w.unwatched = ((f w).1, (f w).2.unwatched)) (hlog : ∀ w, (f w).2.log = w.log)
    (hinv : ∀ w, inv w → inv (f w).2) : Watches inv P (Script.act f) (Script.act f') := by
  have hdone : ∀ w, Abides inv w (f w).2 := fun w => ⟨hinv w, hlog w ▸ List.prefix_refl _⟩
  refine Script.Keeps.act (fun w _ => hview w) (fun w _ => hdone w) fun w hw => ⟨hinv w hw.1, ?_⟩
  rw [hlog w]
  exact hw.2

/-- A calm step goes as in the run, and keeps every invariant that is unmoved by such steps. -/
theorem quiet (hinv : Unmoved h inv) {f : WatchState τ κ δ → α × WatchState τ κ δ}
    {f' : RunState τ κ δ → α × RunState τ κ δ} (hview : ∀ w, f' w.unwatched = ((f w).1, (f w).2.unwatched))
    (hcalm : ∀ w, Calm h w (f w).2) : Watches inv P (Script.act f) (Script.act f') :=
  act hview (fun w => (hcalm w).log) fun w => hinv w _ (hcalm w)

theorem update (hinv : Unmoved h inv) {f : WatchState τ κ δ → WatchState τ κ δ}
    {f' : RunState τ κ δ → RunState τ κ δ} (hview : ∀ w, f' w.unwatched = (f w).unwatched)
    (hcalm : ∀ w, Calm h w (f w)) : Watches inv P (Script.update f) (Script.update f') :=
  quiet hinv (fun w => by rw [hview w]) hcalm

/-- A script that starts with a known value. -/
theorem known {a : α} {f : α → WatchWork τ κ δ β} {f' : α → Work τ κ δ β} (hf : Watches inv P (f a) (f' a)) :
    Watches inv P (Script.ofExcept (.ok a) >>= f) (Script.ofExcept (.ok a) >>= f') :=
  hf

/-- The backend is called. -/
theorem perform (hinv : Unmoved h inv) (hP : Lasting P) (call : Backend.Call η) (f : τ → α × τ) :
    Watches inv P (h.watched.perform call f) (h.perform call f) :=
  bind (pause hP fun _ => rfl) fun _ => quiet hinv (fun _ => rfl) fun _ => ⟨rfl, rfl, .inl rfl⟩

/-- Branches that are watched, side by side. -/
theorem together (hP : Lasting P) {ss : List (WatchWork τ κ δ Unit)} {ss' : List (Work τ κ δ Unit)}
    (h : List.Forall₂ (Watches inv P) ss ss') : Watches inv P (Script.together ss) (Script.together ss') := by
  obtain ⟨hlength, hbranches⟩ := List.forall₂_iff_get.1 h
  refine Script.Keeps.together (shares_common hP ss.length) hlength (fun _ => id) (fun _ _ => id)
    (fun _ => firm_holds hP) (fun i b b' hb hb' => ?_) fun _ _ _ => id
  obtain ⟨hi, rfl⟩ := List.getElem?_eq_some_iff.1 hb
  obtain ⟨hi', rfl⟩ := List.getElem?_eq_some_iff.1 hb'
  exact hbranches i hi hi' _ _ _ fun r => .done fun w _ => rfl

end Watches

/-- A script that is watched leads from one stage to another, given the value that it gives. -/
def Brings (inv : WatchState τ κ δ → Prop) (P : Log → Prop) (F : α → Log → Prop) (s : WatchWork τ κ δ α)
    (s' : Work τ κ δ α) : Prop :=
  Script.Keeps RunState.unwatched (common inv) (Holds inv P) s s' fun r => Holds inv fun l => ∀ a, r = .ok a → F a l

namespace Brings

variable {F : α → Log → Prop} {s : WatchWork τ κ δ α} {s' : Work τ κ δ α}

theorem of_watches (h : Watches inv P s s') : Brings inv P (fun _ => P) s s' :=
  h.mono (fun _ => id) fun _ _ hw => ⟨hw.1, fun _ _ => hw.2⟩

/-- In the end only the invariant may be left. -/
theorem watches (h : Brings inv Always F s s') : Watches inv Always s s' :=
  h.mono (fun _ => id) fun _ _ hw => ⟨hw.1, trivial⟩

theorem pure {a : α} (h : ∀ l, P l → F a l) :
    Brings inv P F (Pure.pure a : WatchWork τ κ δ α) (Pure.pure a) := by
  refine Script.Keeps.pure fun _ hw => ⟨hw.1, ?_⟩
  rintro _ ⟨⟩
  exact h _ hw.2

theorem ofExcept {r : Except Failure α} (h : ∀ l a, P l → r = .ok a → F a l) :
    Brings inv P F (Script.ofExcept r) (Script.ofExcept r) :=
  Script.Keeps.ofExcept fun _ hw => ⟨hw.1, fun a => h _ a hw.2⟩

theorem bind {G : β → Log → Prop} {k : α → WatchWork τ κ δ β} {k' : α → Work τ κ δ β}
    (hs : Brings inv P F s s') (hk : ∀ a, Brings inv (F a) G (k a) (k' a)) :
    Brings inv P G (s >>= k) (s' >>= k') := by
  refine Script.Keeps.bind hs (fun a => (hk a).mono (fun w hw => ⟨hw.1, hw.2 a rfl⟩) fun _ _ => id) ?_
  rintro e w ⟨hw, _⟩
  exact ⟨hw, fun _ he => by cases he⟩

end Brings

/-- A script that is watched gives more than the one that is not: what `f` leaves of its value is what the other one gives. It keeps an
    invariant at a stage, however it goes, and `F` holds of the values that it may give. -/
def Yields (inv : WatchState τ κ δ → Prop) (P : Log → Prop) (f : α → β) (F : α → Prop) (s : WatchWork τ κ δ α)
    (s' : Work τ κ δ β) : Prop :=
  ∀ (next : Except Failure α → Plan (WatchState τ κ δ) Outcome) next' ends,
    (∀ r, Plan.Keeps RunState.unwatched (common inv) (fun w => Holds inv P w ∧ ∀ a, r = .ok a → F a) (next r)
      (next' (r.map f)) ends) →
      Plan.Keeps RunState.unwatched (common inv) (Holds inv P) (s next) (s' next') ends

namespace Yields

variable {f : α → β} {F : α → Prop} {s : WatchWork τ κ δ α}

theorem of_keeps {s' : Work τ κ δ α} (h : Script.Keeps RunState.unwatched (common inv) (Holds inv P) s s'
    fun r w => Holds inv P w ∧ ∀ a, r = .ok a → F a) : Yields inv P id F s s' := by
  intro next next' ends hnext
  refine h next next' ends fun r => ?_
  have hr := hnext r
  cases r <;> exact hr

theorem of_watches {s' : Work τ κ δ α} (h : Watches inv P s s') : Yields inv P id (fun _ => True) s s' :=
  of_keeps (h.mono (fun _ => id) fun _ _ hw => ⟨hw, fun _ _ => trivial⟩)

theorem ofExcept (r : Except Failure α) :
    Yields inv P id (fun a => r = .ok a) (Script.ofExcept r) (Script.ofExcept r) :=
  of_keeps (Script.Keeps.ofExcept fun _ hw => ⟨hw, fun _ => id⟩)

theorem ofExcept_map (r : Except Failure α) :
    Yields inv P f (fun a => r = .ok a) (Script.ofExcept r) (Script.ofExcept (r.map f)) :=
  fun _ _ _ hnext => (hnext r).mono fun _ hw => ⟨hw, fun _ => id⟩

theorem watches {s' : Work τ κ δ α} (h : Yields inv P id F s s') : Watches inv P s s' := by
  intro next next' ends hnext
  refine h next next' ends fun r => ?_
  have hr := (hnext r).mono fun w (hw : Holds inv P w ∧ ∀ a, r = .ok a → F a) => hw.1
  cases r <;> exact hr

theorem pure {a : α} (ha : F a) : Yields inv P f F (Pure.pure a : WatchWork τ κ δ α) (Pure.pure (f a)) := by
  intro next next' ends hnext
  refine (hnext (.ok a)).mono fun w hw => ⟨hw, ?_⟩
  rintro _ ⟨⟩
  exact ha

variable {s' : Work τ κ δ β}

theorem bind {g : γ → ε} {G : γ → Prop} {k : α → WatchWork τ κ δ γ} {k' : β → Work τ κ δ ε}
    (hs : Yields inv P f F s s') (hk : ∀ a, F a → Yields inv P g G (k a) (k' (f a))) :
    Yields inv P g G (s >>= k) (s' >>= k') := by
  intro next next' ends hnext
  apply hs
  intro r
  cases r with
  | ok a =>
    -- There is one case to come: what holds of the value does not hang on the state any more.
    have hknown : ∀ _ : PLift (F a), Plan.Keeps RunState.unwatched (common inv) (Holds inv P) (k a next)
        (k' (f a) next') ends := fun ha => hk a ha.down next next' ends hnext
    refine .any ?_ hknown
    exact fun w hw => ⟨⟨hw.2 a rfl⟩, hw.1⟩
  | error e =>
    refine (hnext (.error e)).mono fun w hw => ⟨hw.1, ?_⟩
    rintro _ ⟨⟩

theorem hold (hs : Yields inv P f F s s') :
    Yields inv P (·.map f) (fun r => ∀ a, r = .ok a → F a) s.hold s'.hold := by
  intro next next' ends hnext
  apply hs
  intro r
  refine (hnext (.ok r)).mono fun w hw => ⟨hw.1, ?_⟩
  rintro _ ⟨⟩
  exact hw.2

end Yields

/-! ## Programs -/

/-- An invariant that the writes and the session calls of a program keep. -/
structure Heeds (h : Host τ η κ δ) (p : Program) (inv : WatchState τ κ δ → Prop) : Prop where
  unmoved : Unmoved h inv
  put : ∀ name n bytes w, inv w →
    inv { w with store := ((h.store.put (Host.bindingKey h.context.runId name n) bytes "text/plain" w.store.1).2, w.store.2) }
  call : ∀ call resume, Watches inv Always (h.watchCall p call resume) (h.callSession p call resume)

namespace Heeds

variable {h : Host τ η κ δ} {p : Program}

theorem watches_begin (heeds : Heeds h p inv) : Watches inv Always Host.begin Host.begin :=
  Watches.update heeds.unmoved (fun _ => rfl) fun _ => ⟨rfl, rfl, .inl rfl⟩

/-- A name is bound. -/
theorem watches_write (heeds : Heeds h p inv) (name : String) (kind : BindingKind) (text : String) :
    Watches inv Always (h.watched.writeBinding name kind text) (h.writeBinding name kind text) := by
  unfold Host.writeBinding
  refine Watches.bind (Watches.quiet heeds.unmoved (fun _ => rfl) fun _ => ⟨rfl, rfl, .inl rfl⟩) fun n => ?_
  refine Watches.bind ?_ fun receipt => Watches.update heeds.unmoved (fun _ => rfl) fun _ => ⟨rfl, rfl, .inl rfl⟩
  refine Watches.bind (Watches.pause lasting_always fun _ => rfl) fun _ => ?_
  -- This is the only part of a write that the invariant may be about.
  refine Watches.bind (Watches.act (fun _ => rfl) (fun _ => rfl) fun w => ?_) fun r => Watches.ofExcept r
  exact heeds.put name n _ w

/-- A program that is watched goes as it does otherwise, whatever is told of it. -/
def chronicle (heeds : Heeds h p inv) : Chronicle (h.watcher p) h p where
  tells _ s s' _ := Watches inv Always s s'
  mono hs _ := hs
  ofExcept _ := Watches.ofExcept _
  bind hs hf _ _ := Watches.bind hs hf
  hold := Watches.hold
  observe _ := Watches.observe fun _ => rfl
  begin := heeds.watches_begin
  together _ htold hplain hbranches := by
    refine Watches.together lasting_always (List.forall₂_iff_get.2 ⟨htold.trans hplain.symm, fun i hi hi' => ?_⟩)
    obtain ⟨_, heq, hwork⟩ := hbranches i _ _ _ (List.getElem?_eq_getElem (htold ▸ hi))
      (List.getElem?_eq_getElem hi) (List.getElem?_eq_getElem hi')
    rw [List.get_eq_getElem, heq]
    exact hwork
  enter _ hs := hs
  call _ _ call resume _ := heeds.call call resume
  write _ _ name kind text _ := heeds.watches_write name kind text

/-- A program that is watched goes as it does otherwise, and keeps the invariant. -/
theorem watches_script (heeds : Heeds h p inv) (inputs : KeyMap String) :
    Watches inv Always ((h.watcher p).script p inputs) (h.script p inputs) :=
  heeds.chronicle.tells_script inputs

end Heeds

/-! ## Runs -/

open Relation (ReflTransGen)

namespace Host

variable (h : Host τ η κ δ) (p : Program) (inputs : KeyMap String) (limit : Option Nat)

/-- The start of a run that is watched. -/
def watchStart (s : RunState τ κ δ) : WatchState τ κ δ :=
  (h.begun p inputs s).1.withLog []

/-- The program of a run that is watched. -/
def watchThread : Running τ (κ × Log) δ :=
  .ofPlan ((h.watcher p).script p inputs).plan

/-- A moment of a run, with what has been noted by then. -/
def Watched (s : RunState τ κ δ) (l : Log) (w : RunState τ κ δ) : Prop :=
  h.watched.Passes limit 0 true (h.watchStart p inputs s) (h.watchThread p inputs) (w.withLog l)

variable {h p inputs limit} {s w : RunState τ κ δ} {l : Log}

/-- The host of a run that is watched stands for the host of the run. -/
theorem watched_overlays (heeds : Heeds h p inv) : h.watched.Overlays h RunState.unwatched (common inv) where
  courier := rfl
  outbox _ := rfl
  withOutbox _ _ := rfl
  rely s _ := ⟨heeds.unmoved s _ ⟨rfl, rfl, .inl rfl⟩, List.prefix_refl _⟩

/-- The program of a run that is watched does what the program does. -/
theorem watched_keeps (heeds : Heeds h p inv) (hinv : inv (h.watchStart p inputs s)) :
    Thread.Keeps RunState.unwatched (common inv) (h.watchStart p inputs s) (h.watchThread p inputs)
      (h.begun p inputs s).2 fun _ w v => w = v :=
  .ready (firm_holds lasting_always) ⟨hinv, trivial⟩ (heeds.watches_script inputs _ _ _ fun _ => .done fun _ _ => rfl)

/-- An invariant outlasts all changes. -/
theorem abides_of_changes {u v : WatchState τ κ δ}
    (hchanges : ReflTransGen (Changes (common inv) fun (_ : Outcome) w v => w = v) u v) : Abides inv u v := by
  induction hchanges with
  | refl => exact .refl u
  | tail _ hchange ih =>
    rcases hchange with (hgrant | ⟨_, rfl⟩) | hrely
    · exact ih.trans hgrant
    · exact ih
    · exact ih.trans hrely

/-- At every moment of a run the invariant holds. -/
theorem Watched.holds (heeds : Heeds h p inv) (hinv : inv (h.watchStart p inputs s))
    (hw : h.Watched p inputs limit s l w) : inv (w.withLog l) := by
  obtain ⟨hchanges, _, _⟩ := passes_keeps (watched_overlays heeds) (watched_keeps heeds hinv) hw
  exact (abides_of_changes hchanges).inv hinv

/-- How far a run comes, and what has been noted of it in the end. -/
structure Minuted (h : Host τ η κ δ) (p : Program) (inputs : KeyMap String) (limit : Option Nat) (s : RunState τ κ δ)
    (l : Log) (w : RunState τ κ δ) : Prop where
  /-- It comes to the same result as the run that is not watched, or to none. -/
  result : (h.watched.drive limit 0 true (h.watchStart p inputs s) (h.watchThread p inputs)).2.result? =
    (h.drive limit 0 true (h.begun p inputs s).1 (h.begun p inputs s).2).2.result?
  log : (h.watched.drive limit 0 true (h.watchStart p inputs s) (h.watchThread p inputs)).1.log = l
  /-- It is the run itself that is watched. -/
  state : (h.watched.drive limit 0 true (h.watchStart p inputs s) (h.watchThread p inputs)).1.unwatched =
    (h.drive limit 0 true (h.begun p inputs s).1 (h.begun p inputs s).2).1
  last : (h.drive limit 0 true (h.begun p inputs s).1 (h.begun p inputs s).2).1 = w

/-- The end of a run is one of its moments. -/
theorem Minuted.watched (hminuted : h.Minuted p inputs limit s l w) : h.Watched p inputs limit s l w := by
  have hpasses := h.watched.passes_drive limit 0 true (h.watchStart p inputs s) (h.watchThread p inputs)
  rw [← hminuted.log, ← hminuted.last, ← hminuted.state]
  exact hpasses

/-- That a run is the same whether it is watched or not: it ends in the same way, and has the same moments. -/
structure Mirrored (h : Host τ η κ δ) (p : Program) (inputs : KeyMap String) (limit : Option Nat)
    (s : RunState τ κ δ) : Prop where
  minuted : ∃ l w, h.Minuted p inputs limit s l w
  passes : ∀ l w, h.Watched p inputs limit s l w → h.Passes limit 0 true (h.begun p inputs s).1 (h.begun p inputs s).2 w
  watched : ∀ w, h.Passes limit 0 true (h.begun p inputs s).1 (h.begun p inputs s).2 w →
    ∃ l, h.Watched p inputs limit s l w

/-- A run that is watched goes as the run does, in lockstep. -/
theorem mirrored (heeds : Heeds h p inv) (hinv : inv (h.watchStart p inputs s)) : h.Mirrored p inputs limit s where
  minuted := by
    have hdrive := drive_keeps limit 0 true (watched_overlays heeds) (watched_keeps heeds hinv)
    exact ⟨_, _, hdrive.result.symm, rfl, hdrive.world.symm, rfl⟩
  passes _ _ hw := (passes_keeps (watched_overlays heeds) (watched_keeps heeds hinv) hw).2.2
  watched _ hw := by
    obtain ⟨v, hv, rfl⟩ := passes_view (watched_overlays heeds) (watched_keeps heeds hinv) rfl hw
    exact ⟨v.log, hv⟩

/-- A run that is watched and ends in some number of steps is at its last moment then. -/
theorem watched_of_within {steps : Nat} {last : WatchState τ κ δ × Running τ (κ × Log) δ}
    (hwithin : h.watched.driveWithin limit steps 0 true (h.watchStart p inputs s) (h.watchThread p inputs) =
      some last) : h.Watched p inputs limit s last.1.log last.1.unwatched := by
  have hpasses := h.watched.passes_drive limit 0 true (h.watchStart p inputs s) (h.watchThread p inputs)
  rw [h.watched.drive_of_within hwithin] at hpasses
  exact hpasses

end Host

end Playbook
