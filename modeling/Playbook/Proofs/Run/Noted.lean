import Playbook.Proofs.Outbox.Course
import Playbook.Proofs.Run.Bridge
import Playbook.Proofs.Run.Heard

/-!
# `Proofs.Run.Noted` — a run whose backend takes notes

A run whose backend notes the turns that are read goes on like the run without notes, and all the while the outbox has been
offered just what the notes say is sent on, in their order: each turn that is read is taken in, in the same step.

## Contents
- **Offers.** `Action.offer?`, `Supplied`, kept by turns and by time.
- **Worlds.** `Noting` ties the state with notes to the one without.
- **Scripts.** `pause_noting`, `act_noting` and `update_noting` for single steps; `listen_noting` and `readAnswer_noting`, where notes are
  taken; `bridge_noting` and `script_noting`.
-/

namespace Playbook

variable {τ η κ δ : Type}

/-! ## Offers -/

/-- What an action hands to the outbox. -/
def Outbox.Action.offer? : Outbox.Action → Option Offer
  | .enqueue agent session event usage => some ⟨agent, session, event, usage⟩
  | _ => none

open Outbox (Action Course)

theorem Outbox.Action.offer?_of_isTimes {a : Action} (h : a.isTimes) : a.offer? = none := by
  cases a with
  | enqueue => cases h
  | _ => rfl

/-- An outbox that takes events has been offered what the notes say, and has numbered all of it. -/
def Supplied (c : Courier δ) (sink : δ) (s : RunState (τ × List Heard) κ δ) : Prop :=
  ∃ actions : List Action, .stop ∉ actions ∧ s.outbox = (Outbox.empty sink).after c actions ∧
    actions.filterMap (·.offer?) = s.backend.2.filterMap (·.offer) ∧
    s.counters.eventsForwarded = s.outbox.seq

namespace Supplied

variable {c : Courier δ} {sink : δ} {s : RunState (τ × List Heard) κ δ}

/-- A run that begins is `Supplied`. -/
theorem fresh (c : Courier δ) (backend : τ) (store : κ) (sink : δ) :
    Supplied c sink (RunState.fresh (backend, []) store sink) :=
  ⟨[], by simp, rfl, rfl, rfl⟩

theorem orderly (h : Supplied c sink s) : Outbox.Orderly s.outbox := by
  obtain ⟨actions, _, houtbox, _, _⟩ := h
  rw [houtbox]
  exact Outbox.orderly_after (Outbox.orderly_empty sink) actions

/-- The outbox of a run that is `Supplied` takes events. -/
theorem phase (h : Supplied c sink s) : s.outbox.phase = .accepting := by
  obtain ⟨actions, hstop, houtbox, _, _⟩ := h
  rw [houtbox]
  exact Outbox.phase_of_not_mem (Outbox.orderly_empty sink) rfl hstop

/-- A run stays `Supplied` when something is done to the outbox that hands it nothing. -/
theorem act (h : Supplied c sink s) {a : Action} (ha : a ≠ .stop) (hoffer : a.offer? = none)
    (hseq : (s.outbox.act c a).seq = s.outbox.seq) :
    Supplied c sink { s with outbox := s.outbox.act c a } := by
  obtain ⟨actions, hstop, houtbox, hoffers, hcount⟩ := h
  refine ⟨actions ++ [a], ?_, ?_, ?_, ?_⟩
  · simp [hstop, Ne.symm ha]
  · simp only [Outbox.after_append, ← houtbox]
    rfl
  · simpa [hoffer] using hoffers
  · exact hcount.trans hseq.symm

/-- A run stays `Supplied` as time goes by. -/
theorem course (h : Supplied c sink s) {o : Outbox δ} (ho : Course c s.outbox o) :
    Supplied c sink { s with outbox := o } := by
  obtain ⟨as, has, rfl⟩ := ho
  induction as generalizing s with
  | nil => exact h
  | cons a as ih =>
    have ha := has a (by simp)
    have hnext := h.act (a := a) (by rintro rfl; cases ha) (Action.offer?_of_isTimes ha) (Outbox.seq_act_of_isTimes ha)
    exact ih hnext fun b hb => has b (List.mem_cons_of_mem _ hb)

/-- A run stays `Supplied` when a turn is noted and taken in. -/
theorem hear (h : Host τ η κ δ) {x : Heard} {l : Host.Hearing}
    (hs : Supplied h.courier sink s) (hk : Host.Hearing.Knows x.opened x.before l) (t : τ) :
    Supplied h.courier sink
      (h.noted.hear x.agent x.turn l { s with backend := (t, s.backend.2 ++ [x]) }).2 := by
  have hphase := hs.phase
  obtain ⟨actions, hstop, houtbox, hoffers, hcount⟩ := hs
  obtain ⟨sessions, hheard⟩ :=
    Host.hear_snd (s := { s with backend := (t, s.backend.2 ++ [x]) }) h.noted hk
  rw [hheard]
  cases hoffer : x.offer with
  | none =>
    refine ⟨actions, hstop, houtbox, ?_, hcount⟩
    simpa [hoffer] using hoffers
  | some o =>
    have hnumber := Outbox.enqueue_of_accepting (c := h.courier) o.agent o.session o.event o.usage hphase
    simp only [Host.noted, hnumber]
    refine ⟨actions ++ [.enqueue o.agent o.session o.event o.usage], ?_, ?_, ?_, ?_⟩
    · simp [hstop]
    · rw [Outbox.after_append, ← houtbox]
      simp only [Outbox.after_cons, Outbox.after_nil, Outbox.act, hnumber]
      rfl
    · rw [List.filterMap_append, hoffers]
      simp [hoffer, Action.offer?, RunState.count]
    · simp only [RunState.count, hcount]

end Supplied

/-! ## Worlds -/

/-- The state of a run with notes, and the state of the same run without: all else is the same, and the outbox has been offered
    what the notes say. -/
structure Noting (h : Host τ η κ δ) (sink : δ) (s : RunState (τ × List Heard) κ δ)
    (s' : RunState τ κ δ) : Prop where
  forget : s.forget = s'
  supplied : Supplied h.courier sink s

namespace Host

variable {h : Host τ η κ δ} {sink : δ}

/-- The outbox of a run that takes notes is the outbox of the run without. -/
theorem tied (h : Host τ η κ δ) (sink : δ) : Tied h.noted h (Noting h sink) where
  clock := by
    rintro s _ ⟨rfl, _⟩
    rfl
  catchUp := by
    rintro now s _ ⟨rfl, hs⟩
    exact ⟨rfl, hs.course (Outbox.advance_course now)⟩
  giveWay := by
    rintro standing s _ ⟨rfl, hs⟩
    unfold giveWay
    split
    · exact ⟨rfl, hs.course Outbox.linger_course⟩
    · exact ⟨rfl, hs⟩

/-! ## Scripts -/

/-- A wait that the notes have no part in. -/
theorem pause_noting {ms : RunState (τ × List Heard) κ δ → Nat} {ms' : RunState τ κ δ → Nat}
    (hms : ∀ s, ms s = ms' s.forget) :
    Script.Alike (Noting h sink) Eq (Script.pause ms) (Script.pause ms') := by
  refine .pause ?_
  rintro s _ ⟨rfl, _⟩
  exact hms s

/-- A step that has to do with neither the notes nor the outbox, and gives a value. -/
theorem act_noting {α : Type}
    {f : RunState (τ × List Heard) κ δ → α × RunState (τ × List Heard) κ δ}
    {f' : RunState τ κ δ → α × RunState τ κ δ}
    (hf : ∀ s, (f s).1 = (f' s.forget).1 ∧ (f s).2.forget = (f' s.forget).2)
    (hsupplied : ∀ s, Supplied h.courier sink s → Supplied h.courier sink (f s).2) :
    Script.Alike (Noting h sink) Eq (Script.act f) (Script.act f') := by
  refine .act ?_
  rintro s _ ⟨rfl, hs⟩
  obtain ⟨hvalue, hworld⟩ := hf s
  exact ⟨hvalue, hworld, hsupplied s hs⟩

/-- A change that has to do with neither the notes nor the outbox. -/
theorem update_noting {f : RunState (τ × List Heard) κ δ → RunState (τ × List Heard) κ δ}
    {f' : RunState τ κ δ → RunState τ κ δ} (hf : ∀ s, (f s).forget = f' s.forget)
    (hsupplied : ∀ s, Supplied h.courier sink s → Supplied h.courier sink (f s)) :
    Script.Alike (Noting h sink) Eq (Script.update f) (Script.update f') :=
  act_noting (fun s => ⟨rfl, hf s⟩) hsupplied

theorem storePut_noting (key : String) (bytes : List UInt8) (mime : String) :
    Script.Alike (Noting h sink) Eq (h.noted.storePut key bytes mime)
      (h.storePut key bytes mime) := by
  refine .bind (pause_noting fun _ => rfl) fun _ _ _ => ?_
  refine .bind (act_noting (fun _ => ⟨rfl, rfl⟩) fun _ hs => hs) ?_
  rintro receipt _ rfl
  exact .ofExcept (.of_eq rfl)

theorem storeGet_noting (key : String) :
    Script.Alike (Noting h sink) Eq (h.noted.storeGet key) (h.storeGet key) := by
  refine .bind (pause_noting fun _ => rfl) fun _ _ _ => ?_
  refine .bind (act_noting (fun _ => ⟨rfl, rfl⟩) fun _ hs => hs) ?_
  rintro bytes _ rfl
  exact .ofExcept (.of_eq rfl)

/-- A call to the backend, given how it answers with notes and without. -/
theorem perform_noting {α α' : Type} {V : α → α' → Prop} {call : Backend.Call (η × Origin)}
    {f : τ × List Heard → α × (τ × List Heard)} {f' : τ → α' × τ}
    (hf : ∀ s, V (f s).1 (f' s.1).1 ∧ (f s).2 = ((f' s.1).2, s.2)) :
    Script.Alike (Noting h sink) V (h.noted.perform call f) (h.perform call.plain f') := by
  refine .bind (pause_noting fun _ => rfl) fun _ _ _ => .act ?_
  rintro s _ ⟨rfl, hs⟩
  obtain ⟨hvalue, hbackend⟩ := hf s.backend
  refine ⟨hvalue, ?_, ?_⟩
  · simp only [RunState.forget, hbackend]
  · simp only [hbackend]
    exact hs

/-- What is left after a turn that was noted: the hearing knows of it. -/
structure Took (opened : Option String) (before : List Turn)
    (r : Hearing × Turn × (τ × List Heard)) (r' : Hearing × Turn × τ) : Prop where
  hearing : r.1 = r'.1
  turn : r.2.1 = r'.2.1
  backend : r.2.2.1 = r'.2.2
  knows : Hearing.Knows opened (before ++ [r'.2.1]) r'.1

/-- Turns are noted in the very step in which they are taken in. -/
theorem takeTurn_noting (o : Origin) {before : List Turn} {l : Hearing}
    (hk : Hearing.Knows o.opened before l) (take : τ → Except Failure Turn × τ)
    {s : RunState (τ × List Heard) κ δ} {s' : RunState τ κ δ} (hs : Noting h sink s s') :
    Agree (Took o.opened before) (h.noted.takeTurn o.agent (o.note before take) l s).1
        (h.takeTurn o.agent take l s').1 ∧
      Noting h sink (h.noted.takeTurn o.agent (o.note before take) l s).2
        (h.takeTurn o.agent take l s').2 := by
  obtain ⟨rfl, hs⟩ := hs
  have hbackend : s.forget.backend = s.backend.1 := rfl
  unfold takeTurn Origin.note
  rw [hbackend]
  rcases take s.backend.1 with ⟨e | turn, t⟩
  · exact ⟨.error e, rfl, hs⟩
  · let x : Heard := ⟨o.agent, o.opened, before, turn⟩
    let noted : RunState (τ × List Heard) κ δ :=
      { s with backend := (t, s.backend.2 ++ [x]) }
    obtain ⟨hfst, hsnd⟩ := hear_forget h o.agent turn l noted
    have hknows := hear_knows (x := x) (s := noted.forget) h hk
    have hsupplied := hs.hear (x := x) h hk t
    exact ⟨.ok ⟨hfst, rfl, rfl, hknows⟩, hsnd, hsupplied⟩

/-- An answer is read alike with notes and without, to its end or its first failure. -/
theorem listen_noting (o : Origin) (stream : TurnStream τ) :
    ∀ {before : List Turn} {l : Hearing}, Hearing.Knows o.opened before l →
      Script.Alike (Noting h sink) Eq (h.noted.listen o.agent (stream.noted o before) l)
        (h.listen o.agent stream l) := by
  induction stream with
  | finished leave =>
    intro before l _
    refine .bind (update_noting (fun _ => rfl) fun _ hs => hs) fun _ _ _ => .pure rfl
  | next ms take rest ih =>
    intro before l hk
    refine .bind (pause_noting fun _ => rfl) fun _ _ _ => ?_
    refine .bind (V := Agree (Took o.opened before)) (.act ?_) fun r r' hr => ?_
    · exact fun s s' hs => takeTurn_noting o hk take hs
    · refine .bind (V := Took o.opened before) (.ofExcept hr) ?_
      rintro ⟨l, t, b⟩ ⟨l', t', b'⟩ ⟨rfl, rfl, rfl, hknows⟩
      exact ih t b.1 hknows

/-- A session that is known with its origin. -/
def Known (agent : String) (opened : Option String) (session : η × Origin) (session' : η) : Prop :=
  session = (session', ⟨agent, opened⟩)

theorem readAnswer_noting (o : Origin) (session : η) :
    Script.Alike (Noting h sink) (WithSession Eq (Known o.agent o.opened))
      (h.noted.readAnswer o.agent o.opened (session, o))
      (h.readAnswer o.agent o.opened session) := by
  refine .bind
    (V := WithSession (Agree fun stream stream' => stream = stream'.noted o []) (Known o.agent o.opened))
    (.act ?_) ?_
  · rintro s _ ⟨rfl, hs⟩
    have hstream : Agree (fun stream stream' => stream = stream'.noted o [])
        ((h.backend.stream session s.backend.1).1.map fun stream => stream.noted o [])
        (h.backend.stream session s.backend.1).1 :=
      .of_map (f := TurnStream.noted o []) (fun _ => rfl) _
    exact ⟨⟨hstream, rfl⟩, rfl, hs⟩
  · rintro ⟨stream, own⟩ ⟨stream', session'⟩ ⟨hstream, hown⟩
    simp only at hstream hown
    cases hown
    cases hstream with
    | error e => exact .pure ⟨rfl, rfl⟩
    | ok hstream =>
      rw [hstream]
      refine .bind (V := Agree Eq) (.hold (listen_noting o _ (Hearing.knows_empty o.opened))) ?_
      intro r r' hr
      exact .pure ⟨hr.eq, rfl⟩

/-- A run takes notes of what the run without does. -/
theorem bridge_noting (h : Host τ η κ δ) (sink : δ) : Bridge h.noted h (Noting h sink) Known where
  context := rfl
  scope := by
    rintro s _ ⟨rfl, _⟩
    rfl
  sessions := by
    rintro s _ ⟨rfl, _⟩
    rfl
  written := by
    rintro s _ ⟨rfl, _⟩
    rfl
  time := by
    rintro s _ ⟨rfl, _⟩
    rfl
  deed := by
    rintro d s _ ⟨rfl, hs⟩
    cases d <;> exact ⟨rfl, hs⟩
  put := storePut_noting
  get := storeGet_noting
  create args := perform_noting fun s =>
    ⟨.of_map (fun session => ⟨rfl, rfl⟩) (h.backend.create args s.1).1, rfl⟩
  resume args id := perform_noting fun s =>
    ⟨.of_map (fun session => ⟨rfl, rfl⟩) (h.backend.resume args id s.1).1, rfl⟩
  send := by
    rintro agent id prompt _ session rfl
    exact perform_noting fun s => ⟨⟨rfl, rfl⟩, rfl⟩
  answer := by
    rintro agent id _ session rfl
    exact readAnswer_noting ⟨agent, id⟩ session
  close := by
    rintro agent id _ session rfl
    exact perform_noting fun _ => ⟨rfl, rfl⟩

/-- A program runs alike with notes and without. -/
theorem script_noting (p : Program) (inputs : KeyMap String) :
    Script.Alike (Noting h sink) Eq (h.noted.script p inputs) (h.script p inputs) :=
  (bridge_noting h sink).script p inputs

end Host

end Playbook
