import Playbook.Backend.Rehearsal
import Playbook.Proofs.Run.Books
import Playbook.Proofs.Run.Parallel
import Playbook.Proofs.Run.Stakes

/-!
# `Proofs.Run.Timing` — branches whose results do not depend on time

Branches that go on side by side write to one scope and add to one usage, in an order that is decided by how long their calls take. If
what a session does depends on nothing but its title, and each branch binds a name of its own, then that order decides nothing else: each
branch owes a certain usage and a certain binding, and when all have ended everything owed has been paid, in one order or another.

## Contents
- **Roles.** `Role`, what sessions with a title do; `Backend.TrueTo`, `ContentStore.Taking`.
- **Scopes.** `Scope.without`, and what bindings in any order come to.
- **Dues.** `Dues`, what branches owe; `Paying` says that what has been paid and what is owed make up a total.
- **Calls.** `paying_listen`, `paying_converse`, `paying_callSession`.
- **Branches.** `paying_bindSession`, `paying_parallel`.
- **Blocks.** `Settles`, what branches leave behind; `parallel_settled`, and `parallel_timeless` for two hosts.
- **Rehearsals.** `Backend.rehearsal_trueTo`: the time that parts take does not matter.
-/

namespace Playbook

variable {τ η κ δ τ' η' κ' δ' α : Type}

/-! ## Roles

What time may change is left open here: when a turn comes, which id a session gets, and where the store keeps a text. -/

namespace Event

/-- An event that does not say which session it is of. -/
def anonymous : Event → Event
  | sessionStarted _ => sessionStarted ""
  | sessionResumed _ => sessionResumed ""
  | e => e

end Event

/-- A turn that does not say which session it is of. -/
def Turn.anonymous (t : Turn) : Turn :=
  { t with sessionId := none, event := t.event.map Event.anonymous }

/-- A tally does not depend on which session its turns are of. -/
theorem Tally.withTurn_anonymous (tally : Tally) (t : Turn) : tally.withTurn t.anonymous = tally.withTurn t := by
  unfold withTurn Turn.anonymous
  cases t.event with
  | none => rfl
  | some e => cases e <;> rfl

/-- What sessions do, whoever holds them and whenever. -/
structure Role where
  /-- Whether they are opened. -/
  opens : Bool
  /-- Whether they take their prompt. -/
  listens : Bool
  /-- Whether they give an answer to their prompt. -/
  answers : Bool
  /-- The turns of the answer, which do not say of which session they are. -/
  turns : List Turn
  /-- Whether the answer comes to its end. -/
  ends : Bool

/-- What a session adds up to, if all goes well. -/
def Role.tally? (r : Role) : Option Tally :=
  if r.opens && r.listens && r.answers && r.ends then some (r.turns.foldl .withTurn .empty) else none

/-- A stream that gives certain turns, at whatever time, and then ends or breaks off. -/
inductive TurnStream.Gives (valid : τ → Prop) : List Turn → Bool → TurnStream τ → Prop where
  | finished {leave : τ → τ} (hleave : ∀ b, valid b → valid (leave b)) : Gives valid [] true (.finished leave)
  | broken {ms : τ → Nat} {take : τ → Except Failure Turn × τ} {rest : Turn → τ → TurnStream τ}
      (htake : ∀ b, valid b → (∃ e, (take b).1 = .error e) ∧ valid (take b).2) : Gives valid [] false (.next ms take rest)
  | next {ms : τ → Nat} {take : τ → Except Failure Turn × τ} {rest : Turn → τ → TurnStream τ} {t : Turn} {turns : List Turn}
      {ends : Bool} (htake : ∀ b, valid b → (∃ u, (take b).1 = .ok u ∧ u.anonymous = t) ∧ valid (take b).2)
      (hrest : ∀ u b, u.anonymous = t → valid b → Gives valid turns ends (rest u b)) :
      Gives valid (t :: turns) ends (.next ms take rest)

/-- A backend whose sessions do what their titles say: neither the time, nor the prompt, nor who else holds a session makes a
    difference, but for the ids of sessions. -/
structure Backend.TrueTo (b : Backend τ η) (role : String → Role) where
  /-- The states in which the backend does what the titles say. -/
  valid : τ → Prop
  /-- The sessions that were opened with a title. -/
  titled : String → η → Prop
  create : ∀ args s, valid s → ((b.create args s).1.isOk = (role args.title).opens ∧
    ∀ x, (b.create args s).1 = .ok x → titled args.title x) ∧ valid (b.create args s).2
  send : ∀ prompt title x s, titled title x → valid s → ((b.send prompt x s).1.isOk = (role title).listens ∧
    titled title (b.send prompt x s).2.1) ∧ valid (b.send prompt x s).2.2
  stream : ∀ title x s, titled title x → valid s → ((b.stream x s).1.isOk = (role title).answers ∧
    ∀ stream, (b.stream x s).1 = .ok stream → stream.Gives valid (role title).turns (role title).ends) ∧ valid (b.stream x s).2.2
  close : ∀ x s, valid s → valid (b.close x s).2.2

/-- A store that takes everything, and gives receipts of which something is known. -/
structure ContentStore.Taking (store : ContentStore κ) (honest : List UInt8 → String → StoredContent → Prop) where
  /-- The states in which it does. -/
  valid : κ → Prop
  put : ∀ key bytes mime k, valid k →
    (∃ receipt, (store.put key bytes mime k).1 = .ok receipt ∧ honest bytes mime receipt) ∧ valid (store.put key bytes mime k).2

/-- What a call gives if sessions have roles. -/
def Program.given (p : Program) (role : String → Role) (call : SessionCall) : Option Tally :=
  match p.agentFor call with
  | .ok _ => (role call.title).tally?
  | .error _ => none

/-! ## Scopes -/

namespace Scope

/-- A name that is not among those that are bound keeps its binding. -/
theorem bound?_bindAll_of_not_mem {ws : List (Binding × String)} {name : String} (h : name ∉ ws.map (·.1.name)) (s : Scope) :
    (s.bindAll ws).bound? name = s.bound? name := by
  induction ws generalizing s with
  | nil => rfl
  | cons w ws ih =>
    rw [List.map_cons, List.mem_cons, not_or] at h
    exact (ih h.2 (s.bind w.1 w.2)).trans (bound?_bind_of_ne s (Ne.symm h.1) w.2)

/-- If no name is bound twice, each has the binding that is made for it, whatever the order. -/
theorem bound?_bindAll_of_mem {ws : List (Binding × String)} (hnames : (ws.map (·.1.name)).Nodup) {w : Binding × String}
    (hw : w ∈ ws) (s : Scope) : (s.bindAll ws).bound? w.1.name = some w := by
  induction ws generalizing s with
  | nil => cases hw
  | cons v ws ih =>
    rw [List.map_cons, List.nodup_cons] at hnames
    rcases List.mem_cons.1 hw with rfl | hw
    · exact (bound?_bindAll_of_not_mem hnames.1 _).trans (bound?_bind_self s w.1 w.2)
    · exact ih hnames.2 hw (s.bind v.1 v.2)

/-- What is bound under other names than some. -/
def without (s : Scope) (names : List String) : List (Binding × String) :=
  s.entries.filter fun e => !names.contains e.1.name

/-- To bind names leaves what is bound under others, in its order. -/
theorem without_bindAll {names : List String} {ws : List (Binding × String)} (h : ∀ w ∈ ws, w.1.name ∈ names) (s : Scope) :
    (s.bindAll ws).without names = s.without names := by
  induction ws generalizing s with
  | nil => rfl
  | cons w ws ih =>
    have hbind : (s.bind w.1 w.2).without names = s.without names := by
      have hw := h w List.mem_cons_self
      unfold without
      rw [entries_bind, List.filter_append, List.filter_filter]
      simp only [hw, List.contains_eq_mem, decide_true, List.filter_cons, Bool.not_true, Bool.false_eq_true, if_false, List.filter_nil,
        List.append_nil]
      -- The old binding of the name is taken away, but it was not looked at.
      refine List.filter_congr fun e _ => ?_
      by_cases heq : e.1.name = w.1.name
      · simp [heq, hw]
      · simp [heq]
    exact (ih (fun v hv => h v (List.mem_cons_of_mem w hv)) _).trans hbind

end Scope

/-! ## Dues

The order in which branches pay is not known, so what they owe is kept in multisets. Each binding that is made takes the old one of its
name away, which is no loss as long as no other branch has made it. -/

/-- What is owed: usage that is to be added up, and texts that are to be bound to names. -/
abbrev Dues :=
  Multiset Usage × Multiset (String × String)

/-- The usage that a call owes. -/
def usageDue (given : Option Tally) : Dues :=
  (given.elim 0 fun tally => {tally.usage}, 0)

/-- The text that a branch owes to a name. -/
def textDue (name : String) (given : Option Tally) : Dues :=
  (0, given.elim 0 fun tally => {(name, tally.finalResult)})

section

variable {h : Host τ η κ δ} {role : String → Role} {honest : List UInt8 → String → StoredContent → Prop}

/-- A binding of a text, with a receipt of which something is known. -/
def Binding.Honest (honest : List UInt8 → String → StoredContent → Prop) (w : Binding × String) : Prop :=
  ∃ receipt, honest (Text.Utf8.encode w.2.toList) "text/plain" receipt ∧ w.1 = Host.bindingOf w.1.name .assigned w.2 receipt

/-- What has been paid since the start and what is owed make up a total. -/
structure Paying (hb : h.backend.TrueTo role) (hk : h.store.Taking honest) (start : RunState τ κ δ) (total a : Dues)
    (s : RunState τ κ δ) : Prop where
  backend : hb.valid s.backend
  store : hk.valid s.store
  paid : ∃ us : List Usage, s.usage = us.foldl Usage.add start.usage ∧ (us : Multiset Usage) + a.1 = total.1
  bound : ∃ ws : List (Binding × String), s.scope = start.scope.bindAll ws ∧ (∀ w ∈ ws, Binding.Honest honest w) ∧
    ((ws.map fun w => (w.1.name, w.2) : List (String × String)) : Multiset (String × String)) + a.2 = total.2

namespace Paying

variable {hb : h.backend.TrueTo role} {hk : h.store.Taking honest} {start s : RunState τ κ δ} {total a : Dues}

/-- Sessions that are remembered, counters and the outbox do not matter. -/
theorem aside (hs : Paying hb hk start total a s) (sessions : KeyMap String) (counters : Counters) (outbox : Outbox δ) :
    Paying hb hk start total a { s with sessions, counters, outbox } :=
  ⟨hs.backend, hs.store, hs.paid, hs.bound⟩

theorem withBackend (hs : Paying hb hk start total a s) {b : τ} (hvalid : hb.valid b) :
    Paying hb hk start total a { s with backend := b } :=
  ⟨hvalid, hs.store, hs.paid, hs.bound⟩

theorem withStore (hs : Paying hb hk start total a s) {k : κ} (hvalid : hk.valid k) :
    Paying hb hk start total a { s with store := k } :=
  ⟨hs.backend, hvalid, hs.paid, hs.bound⟩

/-- Usage that is owed is paid. -/
theorem settle {u : Usage} (hs : Paying hb hk start total (({u}, 0) + a) s) :
    Paying hb hk start total a { s with usage := s.usage.add u } := by
  obtain ⟨us, husage, hpaid⟩ := hs.paid
  obtain ⟨ws, hscope, hhonest, hbound⟩ := hs.bound
  refine ⟨hs.backend, hs.store, ⟨us ++ [u], Usage.settle_owed husage hpaid⟩, ws, hscope, hhonest, ?_⟩
  rwa [Prod.snd_add, zero_add] at hbound

/-- A text that is owed is bound. -/
theorem bind {name text : String} {receipt : StoredContent} (hs : Paying hb hk start total ((0, {(name, text)}) + a) s)
    (hreceipt : honest (Text.Utf8.encode text.toList) "text/plain" receipt) :
    Paying hb hk start total a { s with scope := s.scope.bind (Host.bindingOf name .assigned text receipt) text } := by
  obtain ⟨us, husage, hpaid⟩ := hs.paid
  obtain ⟨ws, hscope, hhonest, hbound⟩ := hs.bound
  refine ⟨hs.backend, hs.store, ⟨us, husage, ?_⟩, ws ++ [(Host.bindingOf name .assigned text receipt, text)], ?_, ?_, ?_⟩
  · rwa [Prod.fst_add, zero_add] at hpaid
  · rw [Scope.bindAll_concat, ← hscope]
  · intro w hw
    rcases List.mem_append.1 hw with hw | hw
    · exact hhonest w hw
    · rw [List.mem_singleton.1 hw]
      exact ⟨receipt, hreceipt, rfl⟩
  · rw [List.map_append, ← Multiset.coe_add, List.map_singleton, Multiset.coe_singleton, add_assoc]
    exact hbound

end Paying

/-! ## Calls -/

namespace Host

variable {hb : h.backend.TrueTo role} {hk : h.store.Taking honest} {start : RunState τ κ δ} {total a : Dues}

/-- A call to the backend neither pays anything nor owes it. -/
theorem paying_perform {c : Backend.Call η} {f : τ → α × τ} {post : α → Prop}
    (hf : ∀ b, hb.valid b → post (f b).1 ∧ hb.valid (f b).2) :
    Script.Stakes (Paying hb hk start total) a (h.perform c f) fun r b => ∃ x, r = .ok x ∧ post x ∧ b = a := by
  refine .afterPause (.act (fun _ => a) fun s rest hs => ?_)
  obtain ⟨hpost, hvalid⟩ := hf s.backend hs.backend
  exact ⟨hs.withBackend hvalid, _, rfl, hpost, rfl⟩

theorem paying_storePut (key : String) (bytes : List UInt8) (mime : String) :
    Script.Stakes (Paying hb hk start total) a (h.storePut key bytes mime)
      fun r b => ∃ receipt, r = .ok receipt ∧ honest bytes mime receipt ∧ b = a := by
  refine .afterPause (.afterAct (fun _ => a) fun s rest hs => ?_)
  obtain ⟨⟨receipt, hput, hhonest⟩, hvalid⟩ := hk.put key bytes mime s.store hs.store
  refine ⟨hs.withStore hvalid, .ofExcept ?_⟩
  exact ⟨receipt, hput, hhonest, rfl⟩

/-- A branch binds the text that it owes to its name. -/
theorem paying_writeBinding (name text : String) :
    Script.Stakes (Paying hb hk start total) (0, {(name, text)}) (h.writeBinding name .assigned text)
      fun r b => r = .ok () ∧ b = 0 := by
  refine .afterAct (fun _ => (0, {(name, text)})) fun s rest hs => ⟨hs.aside .., ?_⟩
  refine .bindOk (paying_storePut _ _ _) fun receipt b hb => ?_
  obtain ⟨hreceipt, rfl⟩ := hb
  exact .update 0 (fun s rest hs => by rw [zero_add]; exact hs.bind hreceipt) ⟨rfl, rfl⟩

theorem paying_recordHeard (agent : Agent) (l : Hearing) (title : String) :
    Script.Stakes (Paying hb hk start total) a (h.recordHeard agent l title) fun r b => ∃ x, r = .ok x ∧ b = a := by
  unfold recordHeard
  split
  · exact .afterObserve fun s rest hs => .bindOk (paying_storePut _ _ _) fun receipt b hb => .pure ⟨(), rfl, hb.2⟩
  · exact .pure ⟨(), rfl, rfl⟩

/-- An answer is read as its role says. -/
theorem paying_listen (agent : String) {turns : List Turn} {ends : Bool} {stream : TurnStream τ}
    (hstream : stream.Gives hb.valid turns ends) (l : Hearing) :
    Script.Stakes (Paying hb hk start total) a (h.listen agent stream l) fun r b =>
      (r.map fun l => l.tally).toOption = (if ends then some (turns.foldl .withTurn l.tally) else none) ∧ b = a := by
  induction hstream generalizing l with
  | finished hleave =>
    exact .afterUpdate a (fun s rest hs => hs.withBackend (hleave _ hs.backend)) (.pure ⟨rfl, rfl⟩)
  | @broken ms take after htake =>
    refine .afterPause (.afterAct (fun _ => a) fun s rest hs => ?_)
    obtain ⟨⟨e, he⟩, hvalid⟩ := htake s.backend hs.backend
    unfold takeTurn
    cases hr : take s.backend with
    | mk r b =>
      rw [hr] at he hvalid
      simp only at he hvalid ⊢
      subst he
      exact ⟨hs.withBackend hvalid, .afterError ⟨rfl, rfl⟩⟩
  | @next ms take after t turns ends htake _ ih =>
    refine .afterPause (.afterAct (fun _ => a) fun s rest hs => ?_)
    obtain ⟨⟨u, hu, hsame⟩, hvalid⟩ := htake s.backend hs.backend
    unfold takeTurn
    cases hr : take s.backend with
    | mk r b =>
      rw [hr] at hu hvalid
      simp only at hu hvalid ⊢
      subst hu
      obtain ⟨sessions, counters, outbox, hheard⟩ := h.hear_touches agent u
      refine ⟨by rw [hheard]; exact (hs.withBackend hvalid).aside .., .afterOk ?_⟩
      -- The turn may carry another id than the role's, but it adds the same to the tally.
      have hlisten := ih u b hsame hvalid (h.hear agent u l { s with backend := b }).1
      rw [hear_fst] at hlisten
      rw [List.foldl_cons, ← hsame, Tally.withTurn_anonymous, hear_fst]
      exact hlisten

/-- What has been heard of an answer, if it came to its end. -/
def answered (answer : Except Failure Hearing) : Option Tally :=
  (answer.map fun l => l.tally).toOption

theorem paying_readAnswer (agent title : String) (id : Option String) {x : η} (hx : hb.titled title x) :
    Script.Stakes (Paying hb hk start total) a (h.readAnswer agent id x) fun r b => ∃ y, r = .ok y ∧
      answered y.1 = (if (role title).answers && (role title).ends then some ((role title).turns.foldl .withTurn .empty) else none) ∧
      b = a := by
  refine .afterAct (fun _ => a) fun s rest hs => ?_
  obtain ⟨⟨hanswers, hgives⟩, hvalid⟩ := hb.stream title x s.backend hx hs.backend
  refine ⟨hs.withBackend hvalid, ?_⟩
  cases hr : (h.backend.stream x s.backend).1 with
  | error e =>
    rw [hr] at hanswers
    simp only [hr, ← hanswers]
    exact .pure ⟨_, rfl, rfl, rfl⟩
  | ok stream =>
    rw [hr] at hanswers
    simp only [hr, ← hanswers]
    exact .bindOk (paying_listen agent (hgives stream hr) ⟨.empty, id⟩).hold fun r b hb => .pure ⟨_, rfl, hb.1, hb.2⟩

theorem paying_converse (agent title prompt : String) (id : Option String) {x : η} (hx : hb.titled title x) :
    Script.Stakes (Paying hb hk start total) a (h.converse agent prompt id x) fun r b => ∃ y, r = .ok y ∧
      answered y.1 = (if (role title).listens && (role title).answers && (role title).ends then
        some ((role title).turns.foldl .withTurn .empty) else none) ∧ b = a := by
  have hkeep : Script.Stakes (Paying hb hk start total) a (keepOpened agent id) fun r b => ∃ y, r = .ok y ∧ b = a := by
    cases id with
    | none => exact .pure ⟨(), rfl, rfl⟩
    | some id => exact .update a (fun s rest hs => hs.aside ..) ⟨(), rfl, rfl⟩
  refine .bindOk hkeep fun _ b hkept => ?_
  subst hkept
  have hsend : ∀ s, hb.valid s → ((h.backend.send prompt x s).1.isOk = (role title).listens ∧
      hb.titled title (h.backend.send prompt x s).2.1) ∧ hb.valid (h.backend.send prompt x s).2.2 :=
    fun s hs => hb.send prompt title x s hx hs
  have hperform : Script.Stakes (Paying hb hk start total) b
      (h.perform (.send x prompt) fun backend =>
        (((h.backend.send prompt x backend).1, (h.backend.send prompt x backend).2.1), (h.backend.send prompt x backend).2.2))
      fun r a => ∃ y, r = .ok y ∧ (y.1.isOk = (role title).listens ∧ hb.titled title y.2) ∧ a = b :=
    paying_perform hsend
  refine .bindOk hperform ?_
  rintro ⟨sent, y⟩ b ⟨⟨hlistens, hy⟩, rfl⟩
  simp only at hlistens hy
  rw [← hlistens]
  cases sent with
  | error e => exact .pure ⟨_, rfl, rfl, rfl⟩
  | ok _ =>
    simp only [Except.isOk, Except.toBool, Bool.true_and]
    exact paying_readAnswer agent title id hy

theorem paying_openSession (args : SessionArgs) :
    Script.Stakes (Paying hb hk start total) a (h.openSession args none) fun r b =>
      (r.isOk = (role args.title).opens ∧ ∀ x, r = .ok x → hb.titled args.title x) ∧ b = a := by
  refine .afterUpdate a (fun s rest hs => hs.aside ..) ?_
  exact .bindOk (paying_perform (hb.create args)) fun r b hb => .ofExcept hb

/-- A call gives what the role of its title says, and adds up the usage that it owes. -/
theorem paying_callSession (p : Program) (call : SessionCall) :
    Script.Stakes (Paying hb hk start total) (usageDue (p.given role call)) (h.callSession p call false)
      fun r b => r.toOption = (p.given role call).map (·.finalResult) ∧ b = 0 := by
  unfold callSession
  cases hagent : p.agentFor call with
  | error e =>
    have hgiven : p.given role call = none := by rw [Program.given, hagent]
    rw [hgiven]
    exact .afterError ⟨rfl, rfl⟩
  | ok agent =>
    have hgiven : p.given role call = (role call.title).tally? := by rw [Program.given, hagent]
    rw [hgiven]
    have hprior : h.priorSession agent false = Script.ofExcept (.ok none) := by
      simp only [priorSession, Bool.false_and, Bool.false_eq_true, if_false]
      rfl
    refine .afterOk ?_
    rw [hprior]
    -- The prompt depends on which branches have ended already, but what the session does does not depend on the prompt.
    refine .afterOk (.afterObserve fun s rest _ => .bindOk (paying_openSession _).hold fun opened b hopened => ?_)
    obtain ⟨⟨hopens, htitled⟩, rfl⟩ := hopened
    cases opened with
    | error e =>
      have hnone : (role call.title).tally? = none := by simp [Role.tally?, ← hopens, Except.isOk, Except.toBool]
      rw [hnone]
      exact .afterError ⟨rfl, rfl⟩
    | ok x =>
      refine .afterOk (.bindOk (paying_converse _ call.title _ _ (htitled x rfl)) ?_)
      rintro ⟨answer, y⟩ b ⟨hanswered, hsame⟩
      have htally : (role call.title).tally? = answered answer := by
        simp only [hanswered, Role.tally?, ← hopens]
        rfl
      have hclose : ∀ s, hb.valid s → True ∧ hb.valid (h.backend.close y s).2.2 :=
        fun s hvalid => ⟨trivial, hb.close y s hvalid⟩
      have hperform : Script.Stakes (Paying hb hk start total) b (h.closeSession y) fun r a => ∃ u, r = .ok u ∧ True ∧ a = b :=
        paying_perform hclose
      refine .bindOk hperform fun _ a hclosed => ?_
      rw [hclosed.2, hsame, htally]
      cases answer with
      | error e => exact .afterError ⟨rfl, rfl⟩
      | ok heard =>
        refine .afterOk (.afterUpdate 0 (fun s rest hs => ?_) ?_)
        · rw [zero_add]
          exact hs.settle
        · exact .bindOk (paying_recordHeard _ _ _) fun _ b hrecorded => .pure ⟨rfl, hrecorded⟩

/-! ## Branches -/

/-- What a branch owes that binds its name to the result of a session. -/
def branchDue (p : Program) (role : String → Role) (c : String × SessionCall) : Dues :=
  usageDue (p.given role c.2) + textDue c.1 (p.given role c.2)

/-- A branch goes well if its session does, and when it ends it owes nothing. -/
theorem paying_bindSession (p : Program) (name : String) (call : SessionCall) :
    Script.Stakes (Paying hb hk start total) (branchDue p role (name, call)) (h.bindSession p name call false)
      fun r b => b = 0 ∧ (r = .ok () ↔ (p.given role call).isSome) := by
  refine .afterUpdate _ (fun s rest hs => hs.aside ..) ?_
  refine .bind ((paying_callSession p call).beside _) (fun text b hb => ?_) fun e b hb => ?_
  · obtain ⟨_, ⟨hgiven, rfl⟩, rfl⟩ := hb
    obtain ⟨tally, htally, rfl⟩ := Option.map_eq_some_iff.1 hgiven.symm
    simp only [htally, zero_add]
    exact (paying_writeBinding name tally.finalResult).mono fun r b hr => ⟨hr.2, iff_of_true hr.1 rfl⟩
  · obtain ⟨_, ⟨hgiven, rfl⟩, rfl⟩ := hb
    have hnone : p.given role call = none := Option.map_eq_none_iff.1 hgiven.symm
    simp only [hnone]
    exact ⟨rfl, iff_of_false nofun nofun⟩

/-- Branches that each bind a name to the result of a session. -/
def naming (calls : List (String × SessionCall)) : List Branch :=
  calls.map fun c => .mk (some c.1) (.session c.2)

theorem execBranches_naming (h : Host τ η κ δ) (p : Program) (calls : List (String × SessionCall)) :
    h.execBranches p (naming calls) = calls.map fun c => h.bindSession p c.1 c.2 false := by
  induction calls with
  | nil => rfl
  | cons c calls ih => exact congrArg (h.bindSession p c.1 c.2 false :: ·) ih

/-- The usage that branches add. -/
def usages (p : Program) (role : String → Role) (calls : List (String × SessionCall)) : List Usage :=
  calls.filterMap fun c => (p.given role c.2).map (·.usage)

/-- The texts that branches bind, with their names. -/
def texts (p : Program) (role : String → Role) (calls : List (String × SessionCall)) : List (String × String) :=
  calls.filterMap fun c => (p.given role c.2).map fun tally => (c.1, tally.finalResult)

/-- What branches owe together. -/
def owed (p : Program) (role : String → Role) (calls : List (String × SessionCall)) : Dues :=
  (usages p role calls, texts p role calls)

theorem sum_branchDue (p : Program) (role : String → Role) (calls : List (String × SessionCall)) :
    ∑ i ∈ Finset.range calls.length, (calls[i]?).elim 0 (branchDue p role) = owed p role calls := by
  induction calls with
  | nil => rfl
  | cons c calls ih =>
    rw [List.length_cons, Finset.sum_range_succ']
    simp only [List.getElem?_cons_succ, List.getElem?_cons_zero, Option.elim_some]
    rw [ih, branchDue, owed, owed, usages, usages, texts, texts, List.filterMap_cons, List.filterMap_cons]
    cases p.given role c.2 with
    | none => exact add_zero _
    | some tally =>
      have hadd : ∀ {β : Type} (x : β) (xs : List β), (xs : Multiset β) + {x} = (x :: xs : List β) := fun x xs => by
        rw [add_comm, Multiset.singleton_add, Multiset.cons_coe]
      refine Prod.ext ?_ ?_
      · simp [usageDue, textDue, hadd]
      · simp [usageDue, textDue, hadd]

/-- All outcomes are good if those of all branches are, in whatever order they come. -/
theorem outcomes_ok_iff {β : Type} {good : β → Prop} {bs : List β} {rs : List (Nat × Outcome)}
    (hperm : (rs.map Prod.fst).Perm (List.range bs.length)) (hends : ∀ x ∈ rs, ∀ b, bs[x.1]? = some b → (x.2 = .ok () ↔ good b)) :
    (∀ r ∈ rs.map Prod.snd, r = .ok ()) ↔ ∀ b ∈ bs, good b := by
  constructor
  · intro hall b hb
    obtain ⟨i, hi⟩ := List.getElem?_of_mem hb
    have hmem : i ∈ rs.map Prod.fst := hperm.mem_iff.2 (List.mem_range.2 (List.getElem?_eq_some_iff.1 hi).1)
    obtain ⟨x, hx, rfl⟩ := List.mem_map.1 hmem
    exact (hends x hx b hi).1 (hall x.2 (List.mem_map_of_mem hx))
  · intro hall r hr
    obtain ⟨x, hx, rfl⟩ := List.mem_map.1 hr
    have hlt : x.1 < bs.length := List.mem_range.1 (hperm.mem_iff.1 (List.mem_map_of_mem hx))
    exact (hends x hx _ (List.getElem?_eq_getElem hlt)).2 (hall _ (List.getElem_mem hlt))

/-- A block owes what its branches owe. It goes well if they all do, or if their failures are ignored. -/
theorem paying_parallel (p : Program) (policy : FailurePolicy) (calls : List (String × SessionCall)) :
    Script.Stakes (Paying hb hk start total) (owed p role calls) (h.exec p (.parallel policy (naming calls)))
      fun r b => b = 0 ∧ (r = .ok () ↔ policy = .ignore ∨ ∀ c ∈ calls, (p.given role c.2).isSome) := by
  rw [exec, execBranches_naming, ← sum_branchDue]
  refine .afterUpdate _ (fun s rest hs => hs.aside ..) ?_
  -- Each branch takes over what it owes itself, so the block keeps nothing back.
  have hbranches : ∀ (i : Nat) (s : Work τ κ δ Unit), (calls.map fun c => h.bindSession p c.1 c.2 false)[i]? = some s →
      Script.Stakes (Paying hb hk start total) ((calls[i]?).elim 0 (branchDue p role)) s
        fun r b => b = 0 ∧ ∀ c, calls[i]? = some c → (r = .ok () ↔ (p.given role c.2).isSome) := by
    intro i s hs
    rw [List.getElem?_map, Option.map_eq_some_iff] at hs
    obtain ⟨c, hc, rfl⟩ := hs
    rw [hc, Option.elim_some]
    refine (paying_bindSession p c.1 c.2).mono fun r b hr => ⟨hr.1, ?_⟩
    rintro _ ⟨⟩
    exact hr.2
  have htogether : Script.Stakes (Paying hb hk start total) (∑ i ∈ Finset.range calls.length, (calls[i]?).elim 0 (branchDue p role))
      (Script.together (calls.map fun c => h.bindSession p c.1 c.2 false)) fun r b => ∃ outcomes, r = .ok outcomes ∧
        ((∀ r ∈ outcomes, r = .ok ()) ↔ ∀ c ∈ calls, (p.given role c.2).isSome) ∧ b = 0 := by
    refine .together (by rw [List.length_map, add_zero]) hbranches fun rs hperm hends => ?_
    rw [List.length_map] at hperm
    exact ⟨_, rfl, outcomes_ok_iff hperm hends, rfl⟩
  refine .bindOk htogether fun outcomes b hb => .ofExcept ⟨hb.2, ?_⟩
  rw [← hb.1, ← firstFailure_eq_ok_iff]
  cases policy <;> simp [settle]

/-! ## Blocks -/

/-- What branches with names of their own leave behind, in whatever order they end. -/
structure Settles (p : Program) (role : String → Role) (honest : List UInt8 → String → StoredContent → Prop)
    (calls : List (String × SessionCall)) (start s : RunState τ κ δ) : Prop where
  /-- A branch that went well has bound its name. -/
  bound : ∀ c ∈ calls, ∀ tally, p.given role c.2 = some tally →
    ∃ receipt, honest (Text.Utf8.encode tally.finalResult.toList) "text/plain" receipt ∧
      s.scope.bound? c.1 = some (bindingOf c.1 .assigned tally.finalResult receipt, tally.finalResult)
  /-- A branch that did not go well has left its name as it was. -/
  kept : ∀ c ∈ calls, p.given role c.2 = none → s.scope.bound? c.1 = start.scope.bound? c.1
  others : s.scope.without (calls.map Prod.fst) = start.scope.without (calls.map Prod.fst)
  usage : s.usage = (usages p role calls).foldl Usage.add start.usage

variable {p : Program} {calls : List (String × SessionCall)} {s : RunState τ κ δ}

theorem mem_texts {name text : String} : (name, text) ∈ texts p role calls ↔
    ∃ c ∈ calls, c.1 = name ∧ ∃ tally, p.given role c.2 = some tally ∧ tally.finalResult = text := by
  simp only [texts, List.mem_filterMap, Option.map_eq_some_iff, Prod.mk.injEq]
  constructor
  · rintro ⟨c, hc, tally, htally, hname, htext⟩
    exact ⟨c, hc, hname, tally, htally, htext⟩
  · rintro ⟨c, hc, hname, tally, htally, htext⟩
    exact ⟨c, hc, tally, htally, hname, htext⟩

theorem texts_names (p : Program) (role : String → Role) (calls : List (String × SessionCall)) :
    List.Sublist ((texts p role calls).map Prod.fst) (calls.map Prod.fst) := by
  induction calls with
  | nil => exact .slnil
  | cons c calls ih =>
    rw [texts, List.filterMap_cons]
    cases p.given role c.2 with
    | none => exact ih.cons c.1
    | some tally => exact ih.cons_cons c.1

/-- When everything has been paid, each branch has left what it owed. -/
theorem settles_of_paying (hnames : (calls.map Prod.fst).Nodup)
    (hs : Paying hb hk start (owed p role calls) 0 s) :
    Settles p role honest calls start s := by
  obtain ⟨us, husage, hpaid⟩ := hs.paid
  obtain ⟨ws, hscope, hhonest, hbound⟩ := hs.bound
  -- Nothing is owed any more, so everything has been paid, in some order.
  have hpaid : us.Perm (usages p role calls) := Multiset.coe_eq_coe.1 ((add_zero _).symm.trans hpaid)
  have hbound : (ws.map fun w => (w.1.name, w.2)).Perm (texts p role calls) := Multiset.coe_eq_coe.1 ((add_zero _).symm.trans hbound)
  have hfst : (ws.map (·.1.name)).Perm ((texts p role calls).map Prod.fst) := by
    have hmap := hbound.map Prod.fst
    rwa [List.map_map] at hmap
  have hnodup : (ws.map (·.1.name)).Nodup := hfst.nodup_iff.2 (hnames.sublist (texts_names p role calls))
  refine ⟨?_, ?_, ?_, husage.trans (Usage.foldl_add_perm hpaid _)⟩
  · intro c hc tally htally
    obtain ⟨w, hw, heq⟩ := List.mem_map.1 (hbound.mem_iff.2 (mem_texts.2 ⟨c, hc, rfl, tally, htally, rfl⟩))
    rw [Prod.mk.injEq] at heq
    obtain ⟨receipt, hreceipt, hbinding⟩ := hhonest w hw
    rw [heq.1, heq.2] at hbinding
    rw [heq.2] at hreceipt
    refine ⟨receipt, hreceipt, ?_⟩
    rw [hscope, ← hbinding, ← heq.1, ← heq.2]
    exact Scope.bound?_bindAll_of_mem hnodup hw _
  · intro c hc hnone
    -- Only the branch itself could have bound the name.
    have hnot : c.1 ∉ ws.map (·.1.name) := by
      intro hmem
      obtain ⟨⟨name, text⟩, htext, hname⟩ := List.mem_map.1 (hfst.mem_iff.1 hmem)
      obtain ⟨d, hd, hsame, tally, htally, _⟩ := mem_texts.1 htext
      have heq : d = c := List.inj_on_of_nodup_map hnames hd hc (hsame.trans hname)
      rw [heq, hnone] at htally
      cases htally
    rw [hscope]
    exact Scope.bound?_bindAll_of_not_mem hnot _
  · rw [hscope]
    refine Scope.without_bindAll (fun w hw => ?_) _
    exact (texts_names p role calls).subset (hfst.mem_iff.1 (List.mem_map_of_mem hw))

theorem steady_paying : Steady h (Paying hb hk start total) where
  catchUp _ _ _ hs := hs.aside ..
  giveWay _ standing _ hs := by
    unfold giveWay
    split
    · exact hs.aside ..
    · exact hs

/-- A block of branches with names of their own comes to its end. Whether it goes well and what it leaves is settled by the roles of its
    sessions. -/
theorem parallel_settled (hb : h.backend.TrueTo role) (hk : h.store.Taking honest) (p : Program) (policy : FailurePolicy)
    (hnames : (calls.map Prod.fst).Nodup) (hbackend : hb.valid s.backend) (hstore : hk.valid s.store) (number : Nat) :
    let last := h.drive none number true s (.ofPlan (h.exec p (.parallel policy (naming calls))).plan)
    ∃ r, last.2.result? = some r ∧ (r = .ok () ↔ policy = .ignore ∨ ∀ c ∈ calls, (p.given role c.2).isSome) ∧
      Settles p role honest calls s last.1 := by
  have hstart : Paying hb hk s (owed p role calls) (owed p role calls) s :=
    ⟨hbackend, hstore, ⟨[], rfl, zero_add _⟩, [], rfl, fun _ hw => absurd hw List.not_mem_nil, zero_add _⟩
  obtain ⟨r, b, hresult, hs, rfl, hr⟩ := drive_settled steady_paying number hstart (paying_parallel p policy calls).plan
  exact ⟨r, hresult, hr, settles_of_paying hnames hs⟩

end Host

/-- A receipt that tells the truth about bytes, wherever they are kept. -/
def StoredContent.Describes (scheme : Digest.Scheme) (bytes : List UInt8) (mime : String) (receipt : StoredContent) : Prop :=
  ∃ contentRef, receipt = .of scheme contentRef bytes mime

/-- What two scopes have under a name that both had the same binding for: it, or bindings of the same text. -/
inductive Scope.Same (honest : List UInt8 → String → StoredContent → Prop) (start s s' : Scope) (name : String) : Prop where
  | kept (h : s.bound? name = start.bound? name) (h' : s'.bound? name = start.bound? name)
  | bound (text : String) (receipt receipt' : StoredContent) (hreceipt : honest (Text.Utf8.encode text.toList) "text/plain" receipt)
      (hreceipt' : honest (Text.Utf8.encode text.toList) "text/plain" receipt')
      (h : s.bound? name = some (Host.bindingOf name .assigned text receipt, text))
      (h' : s'.bound? name = some (Host.bindingOf name .assigned text receipt', text))

namespace Host

/-- Timing decides nothing about branches with names of their own, if what sessions do depends on their titles only and no write to the
    store fails. However long the calls of two hosts take, a block goes well on one if it does on the other, the same names are bound to
    the same texts, other bindings stay as they are in their order, and the same usage has been added up. -/
theorem parallel_timeless (h : Host τ η κ δ) (h' : Host τ' η' κ' δ') (hb : h.backend.TrueTo role) (hb' : h'.backend.TrueTo role)
    (hk : h.store.Taking honest) (hk' : h'.store.Taking honest) (p : Program) (policy : FailurePolicy) (calls : List (String × SessionCall))
    (hnames : (calls.map Prod.fst).Nodup) (s : RunState τ κ δ) (s' : RunState τ' κ' δ') (hscope : s'.scope = s.scope)
    (husage : s'.usage = s.usage) (hbackend : hb.valid s.backend) (hbackend' : hb'.valid s'.backend) (hstore : hk.valid s.store)
    (hstore' : hk'.valid s'.store) (number number' : Nat) :
    let block := Stmt.parallel policy (naming calls)
    let last := h.drive none number true s (.ofPlan (h.exec p block).plan)
    let last' := h'.drive none number' true s' (.ofPlan (h'.exec p block).plan)
    ∃ r r', last.2.result? = some r ∧ last'.2.result? = some r' ∧ (r = .ok () ↔ r' = .ok ()) ∧
      (∀ c ∈ calls, Scope.Same honest s.scope last.1.scope last'.1.scope c.1) ∧
      last.1.scope.without (calls.map Prod.fst) = s.scope.without (calls.map Prod.fst) ∧
      last'.1.scope.without (calls.map Prod.fst) = s.scope.without (calls.map Prod.fst) ∧ last.1.usage = last'.1.usage := by
  intro block last last'
  obtain ⟨r, hresult, hok, hsettles⟩ := parallel_settled hb hk p policy hnames hbackend hstore number
  obtain ⟨r', hresult', hok', hsettles'⟩ := parallel_settled hb' hk' p policy hnames hbackend' hstore' number'
  refine ⟨r, r', hresult, hresult', hok.trans hok'.symm, fun c hc => ?_, hsettles.others, ?_, ?_⟩
  · cases hgiven : p.given role c.2 with
    | none =>
      have hkept := hsettles'.kept c hc hgiven
      rw [hscope] at hkept
      exact .kept (hsettles.kept c hc hgiven) hkept
    | some tally =>
      obtain ⟨receipt, hreceipt, hbound⟩ := hsettles.bound c hc tally hgiven
      obtain ⟨receipt', hreceipt', hbound'⟩ := hsettles'.bound c hc tally hgiven
      exact .bound tally.finalResult receipt receipt' hreceipt hreceipt' hbound hbound'
  · rw [← hscope]
    exact hsettles'.others
  · rw [hsettles'.usage, husage]
    exact hsettles.usage

end Host

end

/-! ## Rehearsals -/

/-- The turns up to the first failure, without the ids of sessions, and whether there is none. -/
def spoken : List (Nat × Except Failure Turn) → List Turn × Bool
  | [] => ([], true)
  | (_, .error _) :: _ => ([], false)
  | (_, .ok t) :: rest => (t.anonymous :: (spoken rest).1, (spoken rest).2)

theorem TurnStream.gives_ofList (valid : τ → Prop) (turns : List (Nat × Except Failure Turn)) :
    (TurnStream.ofList id turns).Gives valid (spoken turns).1 (spoken turns).2 := by
  induction turns with
  | nil => exact .finished fun b hb => hb
  | cons turn turns ih =>
    obtain ⟨ms, e | t⟩ := turn
    · exact .broken fun b hb => ⟨⟨e, rfl⟩, hb⟩
    · exact .next (fun b hb => ⟨⟨t, rfl, rfl⟩, hb⟩) fun _ _ _ _ => ih

/-- The role that a part plays for a task. -/
def Part.role (part : Part) (title : String) : Role :=
  let turns := spoken (part.turnsFor title "")
  ⟨part.openFailure.isNone, part.sendFailure.isNone, part.streamFailure.isNone, turns.1, turns.2⟩

/-- A part says the same whatever the id of the session is, but for the id. -/
theorem Part.spoken_turnsFor (part : Part) (title id : String) :
    spoken (part.turnsFor title id) = spoken (part.turnsFor title "") := by
  unfold turnsFor
  split
  · rfl
  · split <;> rfl

/-- Rehearsals in which all sessions for a task play parts of the same role. -/
def Rehearsal.Plays (role : String → Role) (r : Rehearsal) : Prop :=
  ∀ title opened, ({ r with opened }.nextPart title).role title = role title

namespace Rehearsal

variable {role : String → Role} {r : Rehearsal}

theorem isOk_outcome (failure : Option Failure) : (outcome failure).isOk = failure.isNone := by
  cases failure <;> rfl

/-- A session that is opened plays the next part for its task, and the parts stay as they are. -/
theorem begin_part (r : Rehearsal) (args : SessionArgs) (resumed : Option String) :
    ((r.begin args resumed).1.isOk = (r.nextPart args.title).openFailure.isNone ∧
      ∀ x, (r.begin args resumed).1 = .ok x → x.title = args.title ∧ x.part = r.nextPart args.title) ∧
      (r.begin args resumed).2.parts = r.parts := by
  unfold begin
  simp only
  split
  · rename_i e hopen
    rw [hopen]
    refine ⟨⟨rfl, ?_⟩, rfl⟩
    rintro _ ⟨⟩
  · rename_i hopen
    rw [hopen]
    split
    · refine ⟨⟨rfl, ?_⟩, rfl⟩
      rintro _ ⟨⟩
      exact ⟨rfl, rfl⟩
    · refine ⟨⟨rfl, ?_⟩, rfl⟩
      rintro _ ⟨⟩
      exact ⟨rfl, rfl⟩

theorem nextPart_of_one {title : String} {part : Part} (hparts : r.parts.get? title = some [part]) : r.nextPart title = part := by
  unfold nextPart
  rw [hparts]
  cases (r.opened.get? title).getD 0 <;> rfl

theorem nextPart_of_none {title : String} (hparts : r.parts.get? title = none) : r.nextPart title = .plain := by
  unfold nextPart
  rw [hparts]

theorem Plays.of_parts {r' : Rehearsal} (hr : r.Plays role) (hparts : r'.parts = r.parts) : r'.Plays role := by
  intro title opened
  have hnext : { r' with opened }.nextPart title = { r with opened }.nextPart title := by
    unfold nextPart
    rw [hparts]
  rw [hnext]
  exact hr title opened

end Rehearsal

/-- A rehearsal is true to the roles of its parts, however long they take. -/
def Backend.rehearsal_trueTo (role : String → Role) : Backend.rehearsal.TrueTo role where
  valid := Rehearsal.Plays role
  titled title x := x.title = title ∧ x.part.role title = role title
  create args r hr := by
    have hrole : (r.nextPart args.title).role args.title = role args.title := hr args.title r.opened
    obtain ⟨⟨hopens, hpart⟩, hparts⟩ := r.begin_part args none
    refine ⟨⟨hopens.trans (congrArg Role.opens hrole), fun x hx => ?_⟩, hr.of_parts hparts⟩
    obtain ⟨htitle, hplays⟩ := hpart x hx
    exact ⟨htitle, hplays ▸ hrole⟩
  send prompt title x r hx hr :=
    ⟨⟨(Rehearsal.isOk_outcome _).trans (congrArg Role.listens hx.2), hx⟩, hr.of_parts rfl⟩
  stream title x r hx hr := by
    obtain ⟨rfl, hrole⟩ := hx
    rw [← hrole]
    have hgives : (TurnStream.ofList id (x.part.turnsFor x.title x.id)).Gives (Rehearsal.Plays role)
        (x.part.role x.title).turns (x.part.role x.title).ends := by
      unfold Part.role
      rw [← x.part.spoken_turnsFor x.title x.id]
      exact TurnStream.gives_ofList _ _
    cases hstream : x.part.streamFailure with
    | some e =>
      have hanswers : (x.part.role x.title).answers = false := by rw [Part.role, hstream]; rfl
      rw [rehearsal, hanswers]
      simp only [hstream]
      refine ⟨⟨rfl, ?_⟩, hr⟩
      rintro _ ⟨⟩
    | none =>
      have hanswers : (x.part.role x.title).answers = true := by rw [Part.role, hstream]; rfl
      rw [rehearsal, hanswers]
      simp only [hstream]
      refine ⟨⟨rfl, ?_⟩, hr⟩
      rintro _ ⟨⟩
      exact hgives
  close x r hr := hr.of_parts rfl

/-- Before a trial of two sessions that take some milliseconds for their answers. -/
def RunState.taking (one two : Nat) : RunState Rehearsal RefusingStore Unit :=
  .trial [("One", [{ Part.plain with turns := some [(one, .ok (.ofText "1"))] }]),
    ("Two", [{ Part.plain with turns := some [(two, .ok (.ofText "2"))] }])] []

/-- The roles in such a trial. -/
def Role.trial (title : String) : Role :=
  ((RunState.taking 0 0).backend.nextPart title).role title

/-- Whatever time they take, and however often they are opened. -/
theorem RunState.taking_plays (one two : Nat) : (RunState.taking one two).backend.Plays Role.trial := by
  intro title opened
  by_cases hone : title = "One"
  · subst hone
    rw [Role.trial, Rehearsal.nextPart_of_one rfl, Rehearsal.nextPart_of_one rfl]
    rfl
  · by_cases htwo : title = "Two"
    · subst htwo
      rw [Role.trial, Rehearsal.nextPart_of_one rfl, Rehearsal.nextPart_of_one rfl]
      rfl
    · have hnone : ∀ one two, (RunState.taking one two).backend.parts.get? title = none := fun one two => by
        simp [taking, trial, fresh, Rehearsal.ofParts, KeyMap.get?, hone, htwo]
      have hplain : { (taking one two).backend with opened }.nextPart title = .plain := Rehearsal.nextPart_of_none (hnone one two)
      rw [hplain, Role.trial, Rehearsal.nextPart_of_none (hnone 0 0)]

/-- The store of a trial in which it refuses nothing. -/
def Host.trial_taking : Host.trial.store.Taking (StoredContent.Describes ⟨fun _ => [0], fun _ _ => [0]⟩) where
  valid w := w.refusedPuts = [] ∧ w.refusedKeys = []
  put key bytes mime w hw := by
    have hrefuses : w.refusesPut key = false := by simp [RefusingStore.refusesPut, hw.1, hw.2]
    simp only [trial, RefusingStore.operations, hrefuses, Bool.false_eq_true, if_false]
    exact ⟨⟨_, rfl, _, rfl⟩, hw⟩

/-- Branches of which the first two go well. -/
def racers : List (String × SessionCall) :=
  [("a", ⟨none, "One"⟩), ("b", ⟨none, "Two"⟩), ("c", ⟨none, "fail Three"⟩)]

/-- What comes of them in a trial. -/
def Host.raced (one two : Nat) : RunState Rehearsal RefusingStore Unit × Host.Running Rehearsal RefusingStore Unit :=
  Host.trial.drive none 0 true (.taking one two) (.ofPlan (Host.trial.exec ⟨[], [], []⟩ (.parallel .failFast (Host.naming racers))).plan)

/-- Either of two branches may end first, and the results are the same. -/
theorem parallel_timeless_racers :
    (∃ r r', (Host.raced 50 0).2.result? = some r ∧ (Host.raced 0 50).2.result? = some r' ∧ (r = .ok () ↔ r' = .ok ()) ∧
      (∀ c ∈ racers, Scope.Same (StoredContent.Describes ⟨fun _ => [0], fun _ _ => [0]⟩) .empty (Host.raced 50 0).1.scope
        (Host.raced 0 50).1.scope c.1) ∧ (Host.raced 50 0).1.usage = (Host.raced 0 50).1.usage) ∧
    (Host.raced 50 0).1.scope.bindings.map (·.name) = ["b", "a"] ∧ (Host.raced 0 50).1.scope.bindings.map (·.name) = ["a", "b"] := by
  have hworked : (Host.trial.driveWithin none 120 0 true (.taking 50 0)
        (.ofPlan (Host.trial.exec ⟨[], [], []⟩ (.parallel .failFast (Host.naming racers))).plan)).any
          (·.1.scope.bindings.map (·.name) = ["b", "a"]) ∧
      (Host.trial.driveWithin none 120 0 true (.taking 0 50)
        (.ofPlan (Host.trial.exec ⟨[], [], []⟩ (.parallel .failFast (Host.naming racers))).plan)).any
          (·.1.scope.bindings.map (·.name) = ["a", "b"]) := by
    decide +kernel
  obtain ⟨r, hwithin, horder⟩ := (Option.any_eq_true _ _).1 hworked.1
  obtain ⟨r', hwithin', horder'⟩ := (Option.any_eq_true _ _).1 hworked.2
  have horders : (Host.raced 50 0).1.scope.bindings.map (·.name) = ["b", "a"] ∧
      (Host.raced 0 50).1.scope.bindings.map (·.name) = ["a", "b"] := by
    rw [Host.raced, Host.raced, Host.trial.drive_of_within hwithin, Host.trial.drive_of_within hwithin']
    exact ⟨of_decide_eq_true horder, of_decide_eq_true horder'⟩
  have hplays : ∀ one two, (Backend.rehearsal_trueTo Role.trial).valid (RunState.taking one two).backend := RunState.taking_plays
  obtain ⟨r, r', hresult, hresult', hok, hsame, _, _, husage⟩ :=
    Host.parallel_timeless Host.trial Host.trial (Backend.rehearsal_trueTo Role.trial) (Backend.rehearsal_trueTo Role.trial)
      Host.trial_taking Host.trial_taking ⟨[], [], []⟩ .failFast racers (by decide) (.taking 50 0) (.taking 0 50) rfl rfl (hplays 50 0)
      (hplays 0 50) ⟨rfl, rfl⟩ ⟨rfl, rfl⟩ 0 0
  exact ⟨⟨r, r', hresult, hresult', hok, hsame, husage⟩, horders⟩

end Playbook
