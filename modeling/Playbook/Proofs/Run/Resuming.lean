import Playbook.Proofs.Run.Courses
import Playbook.Proofs.Run.Records

/-!
# `Proofs.Run.Resuming` — which session an agent resumes

The latest session of an agent is known in two places. The run itself is told of an id as soon as a session has one; the agent's
record names the session of a call when the call is over. A later call resumes the one that the run knows, and a later run the one
in the record. As long as the calls for an agent follow one another, the two are the same whenever no call is under way: whoever
changed the one has changed the other before the next call was made. When calls for one agent overlap, they need not be.

## Contents
- **Calls.** `Program.Calls`; `Journal.Busy`, `Idle`, `Well` and `OneByOne`, what a journal says of the calls for an agent.
- **The invariant.** `Agreed`, `Tracked`, and what each kind of change leaves of it.
- **Rules.** `Tracked.rules`, `Tracked.Sure`: what a call for the agent may be sure of; `Tracked.kept_rules`.
- **Resuming.** `resumes_agree`, and `overlapping_resumes_differ`.
-/

namespace Playbook

/-! ## Calls -/

/-- Whether a session call is for an agent. -/
def Program.Calls (p : Program) (agent : String) (call : SessionCall) : Prop :=
  ∃ a, p.agentFor call = .ok a ∧ a.name = agent

namespace Journal

/-- A call for an agent is under way: it has been made, and it has not been answered. -/
structure Busy (p : Program) (agent : String) (l : Journal) (x : Place) (n : Nat) : Prop where
  asked : ∃ call resume, p.Calls agent call ∧ .asked x n call resume ∈ l
  unanswered : ∀ r, .answered x n r ∉ l

/-- No call for an agent is under way. -/
def Idle (p : Program) (agent : String) (l : Journal) : Prop :=
  ∀ x n, ¬l.Busy p agent x n

/-- No call for an agent has failed. -/
def Well (p : Program) (agent : String) (l : Journal) : Prop :=
  ∀ x n call resume e, p.Calls agent call → .asked x n call resume ∈ l → .answered x n (.error e) ∉ l

/-- No call for an agent was made while another one was under way. -/
def OneByOne (p : Program) (agent : String) (l : Journal) : Prop :=
  ∀ l₁ l₂ x n call resume, l = l₁ ++ .asked x n call resume :: l₂ → p.Calls agent call →
    Idle p agent l₁

/-- Calls are numbered by the positions at which they are told, and only calls that were made are answered. -/
structure Numbered (l : Journal) : Prop where
  asked : ∀ x n call resume, .asked x n call resume ∈ l → l[n]? = some (.asked x n call resume)
  answered : ∀ x n r, .answered x n r ∈ l → ∃ call resume, .asked x n call resume ∈ l

end Journal

/-- Whether an entry tells that a call is made or answered. -/
def Entry.isCall : Entry → Bool
  | .asked _ _ _ _ | .answered _ _ _ => true
  | _ => false

namespace Journal

variable {p : Program} {agent : String} {l m : Journal} {x y : Place} {n k : Nat}

theorem Busy.append (h : l.Busy p agent x n) (hm : ∀ r, .answered x n r ∉ m) :
    Busy p agent (l ++ m) x n where
  asked := by
    obtain ⟨call, resume, hcalls, hmem⟩ := h.asked
    exact ⟨call, resume, hcalls, List.mem_append_left m hmem⟩
  unanswered r hmem := (List.mem_append.1 hmem).elim (h.unanswered r) (hm r)

theorem Well.of_append (h : Well p agent (l ++ m)) : Well p agent l :=
  fun x n call resume e hcalls hasked hmem =>
    h x n call resume e hcalls (List.mem_append_left m hasked) (List.mem_append_left m hmem)

theorem OneByOne.of_append (h : OneByOne p agent (l ++ m)) : OneByOne p agent l := by
  intro l₁ l₂ x n call resume hl hcalls
  refine h l₁ (l₂ ++ m) x n call resume ?_ hcalls
  rw [hl, List.append_assoc, List.cons_append]

/-- Of calls that follow one another only one can be under way. -/
theorem OneByOne.unique (h : OneByOne p agent l) (hx : l.Busy p agent x n) (hy : l.Busy p agent y k) :
    x = y ∧ n = k := by
  obtain ⟨call, resume, hcalls, hmem⟩ := hx.asked
  obtain ⟨call', resume', hcalls', hmem'⟩ := hy.asked
  obtain ⟨a, b, rfl⟩ := List.append_of_mem hmem
  rcases List.mem_append.1 hmem' with ha | hb
  · -- The second call was under way when the first one was made.
    exact absurd ⟨⟨call', resume', hcalls', ha⟩, fun r hr => hy.unanswered r (List.mem_append_left _ hr)⟩
      (h a b x n call resume rfl hcalls y k)
  rcases List.mem_cons.1 hb with heq | hb
  · rw [Entry.asked.injEq] at heq
    exact ⟨heq.1.symm, heq.2.1.symm⟩
  · obtain ⟨b₁, b₂, rfl⟩ := List.append_of_mem hb
    refine absurd ⟨⟨call, resume, hcalls, List.mem_append_right a List.mem_cons_self⟩, fun r hr => ?_⟩
      (h (a ++ .asked x n call resume :: b₁) b₂ y k call' resume' (by simp) hcalls' x n)
    refine hx.unanswered r ?_
    rcases List.mem_append.1 hr with hr | hr
    · exact List.mem_append_left _ hr
    · exact List.mem_append_right a (List.mem_cons.2 ((List.mem_cons.1 hr).imp id
        (List.mem_append_left _)))

theorem numbered_nil : Numbered [] :=
  ⟨fun _ _ _ _ h => (List.not_mem_nil h).elim, fun _ _ _ h => (List.not_mem_nil h).elim⟩

theorem Numbered.lt {call : SessionCall} {resume : Bool} (h : l.Numbered)
    (hmem : .asked x n call resume ∈ l) : n < l.length :=
  (List.getElem?_eq_some_iff.1 (h.asked x n call resume hmem)).1

/-- A number stands for one call. -/
theorem Numbered.unique {call call' : SessionCall} {resume resume' : Bool} (h : l.Numbered)
    (hmem : .asked x n call resume ∈ l) (hmem' : .asked y n call' resume' ∈ l) :
    Entry.asked x n call resume = .asked y n call' resume' := by
  have hfirst := h.asked x n call resume hmem
  rw [h.asked y n call' resume' hmem'] at hfirst
  exact (Option.some.inj hfirst).symm

/-- What is told next keeps calls numbered, if it makes calls and answers them as it should. -/
theorem Numbered.append (h : l.Numbered)
    (hasked : ∀ x n call resume, .asked x n call resume ∈ m →
      (l ++ m)[n]? = some (.asked x n call resume))
    (hanswered : ∀ x n r, .answered x n r ∈ m → ∃ call resume, .asked x n call resume ∈ l) :
    Numbered (l ++ m) where
  asked x n call resume hmem := by
    rcases List.mem_append.1 hmem with hmem | hmem
    · rw [List.getElem?_append_left (h.lt hmem)]
      exact h.asked x n call resume hmem
    · exact hasked x n call resume hmem
  answered x n r hmem := by
    obtain ⟨call, resume, hcall⟩ := (List.mem_append.1 hmem).elim (h.answered x n r) (hanswered x n r)
    exact ⟨call, resume, List.mem_append_left m hcall⟩

end Journal

/-! ## The invariant -/

variable {τ η κ δ : Type}

/-- The bytes of a record. -/
def Host.recordBytes (h : Host τ η κ δ) (agent id title : String) (now : Timestamp) : List UInt8 :=
  Text.Utf8.encode (MemoryRecord.text ⟨id, h.context.principalId, agent, title, now⟩).toList

/-- What a run knows of the latest session of an agent, and the agent's record: both know of none, or the record is about the session
    that the run knows. -/
inductive Agreed (h : Host τ η κ δ) (agent : String) : Option String → Option (List UInt8) → Prop where
  | never : Agreed h agent none none
  | named (id title : String) (now : Timestamp) :
      Agreed h agent (some id) (some (h.recordBytes agent id title now))

/-- Once calls for an agent have followed one another and gone well, run and record agree on its latest session whenever no call is
    under way. -/
structure Tracked (h : Host τ η κ δ) (p : Program) (record : String → κ → Option (List UInt8))
    (agent : String) (w : ToldState τ κ δ) : Prop where
  numbered : w.journal.Numbered
  agreed : w.journal.OneByOne p agent → w.journal.Well p agent → w.journal.Idle p agent →
    Agreed h agent (w.sessions.get? agent) (record agent w.store.1)

namespace Tracked

variable {h : Host τ η κ δ} {p : Program} {record : String → κ → Option (List UInt8)}
  {agent : String} {w v : ToldState τ κ δ} {x y : Place} {L m : Journal} {n : Nat}
  {call : SessionCall} {resume : Bool}

/-- What a change leaves alone that has nothing to do with an agent. -/
structure Spares (record : String → κ → Option (List UInt8)) (agent : String)
    (w v : ToldState τ κ δ) : Prop where
  session : v.sessions.get? agent = w.sessions.get? agent
  record : record agent v.store.1 = record agent w.store.1

/-- A change that spares the agent leaves what is tracked, unless it ends a call for the agent. -/
theorem of_spares (hw : Tracked h p record agent w) (hspares : Spares record agent w v)
    (hjournal : v.journal = w.journal ++ m) (hnumbered : v.journal.Numbered)
    (hanswered : ∀ x n r, .answered x n r ∈ m → ¬w.journal.Busy p agent x n) :
    Tracked h p record agent v where
  numbered := hnumbered
  agreed hone hwell hidle := by
    rw [hspares.session, hspares.record]
    rw [hjournal] at hone hwell hidle
    exact hw.agreed hone.of_append hwell.of_append fun x n hbusy =>
      hidle x n (hbusy.append fun r hr => hanswered x n r hr hbusy)

/-- A change that spares the agent and is not about calls. -/
theorem of_other (hw : Tracked h p record agent w) (hspares : Spares record agent w v)
    (hjournal : v.journal = w.journal ++ m) (hm : ∀ e ∈ m, e.isCall = false) :
    Tracked h p record agent v := by
  have hasked : ∀ x n call resume, .asked x n call resume ∉ m := fun _ _ _ _ he =>
    Bool.noConfusion (hm _ he)
  have hanswered : ∀ x n r, .answered x n r ∉ m := fun _ _ _ he => Bool.noConfusion (hm _ he)
  refine hw.of_spares hspares hjournal ?_ fun x n r hr => absurd hr (hanswered x n r)
  rw [hjournal]
  exact hw.numbered.append (fun x n call resume hr => absurd hr (hasked x n call resume))
    fun x n r hr => absurd hr (hanswered x n r)

/-- While a call for the agent is under way, anything may be done to what is known of its session. -/
theorem of_busy (hnumbered : v.journal.Numbered) (hbusy : v.journal.Busy p agent x n) :
    Tracked h p record agent v :=
  ⟨hnumbered, fun _ _ hidle => absurd hbusy (hidle x n)⟩

theorem spares_quiet (hrecords : h.KeepsRecords p record) (hquiet : Quiet h w v) :
    Spares record agent w v where
  session := by rw [hquiet.sessions]
  record := by
    rcases hquiet.store with hstore | ⟨key, hstore⟩
    · rw [hstore]
    · rw [hstore, hrecords.get]

/-- A call is made. -/
theorem numbered_ask (hw : w.journal.Numbered) (y : Place) (call : SessionCall) (resume : Bool) :
    (w.tell (.asked y w.journal.length call resume)).journal.Numbered := by
  refine hw.append ?_ (by simp)
  intro x n call' resume' hmem
  rw [List.mem_singleton, Entry.asked.injEq] at hmem
  obtain ⟨rfl, rfl, rfl, rfl⟩ := hmem
  rw [List.getElem?_append_right (Nat.le_refl _), Nat.sub_self]
  rfl

theorem busy_ask (hw : w.journal.Numbered) (y : Place) (resume : Bool) (hcalls : p.Calls agent call) :
    (w.tell (.asked y w.journal.length call resume)).journal.Busy p agent y w.journal.length where
  asked := ⟨call, resume, hcalls, List.mem_append_right _ List.mem_cons_self⟩
  unanswered r hmem := by
    rcases List.mem_append.1 hmem with hmem | hmem
    · obtain ⟨call', resume', hasked⟩ := hw.answered _ _ _ hmem
      exact absurd (hw.lt hasked) (Nat.lt_irrefl _)
    · simp at hmem

/-- A call is answered. -/
theorem numbered_answer (hw : w.journal.Numbered) (hasked : .asked y n call resume ∈ w.journal)
    (r : Except Failure String) : (w.tell (.answered y n r)).journal.Numbered := by
  refine hw.append (by simp) ?_
  intro x k r' hmem
  rw [List.mem_singleton, Entry.answered.injEq] at hmem
  obtain ⟨rfl, rfl, _⟩ := hmem
  exact ⟨call, resume, hasked⟩

/-! ## Rules -/

/-- The rules of a run in which the latest session of an agent is tracked. Only while a call for the agent is under way is anything
    done to what is known of its session. -/
def rules (hrecords : h.KeepsRecords p record) (agent : String) : Rules h where
  inv := Tracked h p record agent
  own P w v := Spares record agent w v ∨ ∃ y n, P y ∧ w.journal.Busy p agent y n
  inv_quiet w v hquiet hw := by
    obtain ⟨m, hm, hmark⟩ := hquiet.journal
    refine hw.of_other (spares_quiet hrecords hquiet) hm fun e he => ?_
    have hmark := hmark e he
    cases e <;> first | rfl | cases hmark
  own_quiet _ _ _ hquiet _ := .inl (spares_quiet hrecords hquiet)
  own_mono _ _ _ _ hPQ hown := by
    rcases hown with hspares | ⟨y, n, hy, hbusy⟩
    · exact .inl hspares
    · exact .inr ⟨y, n, hPQ y hy, hbusy⟩

section

variable {hrecords : h.KeepsRecords p record}

/-- What may be done at a place: what is told is about the place and does not end what runs there. -/
theorem granted (hv : Tracked h p record agent w → Tracked h p record agent v)
    (hown : Spares record agent w v ∨ ∃ y n, x <:+ y ∧ w.journal.Busy p agent y n)
    (hm : v.journal = w.journal ++ m) (hplace : ∀ e ∈ m, x <:+ e.place)
    (hmark : ∀ e ∈ m, e.isMark = false) : ((rules hrecords agent).pact x).grant w v := by
  refine ⟨fun hw => ⟨hv hw, hown⟩, m, hm, fun e he => ⟨hplace e he, fun hcloses => ?_⟩⟩
  have hmark := hmark e he
  cases e <;> first | exact hcloses | cases hmark

theorem mem_of_own (hown : (rules hrecords agent).Own x L w) {e : Entry} (he : e ∈ L) :
    e ∈ w.journal :=
  (Journal.mem_under.1 (hown.2.symm ▸ he)).1

theorem lasts_own (x : Place) (L : Journal) :
    Stages.Lasts (rules hrecords agent) x ((rules hrecords agent).Own x L) where
  firm := Rules.firm_own x L
  quiet w v hquiet hjournal hw :=
    ⟨(rules hrecords agent).inv_quiet w v hquiet hw.1, hjournal ▸ hw.2⟩

/-- A change at a place that spares the agent and is not about calls. -/
theorem own_of_other (hown : (rules hrecords agent).Own x L w) (hspares : Spares record agent w v)
    (hm : v.journal = w.journal ++ m) (hplace : ∀ e ∈ m, x <:+ e.place)
    (hcall : ∀ e ∈ m, e.isCall = false) (hmark : ∀ e ∈ m, e.isMark = false) :
    ((rules hrecords agent).pact x).grant w v ∧ (rules hrecords agent).Own x (L ++ m) v :=
  ⟨granted (fun hw => hw.of_other hspares hm hcall) (.inl hspares) hm hplace hmark,
    Rules.own_append hown (hown.1.of_other hspares hm hcall) hm hplace⟩

/-- The stages of a write. -/
theorem writes (hxy : x <:+ y) (name : String) (kind : BindingKind) (text : String) :
    Rules.Writes (rules hrecords agent) x y name kind text
      (fun L n => (rules hrecords agent).Own x (L ++ [.writing y n name kind text]))
      (fun L n receipt => (rules hrecords agent).Own x
        (L ++ [.writing y n name kind text, .stored y n (.ok receipt)])) where
  firm L n := Rules.firm_own x _
  number L w hown :=
    own_of_other hown ⟨rfl, rfl⟩ rfl (by simpa [Entry.place] using hxy) (by simp [Entry.isCall])
      (by simp [Entry.isMark])
  put L n w hown := by
    obtain ⟨hgrant, hafter⟩ := own_of_other (v := Rules.putText h y n name text w)
      (m := [.stored y n (Rules.receiptOf h n name text w)]) hown
      ⟨rfl, hrecords.binding agent name n _ _ _⟩ rfl (by simpa [Entry.place] using hxy)
      (by simp [Entry.isCall]) (by simp [Entry.isMark])
    rw [List.append_assoc] at hafter
    refine ⟨hgrant, ?_⟩
    revert hafter
    cases Rules.receiptOf h n name text w with
    | ok receipt => exact id
    | error e => exact id
  bind L n receipt w hown := by
    have hafter := own_of_other (v := Rules.bindText y n name kind text receipt w)
      (m := [.bound y n (Host.bindingOf name kind text receipt) text]) hown ⟨rfl, rfl⟩ rfl
      (by simpa [Entry.place] using hxy) (by simp [Entry.isCall]) (by simp [Entry.isMark])
    rwa [List.append_assoc] at hafter

/-! ## Calls for other agents -/

/-- A call for another agent has nothing to do with the agent, so all of its stages are alike. -/
def elsewhere (hrecords : h.KeepsRecords p record) (agent : String) (x : Place) (L : Journal) :
    Stages τ κ δ where
  before := (rules hrecords agent).Own x L
  held _ := (rules hrecords agent).Own x L
  failed := (rules hrecords agent).Own x L
  ended := (rules hrecords agent).Own x L

theorem elsewhere_sound (hnamed : Program.Parser.Named p.agents) (hagent : (p.agent? agent).isSome)
    {a : Agent} (hfor : p.agentFor call = .ok a) (hne : a.name ≠ agent) (x : Place) (L : Journal)
    (title : String) :
    (elsewhere hrecords agent x L).Sound (rules hrecords agent) x a title where
  before := lasts_own x L
  held _ := lasts_own x L
  failed := lasts_own x L
  opened _ hw := hw
  remember _ id w v hw haside := by
    have hspares : Spares record agent w v := by
      refine ⟨?_, by rw [haside.store]; rfl⟩
      rw [haside.sessions]
      exact KeyMap.get?_insert_of_ne (Ne.symm hne) id w.sessions
    have hjournal : v.journal = w.journal := haside.journal
    obtain ⟨hgrant, hown⟩ := own_of_other (m := []) hw hspares (by simpa using hjournal) (by simp)
      (by simp) (by simp)
    rw [List.append_nil] at hown
    exact ⟨hown, hgrant⟩
  record id now w hpersists hw := by
    have hother : (p.agent? a.name).isSome := by
      rcases Program.agentFor_cases hnamed hfor with hsome | ⟨rfl, _⟩
      · rw [hsome]
        rfl
      · cases hpersists
    intro text bytes v
    have hspares : Spares record agent w v :=
      ⟨rfl, hrecords.other agent a.name bytes "text/markdown" w.store.1 hagent hother hne⟩
    obtain ⟨hgrant, hown⟩ := own_of_other (m := []) hw hspares (by simp [v, Stages.putting, RunState.journal])
      (by simp) (by simp) (by simp)
    rw [List.append_nil] at hown
    refine ⟨hgrant, ?_⟩
    split
    · exact hown
    · exact hown
  unrecorded _ _ _ hw := hw
  fails _ hw := hw
  breaks _ _ hw := hw

/-! ## Calls for the agent -/

/-- What a call for the agent may be sure of while it is under way, if calls for the agent follow one another and go well: nobody else
    does anything to what is known of the agent's session. -/
structure Sure (hrecords : h.KeepsRecords p record) (agent : String) (x y : Place) (n : Nat)
    (L : Journal) (C : Option String → Option (List UInt8) → Prop) (w : ToldState τ κ δ) : Prop where
  own : (rules hrecords agent).Own x L w
  busy : w.journal.Busy p agent y n
  sure : w.journal.OneByOne p agent → w.journal.Well p agent →
    C (w.sessions.get? agent) (record agent w.store.1)

variable {C : Option String → Option (List UInt8) → Prop}

theorem lasts_sure (hxy : x <:+ y) (n : Nat) (L : Journal)
    (C : Option String → Option (List UInt8) → Prop) :
    Stages.Lasts (rules hrecords agent) x (Sure hrecords agent x y n L C) where
  firm w v hrely hw := by
    obtain ⟨hobeys, m, hm, hplace⟩ := hrely
    refine ⟨Rules.firm_own x L w v ⟨hobeys, m, hm, hplace⟩ hw.own, ?_, fun hone hwell => ?_⟩
    · rw [hm]
      exact hw.busy.append fun r hr => hplace _ hr hxy
    · rw [hm] at hone hwell
      rcases (hobeys hw.own.1).2 with hspares | ⟨z, k, hz, hbusy⟩
      · rw [hspares.session, hspares.record]
        exact hw.sure hone.of_append hwell.of_append
      · -- The call of somebody else would overlap this one.
        obtain ⟨rfl, _⟩ := hone.of_append.unique hw.busy hbusy
        exact absurd hxy hz
  quiet w v hquiet hjournal hw := by
    have hspares : Spares record agent w v := spares_quiet hrecords hquiet
    refine ⟨(lasts_own x L).quiet w v hquiet hjournal hw.own, hjournal ▸ hw.busy, fun hone hwell => ?_⟩
    rw [hspares.session, hspares.record]
    rw [hjournal] at hone hwell
    exact hw.sure hone hwell

/-- While it is under way, a call for the agent may do anything to what is known of the agent's session. -/
theorem Sure.change (hw : Sure hrecords agent x y n L C w) (hxy : x <:+ y)
    (hjournal : v.journal = w.journal) :
    ((rules hrecords agent).pact x).grant w v ∧ (rules hrecords agent).Own x L v := by
  have hv : Tracked h p record agent v :=
    of_busy (hjournal ▸ hw.own.1.numbered) (hjournal ▸ hw.busy)
  exact ⟨granted (m := []) (fun _ => hv) (.inr ⟨y, n, hxy, hw.busy⟩) (by simpa using hjournal)
    (by simp) (by simp), hv, hjournal ▸ hw.own.2⟩

/-- The stages of a call for the agent: run and record agree, the run knows the session's id, and in the end both do again. -/
def tracked (hrecords : h.KeepsRecords p record) (agent : String) (x y : Place) (n : Nat)
    (L : Journal) : Stages τ κ δ where
  before := Sure hrecords agent x y n L (Agreed h agent)
  held
    | none => Sure hrecords agent x y n L (Agreed h agent)
    | some id => Sure hrecords agent x y n L fun session _ => session = some id
  failed := (rules hrecords agent).Own x L
  ended := Sure hrecords agent x y n L (Agreed h agent)

theorem tracked_sound (hxy : x <:+ y) (n : Nat) (L : Journal) {a : Agent} (hname : a.name = agent)
    (hpersists : a.persists) (title : String) :
    (tracked hrecords agent x y n L).Sound (rules hrecords agent) x a title where
  before := lasts_sure hxy n L _
  held
    | none => lasts_sure hxy n L _
    | some _ => lasts_sure hxy n L _
  failed := lasts_own x L
  opened _ hw := hw
  remember o id w v hw haside := by
    subst hname
    have hafter : ∀ {C}, Sure hrecords a.name x y n L C w →
        ((rules hrecords a.name).pact x).grant w v ∧ (rules hrecords a.name).Own x L v :=
      fun hw => hw.change hxy haside.journal
    have hbusy : ∀ {C}, Sure hrecords a.name x y n L C w → v.journal.Busy p a.name y n :=
      fun hw => haside.journal ▸ hw.busy
    have hsession : v.sessions.get? a.name = some id := by
      rw [haside.sessions]
      exact KeyMap.get?_insert_self a.name id w.sessions
    cases o with
    | none => exact ⟨⟨(hafter hw).2, hbusy hw, fun _ _ => hsession⟩, (hafter hw).1⟩
    | some _ => exact ⟨⟨(hafter hw).2, hbusy hw, fun _ _ => hsession⟩, (hafter hw).1⟩
  record id now w _ hw := by
    subst hname
    intro text bytes v
    have hjournal : v.journal = w.journal := by simp [v, Stages.putting, RunState.journal]
    obtain ⟨hgrant, hown⟩ := Sure.change (v := v) hw hxy hjournal
    refine ⟨hgrant, ?_⟩
    split
    · rename_i receipt hreceipt
      refine ⟨hown, hjournal ▸ hw.busy, fun hone hwell => ?_⟩
      have hsession : v.sessions.get? a.name = some id := hw.sure (hjournal ▸ hone) (hjournal ▸ hwell)
      have hrecord : record a.name v.store.1 = some bytes :=
        hrecords.own a.name bytes "text/markdown" w.store.1 receipt hreceipt
      rw [hsession, hrecord]
      exact .named id title now
    · exact hown
  unrecorded o w hnone hw := by
    rcases hnone with hfalse | rfl
    · rw [hpersists] at hfalse
      cases hfalse
    · exact hw
  fails _ hw := hw.own
  breaks o _ hw := by
    cases o with
    | none => exact hw.own
    | some _ => exact hw.own

/-! ## Programs -/

/-- What is told of a call at a place is granted to its script, and the script still owns the place. -/
theorem own_tell {e : Entry} (hown : (rules hrecords agent).Own x L w)
    (hv : Tracked h p record agent (w.tell e)) (hmark : e.isMark = false) (hplace : x <:+ e.place) :
    ((rules hrecords agent).pact x).grant w (w.tell e) ∧
      (rules hrecords agent).Own x (L ++ [e]) (w.tell e) :=
  ⟨granted (fun _ => hv) (.inl ⟨rfl, rfl⟩) rfl (by simpa using hplace) (by simpa using hmark),
    Rules.own_append hown hv rfl (by simpa using hplace)⟩

/-- A call for another agent tells that it is made and answered. -/
theorem tells_elsewhere (hnamed : Program.Parser.Named p.agents) (hagent : (p.agent? agent).isSome)
    (hxy : x <:+ y) (hcalls : ¬p.Calls agent call) (resume : Bool) :
    (rules hrecords agent).Tells x (h.tellCall p y call resume) (h.callSession p call resume)
      (Asked y call resume) := by
  have hanswer : ∀ {L n w} (r : Except Failure String),
      (rules hrecords agent).Own x (L ++ [.asked y n call resume]) w →
        ((rules hrecords agent).pact x).grant w (w.tell (.answered y n r)) ∧
          (rules hrecords agent).Own x (L ++ [.asked y n call resume, .answered y n r])
            (w.tell (.answered y n r)) := by
    intro L n w r hown
    have hasked : .asked y n call resume ∈ w.journal :=
      mem_of_own hown (List.mem_append_right L List.mem_cons_self)
    have hv : Tracked h p record agent (w.tell (.answered y n r)) := by
      refine hown.1.of_spares ⟨rfl, rfl⟩ rfl (numbered_answer hown.1.numbered hasked r) ?_
      intro z k r' hmem hbusy
      rw [List.mem_singleton, Entry.answered.injEq] at hmem
      obtain ⟨rfl, rfl, _⟩ := hmem
      -- The number stands for this call, which is for another agent.
      obtain ⟨call', resume', hcalls', hmem'⟩ := hbusy.asked
      have heq := hown.1.numbered.unique hasked hmem'
      rw [Entry.asked.injEq] at heq
      exact hcalls (heq.2.2.1 ▸ hcalls')
    have hafter := own_tell hown hv rfl hxy
    rwa [List.append_assoc] at hafter
  refine Rules.tells_call
    (fun L n => elsewhere hrecords agent x (L ++ [.asked y n call resume])) ?_ (fun _ _ _ hw => hw) ?_ ?_ ?_
  · intro L n a hfor
    exact elsewhere_sound hnamed hagent hfor (fun hname => hcalls ⟨a, hfor, hname⟩) x _ call.title
  · intro L w hown
    have hv : Tracked h p record agent (w.tell (.asked y w.journal.length call resume)) :=
      hown.1.of_spares ⟨rfl, rfl⟩ rfl (numbered_ask hown.1.numbered y call resume) (by simp)
    exact own_tell hown hv rfl hxy
  · exact fun L n text w hw => hanswer (.ok text) hw
  · exact fun L n e w hw => hanswer (.error e) hw

/-- A call for the agent tells that it is made and answered, and when it is over, run and record agree. -/
theorem tells_tracked (hnamed : Program.Parser.Named p.agents) {a : Agent}
    (hagent : p.agent? agent = some a) (hpersists : a.persists) (hxy : x <:+ y)
    (hcalls : p.Calls agent call) (resume : Bool) :
    (rules hrecords agent).Tells x (h.tellCall p y call resume) (h.callSession p call resume)
      (Asked y call resume) := by
  refine Rules.tells_call
    (fun L n => tracked hrecords agent x y n (L ++ [.asked y n call resume])) ?_
    (fun _ _ _ hw => hw.own) ?_ ?_ ?_
  · intro L n b hfor
    obtain ⟨b', hfor', hname⟩ := hcalls
    rw [hfor, Except.ok.injEq] at hfor'
    subst hfor'
    refine tracked_sound hxy n _ hname ?_ call.title
    rcases Program.agentFor_cases hnamed hfor with hsome | ⟨_, hnone⟩
    · rw [hname, hagent, Option.some.injEq] at hsome
      exact hsome ▸ hpersists
    · rw [hname, hagent] at hnone
      cases hnone
  · intro L w hown
    have hbusy := busy_ask hown.1.numbered y resume hcalls
    have hv : Tracked h p record agent (w.tell (.asked y w.journal.length call resume)) :=
      of_busy (numbered_ask hown.1.numbered y call resume) hbusy
    obtain ⟨hgrant, hafter⟩ := own_tell hown hv rfl hxy
    refine ⟨hgrant, hafter, hbusy, fun hone hwell => ?_⟩
    exact hown.1.agreed hone.of_append hwell.of_append
      (hone w.journal [] y w.journal.length call resume rfl hcalls)
  · intro L n text w hw
    have hasked : .asked y n call resume ∈ w.journal :=
      mem_of_own hw.own (List.mem_append_right L List.mem_cons_self)
    have hv : Tracked h p record agent (w.tell (.answered y n (.ok text))) :=
      ⟨numbered_answer hw.own.1.numbered hasked _,
        fun hone hwell _ => hw.sure hone.of_append hwell.of_append⟩
    have hafter := own_tell hw.own hv rfl hxy
    rwa [List.append_assoc] at hafter
  · intro L n e w hown
    have hasked : .asked y n call resume ∈ w.journal :=
      mem_of_own hown (List.mem_append_right L List.mem_cons_self)
    have hv : Tracked h p record agent (w.tell (.answered y n (.error e))) :=
      ⟨numbered_answer hown.1.numbered hasked _, fun _ hwell _ =>
        absurd (List.mem_append_right _ List.mem_cons_self)
          (hwell y n call resume e hcalls (List.mem_append_left _ hasked))⟩
    have hafter := own_tell hown hv rfl hxy
    rwa [List.append_assoc] at hafter

/-- A program that was read keeps the rules, for each of its agents that persist. -/
theorem kept_rules (hrecords : h.KeepsRecords p record) (hnamed : Program.Parser.Named p.agents)
    {a : Agent} (hagent : p.agent? agent = some a) (hpersists : a.persists) :
    (rules hrecords agent).Kept p where
  write x y name kind text hxy := Rules.tells_write (writes hxy name kind text)
  call x y call resume hxy := by
    by_cases hcalls : p.Calls agent call
    · exact tells_tracked hnamed hagent hpersists hxy hcalls resume
    · exact tells_elsewhere hnamed (by rw [hagent]; rfl) hxy hcalls resume

/-- Before a run, neither knows of a session. -/
theorem tracked_start (inputs : KeyMap String) (backend : τ) {store : κ} (sink : δ)
    (hnone : record agent store = none) :
    Tracked h p record agent (h.toldStart p inputs (.fresh backend store sink) []) where
  numbered := Journal.numbered_nil
  agreed _ _ _ := by
    show Agreed h agent none (record agent store)
    rw [hnone]
    exact .never

end

end Tracked

/-! ## Resuming -/

/-- What an agent's record gives to resume agrees with what the run knows, if the id can be read from a record. -/
theorem Agreed.read {h : Host τ η κ δ} {agent : String} {session : Option String}
    {record : Option (List UInt8)} (hagreed : Agreed h agent session record)
    (hid : ∀ id, session = some id → Recordable id) : record.bind sessionIdOfBytes? = session := by
  cases hagreed with
  | never => rfl
  | named id title now => exact sessionIdOfBytes?_text _ (hid id rfl)

/-- Whatever the timing of a run of a program that was read: as long as the calls for an agent that persists have followed one another
    and gone well, the run knows the same session of the agent as its record names, whenever no call for it is under way. -/
theorem resumes_agree {h : Host τ η κ δ} {source : String} {p : Program}
    (hparse : Program.parse source = .ok p) {record : String → κ → Option (List UInt8)}
    (hrecords : h.KeepsRecords p record) (inputs : KeyMap String) (limit : Option Nat) (backend : τ)
    (store : κ) (sink : δ) (hnone : ∀ name, record name store = none) :
    (∀ w, h.Passes limit 0 true (h.begun p inputs (.fresh backend store sink)).1
        (h.begun p inputs (.fresh backend store sink)).2 w →
      ∃ l, h.Tale p inputs limit (.fresh backend store sink) [] l w) ∧
    ∀ l w, h.Tale p inputs limit (.fresh backend store sink) [] l w →
      ∀ agent a, p.agent? agent = some a → a.persists →
        l.Idle p agent → l.Well p agent → l.OneByOne p agent →
        (∀ id, w.sessions.get? agent = some id → Recordable id) →
        ∀ found, (h.store.get (h.recordKey agent) w.store).1 = .ok found →
          found.bind sessionIdOfBytes? = w.sessions.get? agent := by
  refine ⟨fun w hw => Host.tale_of_moment hw, ?_⟩
  intro l w htale agent a hagent hpersists hidle hwell hone hid found hfound
  have hkept := Tracked.kept_rules hrecords (Program.parse_named hparse) hagent hpersists
  obtain ⟨hw, _⟩ := htale.inv hkept (Tracked.tracked_start inputs backend sink (hnone agent))
  rw [hrecords.read agent w.store found hfound]
  exact (hw.agreed hone hwell hidle).read hid

/-! ## Trials -/

/-- Whether a journal tells of an entry that it is settled: a call has been answered, and no answer is a failure. -/
def Entry.isSettled (l : Journal) : Entry → Bool
  | .asked x n _ _ => l.any fun
    | .answered y k _ => y == x && k == n
    | _ => false
  | .answered _ _ (.error _) => false
  | _ => true

/-- Whether a journal tells that all calls so far have been answered and have gone well. -/
def Journal.isSettled (l : Journal) : Bool :=
  l.all (Entry.isSettled l)

/-- Whether each call that a journal tells of was made when all calls before were settled. -/
def Journal.isOrderly (l : Journal) : Bool :=
  (List.range l.length).all fun i => match l[i]? with
    | some (.asked _ _ _ _) => Journal.isSettled (l.take i)
    | _ => true

namespace Journal

variable {p : Program} {agent : String} {l : Journal}

theorem idle_of_isSettled (h : l.isSettled) : l.Idle p agent := by
  rintro x n ⟨⟨call, resume, _, hmem⟩, hnone⟩
  obtain ⟨e, he, hanswer⟩ := List.any_eq_true.1 (List.all_eq_true.1 h _ hmem)
  split at hanswer
  · rename_i y k r
    rw [Bool.and_eq_true, beq_iff_eq, beq_iff_eq] at hanswer
    exact hnone r (hanswer.1 ▸ hanswer.2 ▸ he)
  · cases hanswer

theorem well_of_isSettled (h : l.isSettled) : l.Well p agent :=
  fun _ _ _ _ _ _ _ hmem => Bool.noConfusion (List.all_eq_true.1 h _ hmem)

theorem oneByOne_of_isOrderly (h : l.isOrderly) : l.OneByOne p agent := by
  rintro l₁ l₂ x n call resume rfl _
  have hfirst := List.all_eq_true.1 h l₁.length (by simp)
  rw [List.getElem?_append_right (Nat.le_refl _), Nat.sub_self] at hfirst
  simp only [List.getElem?_cons_zero, List.take_left] at hfirst
  exact idle_of_isSettled hfirst

end Journal

/-- What is found in the store of a trial, if reads are not refused. -/
theorem Host.trial_get (key : String) {w : RefusingStore} (hreads : w.refusesGets = false) :
    (Host.trial.store.get key w).1 = .ok (w.content.get? key) := by
  show (if w.refusesGets then _ else _ : Except Failure (Option (List UInt8)) × _).1 = _
  rw [hreads]
  rfl

/-- A program whose second call resumes the session of the first. -/
def Program.resuming : Program :=
  ⟨[], [("a", ⟨"a", none, none, some "true"⟩)],
    [.session ⟨some "a", "One"⟩, .resume ⟨some "a", "Two"⟩]⟩

/-- Before a trial in which the session gets another id when it is resumed. -/
def RunState.renaming : RunState Rehearsal RefusingStore Unit :=
  .trial [("Two", [{ Part.plain with turns := some [(50, .ok ⟨some "s-9", none, none, none⟩)] }])] []

/-- In the end both know the new id. -/
theorem resumes_agree_renamed : ∃ l w, Host.trial.Tale .resuming [] none .renaming [] l w ∧
    w.sessions.get? "a" = some "s-9" ∧
    ∃ found, (Host.trial.store.get (Host.trial.recordKey "a") w.store).1 = .ok found ∧
      found.bind sessionIdOfBytes? = some "s-9" := by
  have hparse : Program.parse "agent a:\n  persist: true\nsession: a \"One\"\nresume: a \"Two\"\n" =
      .ok .resuming := rfl
  have hstore : Host.trial.store.InMemory ⟨fun _ => [0], fun _ _ => [0]⟩ (·.content) :=
    RefusingStore.inMemory _ _
  obtain ⟨_, hagree⟩ := resumes_agree hparse (hstore.keepsRecords .resuming) [] none
    RunState.renaming.backend RunState.renaming.store () fun name => rfl
  have hworked : (Host.trial.journaled.driveWithin none 20 0 true
      (Host.trial.toldStart .resuming [] .renaming []) (Host.trial.toldThread .resuming [])).any
        (fun w => w.1.journal.isSettled && w.1.journal.isOrderly &&
          w.1.sessions.get? "a" == some "s-9" && !w.1.store.1.refusesGets) = true := by
    decide +kernel
  obtain ⟨w, hwithin, hw⟩ := (Option.any_eq_true _ _).1 hworked
  simp only [Bool.and_eq_true, beq_iff_eq, Bool.not_eq_true'] at hw
  obtain ⟨⟨⟨hsettled, horderly⟩, hsession⟩, hreads⟩ := hw
  have htale := Host.tale_of_within hwithin
  have hid : ∀ id, w.1.sessions.get? "a" = some id → Recordable id := by
    intro id hid
    rw [hsession, Option.some.injEq] at hid
    rw [← hid]
    exact ⟨by decide, by decide, by decide⟩
  have hfound := Host.trial_get (Host.trial.recordKey "a") hreads
  exact ⟨w.1.journal, w.1.plain, htale, hsession, _, hfound, (hagree _ _ htale "a" _ rfl (by decide)
    (Journal.idle_of_isSettled hsettled) (Journal.well_of_isSettled hsettled)
    (Journal.oneByOne_of_isOrderly horderly) hid _ hfound).trans hsession⟩

/-- A program with two calls for one agent side by side. -/
def Program.overlapping : Program :=
  ⟨[], [("a", ⟨"a", none, none, some "true"⟩)], [.parallel .failFast
    [.mk none (.session ⟨some "a", "One"⟩), .mk none (.session ⟨some "a", "Two"⟩)]]⟩

/-- When calls for an agent overlap, the run knows the session that was opened last, and the record names the one that was over last. -/
theorem overlapping_resumes_differ :
    Program.parse "agent a:\n  persist: true\nparallel:\n  session: a \"One\"\n  session: a \"Two\"\n" =
      .ok .overlapping ∧
    ∃ l w a, Host.trial.Tale .overlapping [] none .slowFirst [] l w ∧
      (∀ agent, l.Idle .overlapping agent ∧ l.Well .overlapping agent) ∧
      Program.overlapping.agent? "a" = some a ∧ a.persists ∧ Recordable "s-1" ∧ Recordable "s-2" ∧
      w.sessions.get? "a" = some "s-2" ∧
      ∃ found, (Host.trial.store.get (Host.trial.recordKey "a") w.store).1 = .ok found ∧
        found.bind sessionIdOfBytes? = some "s-1" := by
  refine ⟨rfl, ?_⟩
  have hworked : (Host.trial.journaled.driveWithin none 20 0 true
      (Host.trial.toldStart .overlapping [] .slowFirst []) (Host.trial.toldThread .overlapping [])).any
        (fun w => w.1.journal.isSettled && w.1.sessions.get? "a" == some "s-2" &&
          !w.1.store.1.refusesGets &&
          (w.1.store.1.content.get? (Host.trial.recordKey "a")).bind sessionIdOfBytes? == some "s-1") =
            true := by
    decide +kernel
  obtain ⟨w, hwithin, hw⟩ := (Option.any_eq_true _ _).1 hworked
  simp only [Bool.and_eq_true, beq_iff_eq, Bool.not_eq_true'] at hw
  obtain ⟨⟨⟨hsettled, hsession⟩, hreads⟩, hrecord⟩ := hw
  exact ⟨w.1.journal, w.1.plain, _, Host.tale_of_within hwithin,
    fun agent => ⟨Journal.idle_of_isSettled hsettled, Journal.well_of_isSettled hsettled⟩, rfl,
    by decide, ⟨by decide, by decide, by decide⟩, ⟨by decide, by decide, by decide⟩, hsession, _,
    Host.trial_get _ hreads, hrecord⟩

end Playbook
