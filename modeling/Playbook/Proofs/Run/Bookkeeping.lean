import Playbook.Proofs.Run.Books
import Playbook.Proofs.Run.Heard

/-!
# `Proofs.Run.Bookkeeping` — the books of a run balance

Whatever a run does keeps its books balanced, and when its program has come to its end nothing is under way any more. Then every session
that was opened is done with, and the counters and the usage are what the logs say.

## Contents
- **Tallies.** `Tally.Counts`: the usage in a tally is that of the turns that it has taken in, once for each message.
- **Calls.** `stakes_openSession`, `stakes_listen`, `stakes_converse`; `even_callSession`, `even_writeBinding`.
- **Programs.** `even_exec` and `even_script`, by the forms of statements.
- **Runs.** `steady_balanced`, `run_balanced`.
-/

namespace Playbook

variable {τ η κ δ α : Type}

/-! ## Tallies -/

namespace Tally

/-- What a tally has counted of some records of usage. -/
structure Counts (us : List Usage) (tally : Tally) : Prop where
  usage : tally.usage = Usage.sum (Usage.perMessage us)
  messages : ∀ id, tally.seenMessages.contains id = (Usage.perMessage us).any (·.messageId = some id)

variable {tally : Tally} {us : List Usage}

theorem counts_empty : empty.Counts [] :=
  ⟨rfl, fun _ => rfl⟩

/-- A record is counted if none of its message has been. -/
theorem Counts.recordUsage (h : tally.Counts us) (u : Usage) : (tally.recordUsage u).1.Counts (us ++ [u]) := by
  -- A record without an id is always counted; for others the tally remembers the ids.
  cases hid : u.messageId with
  | none =>
    have hkept : Usage.perMessage (us ++ [u]) = Usage.perMessage us ++ [u] := by
      simp [Usage.perMessage_concat, Usage.sameMessage, hid]
    simp only [Tally.recordUsage, hid]
    refine ⟨?_, fun id => ?_⟩
    · rw [hkept, Usage.sum_concat, ← h.usage]
    · rw [hkept, List.any_append, ← h.messages]
      simp [hid]
  | some own =>
    have hsame : (Usage.perMessage us).any u.sameMessage = tally.seenMessages.contains own := by
      rw [h.messages]
      congr 1
      funext v
      simp [Usage.sameMessage, hid, Bool.beq_eq_decide_eq, eq_comm]
    simp only [Tally.recordUsage, hid]
    split
    · rename_i hseen
      have hkept : Usage.perMessage (us ++ [u]) = Usage.perMessage us := by
        rw [Usage.perMessage_concat, hsame, if_pos hseen]
      exact ⟨by rw [hkept, ← h.usage], fun id => by rw [hkept, ← h.messages]⟩
    · rename_i hseen
      have hkept : Usage.perMessage (us ++ [u]) = Usage.perMessage us ++ [u] := by
        rw [Usage.perMessage_concat, hsame, if_neg hseen]
      refine ⟨?_, fun id => ?_⟩
      · rw [hkept, Usage.sum_concat, ← h.usage]
      · rw [hkept, List.any_append, ← h.messages, List.contains_cons, Bool.or_comm]
        simp [hid, Bool.beq_eq_decide_eq, eq_comm]

/-- What a turn adds to a tally. -/
theorem Counts.turn (h : tally.Counts us) (t : Turn) : (tally.withTurn t).Counts (us ++ t.usage.toList) := by
  have hcounted : ((tally.addText (t.text.getD "")).countUsage t.usage).1.Counts (us ++ t.usage.toList) := by
    replace h : (tally.addText (t.text.getD "")).Counts us := ⟨h.usage, h.messages⟩
    cases t.usage with
    | none => simpa [countUsage] using h
    | some u => exact h.recordUsage u
  unfold withTurn
  cases t.event with
  | none => exact hcounted
  | some e => exact ⟨(accept_usage e).trans hcounted.usage, fun id => by
      rw [← hcounted.messages, Option.elim_some, accept_messages]⟩

end Tally

/-! ## Calls -/

namespace Host

variable {h : Host τ η κ δ} {start : RunState τ κ δ} {a : Underway}

/-- A call that takes its time and changes the books. -/
theorem stakes_perform {c : Backend.Call (η × Nat)} {f : τ × CallLog → α × (τ × CallLog)} (b : τ × CallLog → Underway)
    {post : α → Underway → Prop}
    (hf : ∀ (s : RunState.Logged τ κ δ) rest, Balanced start (a + rest) s →
      Balanced start (b s.backend + rest) { s with backend := (f s.backend).2 } ∧ post (f s.backend).1 (b s.backend)) :
    Script.Stakes (Balanced start) a (h.logged.perform c f) fun r b => ∃ x, r = .ok x ∧ post x b := by
  refine .afterPause (.act (fun s => b s.backend) fun s rest hs => ?_)
  obtain ⟨hbalanced, hpost⟩ := hf s rest hs
  exact ⟨hbalanced, _, rfl, hpost⟩

/-- What is under way when a session has been asked for. -/
def Opening (args : SessionArgs) (prior : Option String) : Except Failure (η × Nat) → Underway → Prop
  | .ok session, b => b = .session session.2 [.opened session.2 args prior]
  | .error _, b => b = 0

/-- To ask for a session opens one, or does not. -/
theorem stakes_ask {c : Backend.Call (η × Nat)} (args : SessionArgs) (prior : Option String) (f : τ → Except Failure η × τ) :
    Script.Stakes (Balanced start) (.asking prior)
      (h.logged.perform c (fun s => Backend.logOpening args prior (f s.1) s.2) >>= Script.ofExcept) (Opening args prior) := by
  refine .bindOk (stakes_perform (fun s => if (f s.1).1.isOk then .session s.2.length [.opened s.2.length args prior] else 0)
    fun s rest hs => ?_) fun r b hb => .ofExcept hb
  cases hr : f s.backend.1 with
  | mk r t =>
    cases r with
    | ok session => exact ⟨hs.opened t args, rfl⟩
    | error e =>
      refine ⟨?_, rfl⟩
      show Balanced start (0 + rest) _
      rw [zero_add]
      exact hs.refused t args

theorem stakes_openSession (args : SessionArgs) (prior : Option String) :
    Script.Stakes (Balanced start) 0 (h.logged.openSession args prior) (Opening args prior) := by
  cases prior with
  | none =>
    refine .afterUpdate (.asking none) (fun s rest hs => ?_) (stakes_ask args none (h.backend.create args))
    rw [zero_add] at hs
    exact hs.count_created
  | some id =>
    refine .afterUpdate (.asking (some id)) (fun s rest hs => ?_) (stakes_ask args (some id) (h.backend.resume args id))
    rw [zero_add] at hs
    exact hs.count_resumed id

/-- A session that has been asked for its answer and has given some turns of it. -/
def listening (n : Nat) (args : SessionArgs) (prior : Option String) (prompt : String) (turns : List Turn) : CallLog :=
  [.opened n args prior, .sent n prompt true, .streamed n true] ++ turns.map (.turned n)

section

variable (n : Nat) (args : SessionArgs) (prior : Option String) (prompt : String)

theorem listening_concat (turns : List Turn) (t : Turn) :
    listening n args prior prompt turns ++ [.turned n t] = listening n args prior prompt (turns ++ [t]) := by
  rw [listening, listening, List.append_assoc, List.map_append, List.map_singleton]

theorem drained_not_mem_listening (turns : List Turn) : .drained n ∉ listening n args prior prompt turns := by
  simp [listening]

theorem usage_listening (turns : List Turn) :
    (listening n args prior prompt turns).usage = Usage.sum (Usage.perMessage (turns.filterMap (·.usage))) := by
  have hturns : (turns.map (CallEntry.turned n)).filterMap (·.turn?) = turns := by
    induction turns with
    | nil => rfl
    | cons t turns ih => rw [List.map_cons, List.filterMap_cons, CallEntry.turn?, ih]
  rw [CallLog.usage, listening, List.filterMap_append, hturns]
  rfl

/-- What is under way when there is nothing left to do with a session but to close it, given what came of its answer. -/
def Concluded (n : Nat) : Except Failure Hearing → Underway → Prop
  | .ok l, b => ∃ w, Whole n (w ++ [.closed n]) ∧ b = .session n w + .usage l.tally.usage
  | .error _, b => ∃ w, Whole n (w ++ [.closed n]) ∧ b = .session n w

/-- An answer is read, turn by turn. -/
theorem stakes_listen (agent : String) (stream : TurnStream τ) (turns : List Turn) (l : Hearing)
    (hl : l.tally.Counts (turns.filterMap (·.usage))) :
    Script.Stakes (Balanced start) (.session n (listening n args prior prompt turns)) (h.logged.listen agent (stream.logged n) l)
      (Concluded n) := by
  -- The turns read so far are in the log, and the tally has counted them.
  induction stream generalizing turns l with
  | finished leave =>
    have hwhole : Whole n (listening n args prior prompt turns ++ [.drained n] ++ [.closed n]) := by
      rw [List.append_assoc]
      exact .heard args prior prompt turns
    refine .afterUpdate (.session n (listening n args prior prompt turns ++ [.drained n]) + .usage l.tally.usage)
      (fun s rest hs => ?_) (.pure ⟨_, hwhole, rfl⟩)
    rw [add_assoc, hl.usage, ← usage_listening n args prior prompt]
    exact hs.drained _
  | next ms take rest ih =>
    refine .afterPause (.afterAct (fun s => match (take s.backend.1).1 with
      | .ok t => .session n (listening n args prior prompt (turns ++ [t]))
      | .error _ => .session n (listening n args prior prompt turns ++ [.broke n])) fun s others hs => ?_)
    unfold takeTurn
    cases hr : take s.backend.1 with
    | mk r t =>
      cases r with
      | error e =>
        have hwhole : Whole n (listening n args prior prompt turns ++ [.broke n] ++ [.closed n]) := by
          rw [List.append_assoc]
          exact .cut args prior prompt turns
        simp only [hr]
        exact ⟨hs.next t rfl rfl rfl (.inl rfl), .afterError ⟨_, hwhole, rfl⟩⟩
      | ok turn =>
        simp only [hr]
        have hnext := hs.next t (e := .turned n turn) rfl rfl rfl (.inr (drained_not_mem_listening n args prior prompt turns))
        rw [listening_concat] at hnext
        refine ⟨hnext.hear _ agent turn l, .afterOk (ih turn t (turns ++ [turn]) _ ?_)⟩
        have husages : (turns ++ [turn]).filterMap (·.usage) = turns.filterMap (·.usage) ++ turn.usage.toList := by
          cases hu : turn.usage <;> simp [hu]
        rw [hear_fst, husages]
        exact hl.turn turn

/-- What comes of a session that is to be closed. -/
def ToClose (n : Nat) (r : Except Failure (Except Failure Hearing × (η × Nat))) (b : Underway) : Prop :=
  ∃ x, r = .ok x ∧ x.2.2 = n ∧ Concluded n x.1 b

theorem stakes_readAnswer (agent : String) (id : Option String) (x : η) :
    Script.Stakes (Balanced start) (.session n [.opened n args prior, .sent n prompt true]) (h.logged.readAnswer agent id (x, n))
      (ToClose n) := by
  refine .afterAct (fun s => .session n [.opened n args prior, .sent n prompt true,
    .streamed n (h.backend.stream x s.backend.1).1.isOk]) fun s others hs => ⟨hs.next _ rfl rfl rfl (.inl rfl), ?_⟩
  simp only [logged, Backend.logged]
  cases (h.backend.stream x s.backend.1).1 with
  | error e => exact .pure ⟨_, rfl, rfl, _, .unanswered args prior prompt, rfl⟩
  | ok stream =>
    have hlisten : Script.Stakes (Balanced start) (.session n (listening n args prior prompt []))
        (h.logged.listen agent (stream.logged n) ⟨.empty, id⟩) (Concluded n) :=
      stakes_listen n args prior prompt agent stream [] ⟨.empty, id⟩ Tally.counts_empty
    exact .bindOk hlisten.hold fun r b hb => .pure ⟨_, rfl, rfl, hb⟩

theorem stakes_keepOpened (agent : String) (id : Option String) :
    Script.Stakes (Balanced start) a (keepOpened agent id : Work (τ × CallLog) (κ × List Deposit) δ Unit)
      fun r b => ∃ x, r = .ok x ∧ b = a := by
  cases id with
  | none => exact .pure ⟨(), rfl, rfl⟩
  | some id =>
    refine .update a (fun s rest hs => ?_) ⟨(), rfl, rfl⟩
    exact hs.aside ..

/-- A session is sent its prompt, and if it takes that its answer is read. -/
theorem stakes_converse (agent : String) (id : Option String) (x : η) :
    Script.Stakes (Balanced start) (.session n [.opened n args prior]) (h.logged.converse agent prompt id (x, n)) (ToClose n) := by
  refine .bindOk (stakes_keepOpened agent id) fun _ b hb => ?_
  rw [hb]
  -- How the prompt is taken decides what has been done with the session.
  have hsend : Script.Stakes (Balanced start) (.session n [.opened n args prior])
      (h.logged.perform (.send (x, n) prompt) fun backend =>
        ((((h.logged.backend.send prompt (x, n) backend).1), (h.logged.backend.send prompt (x, n) backend).2.1),
          (h.logged.backend.send prompt (x, n) backend).2.2))
      fun r b => ∃ sent : Except Failure Unit × (η × Nat), r = .ok sent ∧ sent.2.2 = n ∧
        b = .session n [.opened n args prior, .sent n prompt sent.1.isOk] :=
    stakes_perform (fun s => .session n [.opened n args prior, .sent n prompt (h.backend.send prompt x s.1).1.isOk])
      fun s rest hs => ⟨hs.next _ rfl rfl rfl (.inl rfl), rfl, rfl⟩
  refine .bindOk hsend ?_
  rintro ⟨sent, y, m⟩ b ⟨hm, hb⟩
  simp only at hm
  subst hm hb
  cases sent with
  | error e => exact .pure ⟨_, rfl, rfl, _, .unsent args prior prompt, rfl⟩
  | ok _ => exact stakes_readAnswer m args prior prompt agent id y

end

/-- A session for which there is nothing left to do is closed. -/
theorem stakes_closeSession {n : Nat} {w : CallLog} (hw : Whole n (w ++ [.closed n])) (b : Underway) (x : η) :
    Script.Stakes (Balanced start) (.session n w + b) (h.logged.closeSession (x, n)) fun r left => ∃ y, r = .ok y ∧ left = b := by
  refine stakes_perform (fun _ => b) fun s rest hs => ⟨?_, rfl⟩
  rw [add_assoc] at hs
  exact (hs.next _ rfl rfl rfl (.inl rfl)).leave hw

/-- What is put into the store is the text of a binding if its key says so. -/
theorem isBinding_bindingKey (runId name : String) (k : Nat) (bytes : List UInt8) (mime : String) :
    (⟨bindingKey runId name k, bytes, mime⟩ : Deposit).isBinding = true := by
  simp [Deposit.isBinding, bindingKey]

theorem isBinding_memoryKey (runId principal agent : String) (bytes : List UInt8) (mime : String) :
    (⟨memoryKey runId principal agent, bytes, mime⟩ : Deposit).isBinding = false := by
  simp [Deposit.isBinding, memoryKey, List.isPrefixOf]

theorem even_storeGet (key : String) : Script.Even (Balanced start) (h.logged.storeGet key) := by
  refine .afterPause (.afterAct (fun _ => 0) fun s rest hs => ⟨?_, .ofExcept rfl⟩)
  exact hs.aside ..

/-- A binding is counted, and its text is put into the store. -/
theorem even_writeBinding (name : String) (kind : BindingKind) (text : String) :
    Script.Even (Balanced start) (h.logged.writeBinding name kind text) := by
  refine .afterAct (fun _ => .text) fun s rest hs => ⟨?_, ?_⟩
  · rw [zero_add] at hs
    exact hs.count_written
  · have hput : ∀ k bytes mime, Script.Stakes (Balanced start) .text
        (h.logged.storePut (bindingKey h.context.runId name k) bytes mime) fun _ b => b = 0 := by
      refine fun k bytes mime => .afterPause (.afterAct (fun _ => 0) fun s rest hs => ⟨?_, .ofExcept rfl⟩)
      rw [zero_add]
      exact hs.put_text _ (isBinding_bindingKey ..)
    refine .bind (hput _ _ _) (fun receipt b hb => ?_) fun e b hb => hb
    subst hb
    refine .update 0 (fun s rest hs => ?_) rfl
    exact hs.aside ..

theorem even_priorSession (agent : Agent) (resume : Bool) :
    Script.Even (Balanced start) (h.logged.priorSession agent resume) := by
  unfold priorSession
  split
  · refine .bind (.observe _) fun known => ?_
    split
    · exact .pure _
    · exact .bind (even_storeGet _) fun bytes => .pure _
  · exact .pure none

/-- A record that an agent leaves is no text of a binding. -/
theorem even_recordHeard (agent : Agent) (l : Hearing) (title : String) :
    Script.Even (Balanced start) (h.logged.recordHeard agent l title) := by
  unfold recordHeard
  split
  · refine .bind (.observe _) fun now => .bind (.afterPause (.afterAct (fun _ => 0) fun s rest hs => ⟨?_, .ofExcept rfl⟩)) fun _ => .pure ()
    exact hs.put_other _ (isBinding_memoryKey ..)
  · exact .pure ()

/-- A session call leaves no session open and no usage owed, however it goes. -/
theorem even_callSession (p : Program) (call : SessionCall) (resume : Bool) :
    Script.Even (Balanced start) (h.logged.callSession p call resume) := by
  refine .bind (.ofExcept _) fun agent => .bind (even_priorSession agent resume) fun prior => .bind (.observe _) fun prompt => ?_
  -- From the opening to the closing the session is held, whatever comes of it.
  refine .bindOk (stakes_openSession _ prior).hold fun opened b hopened => ?_
  cases opened with
  | error e => exact .afterError hopened
  | ok session =>
    obtain ⟨x, n⟩ := session
    simp only [Opening] at hopened
    subst hopened
    refine .afterOk (.bindOk (stakes_converse n _ prior prompt agent.name _ x) ?_)
    rintro ⟨answer, y, m⟩ b ⟨hm, hconcluded⟩
    simp only at hm hconcluded
    subst hm
    cases answer with
    | error e =>
      obtain ⟨w, hw, rfl⟩ := hconcluded
      rw [← add_zero (Underway.session m w)]
      exact .bindOk (stakes_closeSession hw 0 y) fun _ left hleft => .afterError hleft
    | ok heard =>
      obtain ⟨w, hw, rfl⟩ := hconcluded
      refine .bindOk (stakes_closeSession hw _ y) fun _ left hleft => ?_
      rw [hleft]
      have hrecorded : Script.Even (Balanced start)
          (h.logged.recordHeard agent heard call.title >>= fun _ => pure heard.tally.finalResult) :=
        .bind (even_recordHeard agent heard call.title) fun _ => .pure _
      refine .afterOk (.afterUpdate 0 (fun s rest hs => ?_) hrecorded)
      rw [zero_add]
      exact hs.settle

/-! ## Programs -/

variable (h start) (p : Program)

theorem even_begin : Script.Even (Balanced start) (begin : Work (τ × CallLog) (κ × List Deposit) δ Unit) :=
  .update fun _ _ hs => hs.aside ..

theorem even_eval (value : Expr) : Script.Even (Balanced start) (h.logged.eval p value) := by
  cases value with
  | str value => exact .pure value
  | var name =>
    refine .bind (.observe _) fun known => ?_
    cases known with
    | none => exact .fail _
    | some text => exact .pure text
  | session call => exact even_callSession p call false
  | resume call => exact even_callSession p call true

theorem even_bindSession (name : String) (call : SessionCall) (resume : Bool) :
    Script.Even (Balanced start) (h.logged.bindSession p name call resume) :=
  .bind (even_begin start) fun _ => .bind (even_callSession p call resume) fun text => even_writeBinding name .assigned text

theorem even_bindValue (name : String) (kind : BindingKind) (value : Expr) :
    Script.Even (Balanced start) (h.logged.bindValue p name kind value) :=
  .bind (even_eval h start p value) fun text => even_writeBinding name kind text

theorem even_handle (catchName : Option String) {handler : Option (Work (τ × CallLog) (κ × List Deposit) δ Unit)}
    (hhandler : ∀ s ∈ handler, Script.Even (Balanced start) s) (outcome : Outcome) :
    Script.Even (Balanced start) (h.logged.handle catchName handler outcome) := by
  cases outcome with
  | ok _ => exact .pure ()
  | error e =>
    cases handler with
    | none => exact .fail e
    | some s =>
      unfold handle
      simp only
      split
      · refine .bind ?_ fun _ => hhandler s rfl
        cases catchName with
        | none => exact .pure ()
        | some name => exact even_writeBinding name .assigned e.message
      · exact .fail e

theorem even_guard {body : Work (τ × CallLog) (κ × List Deposit) δ Unit} (catchName : Option String)
    {handler final : Option (Work (τ × CallLog) (κ × List Deposit) δ Unit)} (hbody : Script.Even (Balanced start) body)
    (hhandler : ∀ s ∈ handler, Script.Even (Balanced start) s) (hfinal : ∀ s ∈ final, Script.Even (Balanced start) s) :
    Script.Even (Balanced start) (h.logged.guard body catchName handler final) := by
  refine .bind hbody.hold fun outcome => .bind (even_handle h start catchName hhandler outcome).hold fun outcome => .bind ?_ fun _ =>
    .ofExcept outcome
  cases final with
  | none => exact .pure ()
  | some s => exact hfinal s rfl

mutual

/-- A statement has nothing under way when it begins or when it ends. -/
theorem even_exec : ∀ stmt, Script.Even (Balanced start) (h.logged.exec p stmt)
  | .comment _ => even_begin start
  | .session call => .bind (even_begin start) fun _ => .bind (even_callSession p call false) fun _ => .pure ()
  | .resume call => .bind (even_begin start) fun _ => .bind (even_callSession p call true) fun _ => .pure ()
  | .assign name value => .bind (even_begin start) fun _ => even_bindValue h start p name .assigned value
  | .output name value => .bind (even_begin start) fun _ => even_bindValue h start p name .output value
  | .attempt body catchName handler final =>
    .bind (even_begin start) fun _ =>
      even_guard h start catchName (even_execBlock body) (even_execOptional handler) (even_execOptional final)
  | .parallel _ branches =>
    .bind (even_begin start) fun _ => .bind (.together (even_execBranches branches)) fun _ => .ofExcept _
  | .loop count body => .bind (even_begin start) fun _ => .repeatTimes (even_execBlock body) count.toNat

theorem even_execBlock : ∀ block, Script.Even (Balanced start) (h.logged.execBlock p block)
  | [] => .pure ()
  | stmt :: rest => .bind (even_exec stmt) fun _ => even_execBlock rest

theorem even_execOptional : ∀ block, ∀ s ∈ h.logged.execOptional p block, Script.Even (Balanced start) s
  | none, _, hs => nomatch hs
  | some block, s, hs => by
    rw [execOptional, Option.mem_some_iff] at hs
    exact hs ▸ even_execBlock block

theorem even_execBranch : ∀ branch, Script.Even (Balanced start) (h.logged.execBranch p branch)
  | .mk name stmt => by
    have hexec : Script.Even (Balanced start) (h.logged.exec p stmt) := even_exec stmt
    cases name with
    | none => simpa only [execBranch] using hexec
    | some name =>
      cases stmt with
      | session call => exact even_bindSession h start p name call false
      | resume call => exact even_bindSession h start p name call true
      | _ => simpa only [execBranch] using hexec

theorem even_execBranches : ∀ branches, ∀ s ∈ h.logged.execBranches p branches, Script.Even (Balanced start) s
  | [], _, hs => nomatch hs
  | branch :: rest, s, hs => by
    rw [execBranches, List.mem_cons] at hs
    rcases hs with rfl | hs
    · exact even_execBranch branch
    · exact even_execBranches rest s hs

end

theorem even_bindInputs : ∀ inputs, Script.Even (Balanced start) (h.logged.bindInputs inputs)
  | [] => .pure ()
  | (name, text) :: rest => .bind (even_writeBinding name .input text) fun _ => even_bindInputs rest

/-- A program has nothing under way when it begins or when it ends. -/
theorem even_script (inputs : KeyMap String) : Script.Even (Balanced start) (h.logged.script p inputs) :=
  .bind (even_bindInputs h start inputs) fun _ => even_execBlock h start p p.statements

/-! ## Runs -/

theorem steady_balanced : Steady h.logged (Balanced start) where
  catchUp _ now _ hs := hs.course (Outbox.advance_course now)
  giveWay _ standing _ hs := by
    unfold giveWay
    split
    · exact hs.course Outbox.linger_course
    · exact hs

/-- A run that is not cut short comes to an outcome, and its books balance with nothing under way. -/
theorem run_balanced (inputs : KeyMap String) (horderly : start.outbox.Orderly) :
    (h.logged.run p inputs none start.logged).2.isSome = true ∧
      Balanced start 0 (h.logged.run p inputs none start.logged).1 := by
  have hbegun : Balanced start 0 (h.logged.begun p inputs start.logged).1 := by
    have hstart := Balanced.logged horderly
    have hseq : (start.outbox.start h.courier).seq = start.outbox.seq := Outbox.seq_act (a := .start) (.inl rfl)
    exact ⟨hstart.created, hstart.resumed, hstart.written, congrArg (_ + ·) hseq.symm, horderly.act .start, hstart.minded,
      hstart.paid⟩
  obtain ⟨outcome, b, hresult, hs, hb⟩ := drive_settled (steady_balanced h start) 0 hbegun (even_script h start p inputs).plan
  subst hb
  rw [run_eq_wrapUp]
  simp only [begun] at hresult hs ⊢
  rw [hresult]
  generalize h.logged.drive none 0 true _ _ = last at hs ⊢
  -- The outbox is stopped at last, which gives no numbers.
  have hstop : Outbox.Orderly (last.1.outbox.beginStop h.courier) := hs.orderly.act (c := h.courier) .stop
  have hstopped : (last.1.outbox.beginStop h.courier).seq = last.1.outbox.seq := Outbox.seq_act (a := .stop) (.inl rfl)
  have hsettled := Outbox.settle_course (c := h.courier) (o := last.1.outbox.beginStop h.courier) none
  have hphase : ((last.1.outbox.beginStop h.courier).settle h.courier none).phase ≠ .stopping := Outbox.settle_phase hstop
  rw [wrapUp, finish_of_done h.logged hphase]
  refine ⟨rfl, hs.created, hs.resumed, hs.written, ?_, hsettled.orderly hstop, hs.minded, hs.paid⟩
  have hseq : ((last.1.outbox.beginStop h.courier).settle h.courier none).seq = last.1.outbox.seq := hsettled.seq.trans hstopped
  exact hs.forwarded.trans (congrArg (_ + ·) hseq.symm)

/-- A run holds each of its sessions from its opening to its end, and counts what it does: it sends a session one prompt, asks it once for
    its answer if it took that, and closes it once when the answer has been read or broke off. Its counters are the numbers of sessions
    it asked for, of texts of bindings it put into the store and of numbers that its outbox has given, and its usage is that of the
    sessions that were read to their end. What sessions say when they are closed changes nothing. -/
theorem run_accounted (h : Host τ η κ δ) (p : Program) (inputs : KeyMap String) (backend : τ) (store : κ) (sink : δ) :
    let start : RunState τ κ δ := .fresh backend store sink
    let r := h.logged.run p inputs none start.logged
    (r.1.unlogged, r.2) = h.run p inputs none start ∧ r.2.isSome = true ∧
      (∀ e ∈ r.1.calls, ∀ n, e.session? = some n → Whole n (r.1.calls.about n)) ∧
      r.1.counters.sessionsCreated = r.1.calls.countP (·.asksAnew) ∧
      r.1.counters.sessionsResumed = r.1.calls.countP (·.asksAgain) ∧
      r.1.counters.bindingsWritten = r.1.deposits.countP (·.isBinding) ∧
      r.1.counters.eventsForwarded = r.1.outbox.seq ∧
      r.1.usage = Usage.sum r.1.calls.charges ∧
      ∀ verdict, ({ h with backend := h.backend.closing verdict } : Host τ η κ δ).run p inputs none start = h.run p inputs none start := by
  intro start r
  obtain ⟨hsome, hbalanced⟩ := run_balanced h start p inputs (Outbox.orderly_empty sink)
  refine ⟨h.run_logged p inputs none start, hsome, ?_, ?_, ?_, ?_, ?_, ?_, fun verdict => h.run_closing verdict p inputs none start⟩
  · intro e he n hn
    rcases hbalanced.minded.whole n (Multiset.notMem_zero n) with hnothing | hwhole
    · have hmem : e ∈ r.1.calls.about n := List.mem_filter.2 ⟨he, by simpa using hn⟩
      rw [hnothing] at hmem
      cases hmem
    · exact hwhole
  · exact hbalanced.created.trans (Nat.zero_add _)
  · exact hbalanced.resumed.trans (Nat.zero_add _)
  · exact hbalanced.written.trans (Nat.zero_add _)
  · exact hbalanced.forwarded.trans (Nat.zero_add _)
  · obtain ⟨paid, husage, hpaid⟩ := hbalanced.paid
    have hperm : paid.Perm r.1.calls.charges := Multiset.coe_eq_coe.1 ((add_zero _).symm.trans hpaid)
    exact husage.trans (Usage.foldl_add_perm hperm _)

end Host

end Playbook
