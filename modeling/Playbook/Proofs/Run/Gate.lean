import Playbook.Proofs.Manifest.Verdict
import Playbook.Proofs.Run.Cancellation

/-!
# `Proofs.Run.Gate` — nothing is done for a manifest that is not good

A launch either does nothing at all, or the manifest has passed every check. In the first case the report tells the check that
failed, and backend, store and sink are as they were; as they may be anything, no call has been made to any of them. In the
second case what is run is the program that the manifest holds, and all that comes to the sink bears the names of the manifest
and of the principal for whom the run is held.

## Contents
- **Batches.** `EventBatch.Names`, and `Courier.brought`, what a sink becomes by batches.
- **Runs.** `Brought`: whenever and however a run ends, it has sent nothing but batches that name it (`Host.run_brought`).
- **Gate.** `Admits` and `Refuses`, of which one holds (`prepare_cases`).
- **Statement.** `Ran`, `Rejected`, and `launch_gated`.
-/

namespace Playbook

variable {τ η κ δ : Type}

open Digest (Scheme)
open Outbox (Course Ledger Kept)

/-! ## Batches -/

/-- A batch that names a run, its program and its principal, in itself and in each of its events. -/
structure EventBatch.Names (context : RunContext) (b : EventBatch) : Prop where
  runId : b.runId = context.runId
  programHash : b.programHash = context.programHash
  principalId : b.principalId = context.principalId
  events : ∀ e ∈ b.events, e.runId = context.runId ∧ e.programHash = context.programHash ∧
    e.principalId = context.principalId

/-- What a sink has become by some batches, each of them signed. -/
def Courier.brought (c : Courier δ) (batches : List EventBatch) (sink : δ) : δ :=
  batches.foldl (fun s b => (c.sink.deliver (b.sign c.scheme c.security) s).2) sink

namespace Courier

variable (c : Courier δ)

/-- A batch of events of a run names that run. -/
theorem names_create (postings : List Posting) :
    (EventBatch.create c.context c.config.source (postings.map c.envelope)).Names c.context := by
  refine ⟨rfl, rfl, rfl, fun e he => ?_⟩
  obtain ⟨p, _, rfl⟩ := List.mem_map.1 he
  exact ⟨rfl, rfl, rfl⟩

/-- What an outbox delivers are signed batches that name its run. -/
theorem brought_of_deliveries (parcels : List Outbox.Parcel) (sink : δ) :
    ∃ batches : List EventBatch, (∀ b ∈ batches, b.Names c.context) ∧
      Outbox.deliveries c parcels sink = c.brought batches sink := by
  refine ⟨parcels.map fun p =>
    EventBatch.create c.context c.config.source (p.postings.map c.envelope), fun b hb => ?_, ?_⟩
  · obtain ⟨p, _, rfl⟩ := List.mem_map.1 hb
    exact c.names_create p.postings
  · rw [brought, List.foldl_map]
    rfl

end Courier

/-! ## Runs -/

/-- What a run has sent: signed batches that name it, and nothing else. -/
structure Brought (c : Courier δ) (sink : δ) (o : Outbox δ) : Prop where
  /-- The sink has got such batches. -/
  ended : ∃ batches : List EventBatch, (∀ b ∈ batches, b.Names c.context) ∧
    o.sink = c.brought batches sink
  /-- A batch whose delivery has not ended names the run as well. -/
  underway : ∀ f, o.flight = some f →
    ∃ b : EventBatch, b.Names c.context ∧ f.batch = b.sign c.scheme c.security

/-- Whatever time brings after a stop, the sink has been brought batches of the outbox. -/
theorem Supplied.brought {c : Courier δ} {sink : δ} {s : RunState (τ × List Heard) κ δ}
    (hs : Supplied c sink s) {o : Outbox δ} (ho : Course c (s.outbox.act c .stop) o) :
    Brought c sink o := by
  obtain ⟨actions, hfinal, _⟩ := hs.halted ho
  have hk := Kept.history c sink actions
  rw [← hfinal]
  constructor
  · rw [hk.handed]
    exact c.brought_of_deliveries _ sink
  · intro f hf
    exact ⟨_, c.names_create f.postings, hk.aboard f hf⟩

/-- A stop that is broken off sends nothing else. -/
theorem Brought.abandon {c : Courier δ} {sink : δ} {o : Outbox δ} (h : Brought c sink o) :
    Brought c sink o.abandon :=
  ⟨h.ended, fun f hf => h.underway f (Option.eq_some_of_filter_eq_some hf)⟩

/-- Whether its program ends or is cut off, all that a run sends are signed batches that name the run. -/
theorem Host.run_brought (h : Host τ η κ δ) (p : Program) (inputs : KeyMap String)
    (limit : Option Nat) (backend : τ) (store : κ) (sink : δ) :
    Brought h.courier sink (h.run p inputs limit (.fresh backend store sink)).1.outbox := by
  obtain ⟨⟨_, hsupplied⟩, _⟩ := drive_noting h p inputs limit backend store sink
  rw [← h.run_forget]
  simp only [run]
  cases Thread.result? _ with
  | none => exact (hsupplied.course (Outbox.advance_course _)).brought Outbox.stop_course
  | some outcome =>
    have hbrought := hsupplied.brought (Outbox.settle_course limit)
    simp only [finish]
    split
    · exact hbrought.abandon
    · exact hbrought

/-! ## Gate -/

namespace Launcher

/-- A manifest that passes every check, and the program that it holds. -/
structure Admits (l : Launcher τ η κ δ) (m : Manifest) (p : Program) : Prop where
  /-- It carries the digest of its secured fields, and the signature of that digest under the shared secret. -/
  sealed : ∃ signature, m.Carries (m.contentHash l.scheme) signature ∧
    Text.Hex.decode (Text.trim signature.toList) =
      some (l.scheme.keyed (Scheme.bytesOf l.config.security.sharedSecret)
        (Scheme.bytesOf (m.contentHash l.scheme)))
  /-- Its program has the digest that it says. -/
  program : m.programHash = l.scheme.hash m.programText
  /-- Its program can be read. -/
  read : Program.parse m.programText = .ok p

/-- A manifest that fails a check, and the failure of the first one that it fails. -/
inductive Refuses (l : Launcher τ η κ δ) (m : Manifest) : Failure → Prop where
  /-- The manifest itself is not good. -/
  | unverified {e : Failure}
      (verdict : Manifest.Verdict l.scheme m l.config.security (.error e)) : Refuses l m e
  /-- The manifest is good, but its program cannot be read. -/
  | unread {e : Program.Error}
      (verdict : Manifest.Verdict l.scheme m l.config.security (.ok ()))
      (fault : Program.parse? m.programText = .error e) : Refuses l m e.failure

variable {l : Launcher τ η κ δ} {m : Manifest}

theorem prepare_of_error {e : Failure} (h : m.verify l.scheme l.config.security = .error e) :
    l.config.prepare l.scheme m = .error e := by
  unfold LaunchConfig.prepare
  rw [h]
  rfl

theorem prepare_of_ok (h : m.verify l.scheme l.config.security = .ok ()) :
    l.config.prepare l.scheme m = Program.parse m.programText := by
  unfold LaunchConfig.prepare
  rw [h]
  rfl

/-- A manifest is good if it has passed every check. -/
theorem admits_of_good (h : Manifest.Verdict l.scheme m l.config.security (.ok ())) {p : Program}
    (hread : Program.parse m.programText = .ok p) : l.Admits m p := by
  cases h with
  | good carries hashed signed program =>
    subst hashed
    exact ⟨⟨_, carries, Scheme.verify_iff.1 signed⟩, program.symm, hread⟩

/-- Every manifest is admitted with its program, or refused for a failure. -/
theorem prepare_cases (l : Launcher τ η κ δ) (m : Manifest) :
    (∃ p, l.Admits m p ∧ l.config.prepare l.scheme m = .ok p) ∨
      ∃ e, l.Refuses m e ∧ l.config.prepare l.scheme m = .error e := by
  have hverdict := m.verdict l.scheme l.config.security
  cases hverify : m.verify l.scheme l.config.security with
  | error e =>
    rw [hverify] at hverdict
    exact .inr ⟨e, .unverified hverdict, prepare_of_error hverify⟩
  | ok _ =>
    rw [hverify] at hverdict
    have hprepare := prepare_of_ok hverify
    unfold Program.parse at hprepare
    cases hread : Program.parse? m.programText with
    | error e =>
      rw [hread] at hprepare
      exact .inr ⟨e.failure, .unread hverdict hread, hprepare⟩
    | ok p =>
      rw [hread] at hprepare
      refine .inl ⟨p, admits_of_good hverdict ?_, hprepare⟩
      unfold Program.parse
      rw [hread]

/-- A launch of a manifest that is refused leaves everything as it is. -/
theorem launch_of_error {e : Failure} (h : l.config.prepare l.scheme m = .error e)
    (inputs : KeyMap String) (limit : Option Nat) (s : RunState τ κ δ) :
    l.launch m inputs limit s = (.failed m.runId e, s) := by
  unfold launch
  rw [h]

/-! ## Statement -/

/-- What a launch has done for a manifest that is admitted. -/
structure Ran (l : Launcher τ η κ δ) (m : Manifest) (inputs : KeyMap String) (limit : Option Nat)
    (backend : τ) (store : κ) (sink : δ) (p : Program) : Prop where
  admits : l.Admits m p
  /-- It has run the statements of the program that the manifest holds. -/
  launch : l.launch m inputs limit (.fresh backend store sink) =
    (report (l.host m) ((l.host m).run p inputs limit (.fresh backend store sink)).1
        ((l.host m).run p inputs limit (.fresh backend store sink)).2,
      ((l.host m).run p inputs limit (.fresh backend store sink)).1)
  /-- All that it has sent names the run and the program of the manifest, and the principal of the launcher. -/
  context : (l.host m).courier.context = ⟨m.runId, m.programHash, l.config.principalId⟩
  brought : Brought (l.host m).courier sink
    (l.launch m inputs limit (.fresh backend store sink)).2.outbox

/-- What a launch has done for a manifest that is refused. -/
structure Rejected (l : Launcher τ η κ δ) (m : Manifest) (inputs : KeyMap String)
    (limit : Option Nat) (s : RunState τ κ δ) (e : Failure) : Prop where
  refuses : l.Refuses m e
  /-- It has told the failure, and has nothing to show. -/
  report : (l.launch m inputs limit s).1 =
    { runId := m.runId, status := .failed, error := some e.message, errorKind := some e.kind
      outputs := [], outcome := none }
  /-- It has called nobody. -/
  untouched : (l.launch m inputs limit s).2 = s

/-- **The manifest gates everything.** A launch runs the program of a manifest that has passed every check, and sends nothing but
    events in its name; or a check has failed, which the report tells, and backend, store and sink are as they were. They may be
    any, those that note each call among them. -/
theorem launch_gated (l : Launcher τ η κ δ) (m : Manifest) (inputs : KeyMap String)
    (limit : Option Nat) (backend : τ) (store : κ) (sink : δ) :
    (∃ p, Ran l m inputs limit backend store sink p) ∨
      ∃ e, Rejected l m inputs limit (.fresh backend store sink) e := by
  rcases l.prepare_cases m with ⟨p, hadmits, hprepare⟩ | ⟨e, hrefuses, hprepare⟩
  · have hlaunch := launch_of_prepare hprepare inputs limit (.fresh backend store sink)
    refine .inl ⟨p, hadmits, hlaunch, rfl, ?_⟩
    rw [hlaunch]
    exact (l.host m).run_brought p inputs limit backend store sink
  · have hlaunch := launch_of_error hprepare inputs limit (.fresh backend store sink)
    refine .inr ⟨e, hrefuses, ?_, ?_⟩
    · rw [hlaunch]
      rfl
    · rw [hlaunch]

end Launcher

end Playbook
