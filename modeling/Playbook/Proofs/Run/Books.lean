import Mathlib.Data.Multiset.UnionInter
import Playbook.Proofs.Outbox.Course
import Playbook.Proofs.Run.CallLog
import Playbook.Proofs.Run.Stakes

/-!
# `Proofs.Run.Books` — the books of a run

A run keeps counters and adds up usage. Both can be checked against what it has really done: against the log of its calls, the log of
its deposits and the numbers that its outbox has given. While something is under way they do not agree, as things are counted before
they are done and paid for after that. So the books say what has been done, what is under way, and how it adds up.

## Contents
- **Usage.** `Usage.perMessage`, which counts usage once for each message; `Usage.sum`; `CallLog.charges`.
- **Sessions.** `Whole`, all that is done with a session from its opening to its end; `Minded`, which says who holds which session.
- **Books.** `Underway` is what can be under way; `Balanced` says that the books balance.
-/

namespace Playbook

variable {τ η κ δ : Type}

/-! ## Usage -/

namespace Usage

/-- Whether two records are of one message. -/
def sameMessage (u v : Usage) : Bool :=
  u.messageId.isSome && u.messageId == v.messageId

/-- The records that count: of those for one message only the first, and all for no message. -/
def perMessage (us : List Usage) : List Usage :=
  us.foldl (fun kept u => if kept.any u.sameMessage then kept else kept ++ [u]) []

/-- The tokens of some records. -/
def sum (us : List Usage) : Usage :=
  us.foldl add zero

theorem perMessage_concat (us : List Usage) (u : Usage) :
    perMessage (us ++ [u]) = if (perMessage us).any u.sameMessage then perMessage us else perMessage us ++ [u] := by
  rw [perMessage, List.foldl_append]
  rfl

theorem sum_concat (us : List Usage) (u : Usage) : sum (us ++ [u]) = (sum us).add u := by
  rw [sum, List.foldl_append]
  rfl

theorem add_right_comm (u v w : Usage) : (u.add v).add w = (u.add w).add v := by
  simp only [add, mk.injEq, true_and]
  exact ⟨by ac_rfl, by ac_rfl, by ac_rfl⟩

/-- Tokens can be added in any order. -/
theorem foldl_add_perm {us vs : List Usage} (h : us.Perm vs) (u : Usage) : us.foldl add u = vs.foldl add u :=
  h.foldl_eq' (fun x _ y _ z => add_right_comm z x y) u

/-- What is owed less has been added to what is paid. -/
theorem settle_owed {us : List Usage} {first s u : Usage} {owed total : Multiset Usage} (hs : s = us.foldl add first)
    (htotal : (us : Multiset Usage) + ({u} + owed) = total) :
    s.add u = (us ++ [u]).foldl add first ∧ ((us ++ [u] : List Usage) : Multiset Usage) + owed = total := by
  constructor
  · rw [List.foldl_append, ← hs]
    rfl
  · rw [← Multiset.coe_add, Multiset.coe_singleton, add_assoc]
    exact htotal

end Usage

namespace CallEntry

/-- The turn that is read. -/
def turn? : CallEntry → Option Turn
  | turned _ t => some t
  | _ => none

/-- The session of which all turns have been read. -/
def drained? : CallEntry → Option Nat
  | drained n => some n
  | _ => none

/-- Whether a session is asked for anew. -/
def asksAnew (e : CallEntry) : Bool :=
  e.asks? = some none

/-- Whether a session is asked to be taken up again. -/
def asksAgain (e : CallEntry) : Bool :=
  e.asks?.any (·.isSome)

end CallEntry

namespace CallLog

variable {l : CallLog} {e : CallEntry} {n m : Nat}

/-- The usage of the turns that are read, counted once for each message. -/
def usage (l : CallLog) : Usage :=
  Usage.sum (Usage.perMessage ((l.filterMap (·.turn?)).filterMap (·.usage)))

/-- The usage of each session of which all turns have been read. -/
def charges (l : CallLog) : List Usage :=
  (l.filterMap (·.drained?)).map fun n => (l.about n).usage

theorem about_append (n : Nat) (l l' : CallLog) : about n (l ++ l') = about n l ++ about n l' :=
  List.filter_append l l'

theorem about_own (h : e.session? = some n) : about n [e] = [e] := by
  simp [about, h]

theorem about_other (h : e.session? ≠ some n) : about n [e] = [] := by
  simp [about, h]

/-- What is said of a session stays as it is while something else is done. -/
theorem about_concat_other (l : CallLog) (h : e.session? ≠ some n) : about n (l ++ [e]) = about n l := by
  rw [about_append, about_other h, List.append_nil]

theorem about_concat_own (l : CallLog) (h : e.session? = some n) : about n (l ++ [e]) = about n l ++ [e] := by
  rw [about_append, about_own h]

theorem usage_concat (l : CallLog) (h : e.turn? = none) : usage (l ++ [e]) = usage l := by
  simp [usage, h]

/-- What has been charged stays as it is when something is done that is no turn of a session that has been charged. -/
theorem usage_about_concat (h : e.turn? = none ∨ e.session? ≠ some n) (l : CallLog) : (about n (l ++ [e])).usage = (about n l).usage := by
  by_cases hown : e.session? = some n
  · rw [about_concat_own l hown]
    exact usage_concat _ (h.resolve_right fun hne => hne hown)
  · rw [about_concat_other l hown]

theorem mem_filterMap_drained : n ∈ l.filterMap (·.drained?) ↔ .drained n ∈ about n l := by
  simp only [about, List.mem_filterMap, List.mem_filter, CallEntry.session?, decide_true, and_true]
  constructor
  · rintro ⟨e, he, hn⟩
    cases e with
    | drained m =>
      cases hn
      exact he
    | _ => cases hn
  · intro h
    exact ⟨_, h, rfl⟩

theorem charges_concat (h : e.drained? = none) (hturn : ∀ n, e.session? = some n → e.turn? = none ∨ .drained n ∉ about n l) :
    charges (l ++ [e]) = charges l := by
  have hnone : [e].filterMap (·.drained?) = [] := by simp [h]
  rw [charges, charges, List.filterMap_append, hnone, List.append_nil]
  refine List.map_congr_left fun n hn => usage_about_concat ?_ l
  by_cases hown : e.session? = some n
  · exact (hturn n hown).imp_right fun hnot => absurd (mem_filterMap_drained.1 hn) hnot
  · exact .inr hown

theorem charges_drained (l : CallLog) (n : Nat) : charges (l ++ [.drained n]) = charges l ++ [(about n l).usage] := by
  have hsame : ∀ m, (about m (l ++ [.drained n])).usage = (about m l).usage := fun m => usage_about_concat (.inl rfl) l
  rw [charges, charges, List.filterMap_append, List.map_append]
  simp only [hsame]
  rfl

end CallLog

/-! ## Sessions -/

/-- All that is done with a session: it is opened, sent one prompt, asked once for its answer if it took that, and closed when the
    answer has been read to its end or broke off. -/
inductive Whole (n : Nat) : CallLog → Prop where
  | unsent (args : SessionArgs) (prior : Option String) (prompt : String) :
      Whole n [.opened n args prior, .sent n prompt false, .closed n]
  | unanswered (args : SessionArgs) (prior : Option String) (prompt : String) :
      Whole n [.opened n args prior, .sent n prompt true, .streamed n false, .closed n]
  | cut (args : SessionArgs) (prior : Option String) (prompt : String) (turns : List Turn) :
      Whole n ([.opened n args prior, .sent n prompt true, .streamed n true] ++ turns.map (.turned n) ++ [.broke n, .closed n])
  | heard (args : SessionArgs) (prior : Option String) (prompt : String) (turns : List Turn) :
      Whole n ([.opened n args prior, .sent n prompt true, .streamed n true] ++ turns.map (.turned n) ++ [.drained n, .closed n])

/-- Every session that has been opened is held by somebody, who knows all that has been done with it, or is done with. -/
structure Minded (held : Multiset (Nat × CallLog)) (l : CallLog) : Prop where
  below : ∀ e ∈ l, ∀ n, e.session? = some n → n < l.length
  apart : (held.map Prod.fst).Nodup
  about : ∀ x ∈ held, x.2 ≠ [] ∧ l.about x.1 = x.2
  whole : ∀ n, n ∉ held.map Prod.fst → l.about n = [] ∨ Whole n (l.about n)

namespace Minded

variable {held : Multiset (Nat × CallLog)} {l w : CallLog} {e : CallEntry} {n : Nat}

theorem nothing : Minded 0 [] :=
  ⟨fun _ he => absurd he List.not_mem_nil, Multiset.nodup_zero, fun _ hx => absurd hx (Multiset.notMem_zero _), fun _ _ => .inl rfl⟩

/-- A call that is no matter of a session leaves the sessions `Minded`. -/
theorem aside (h : Minded held l) (he : e.session? = none) : Minded held (l ++ [e]) := by
  have hother : ∀ n, e.session? ≠ some n := fun n hn => by rw [he] at hn; cases hn
  refine ⟨fun x hx n hn => ?_, h.apart, fun x hx => ?_, fun n hn => ?_⟩
  · rcases List.mem_append.1 hx with hx | hx
    · have hlt := h.below x hx n hn
      rw [List.length_append]
      omega
    · rw [List.mem_singleton.1 hx] at hn
      exact absurd hn (hother n)
  · rw [CallLog.about_concat_other l (hother x.1)]
    exact h.about x hx
  · rw [CallLog.about_concat_other l (hother n)]
    exact h.whole n hn

/-- Nothing has been said of a session that is yet to be opened. -/
theorem about_length (h : Minded held l) : l.about l.length = [] := by
  rw [CallLog.about, List.filter_eq_nil_iff]
  intro e he hown
  have hlt := h.below e he l.length (by simpa using hown)
  omega

/-- A session is opened. -/
theorem opened (h : Minded held l) (he : e.session? = some l.length) :
    Minded ({(l.length, [e])} + held) (l ++ [e]) := by
  -- Sessions have the lengths of the log at their opening as numbers, so this one is new.
  have hnew : l.length ∉ held.map Prod.fst := by
    rw [Multiset.mem_map]
    rintro ⟨x, hx, hlength⟩
    obtain ⟨hne, habout⟩ := h.about x hx
    rw [hlength, h.about_length] at habout
    exact hne habout.symm
  have hother : ∀ n, n ≠ l.length → e.session? ≠ some n := fun n hne hn => hne (Option.some.inj (hn.symm.trans he))
  refine ⟨fun x hx n hn => ?_, ?_, fun x hx => ?_, fun n hn => ?_⟩
  · rw [List.length_append, List.length_singleton]
    rcases List.mem_append.1 hx with hx | hx
    · exact Nat.lt_succ_of_lt (h.below x hx n hn)
    · rw [List.mem_singleton.1 hx, he, Option.some.injEq] at hn
      omega
  · rw [Multiset.singleton_add, Multiset.map_cons, Multiset.nodup_cons]
    exact ⟨hnew, h.apart⟩
  · rcases Multiset.mem_add.1 hx with hx | hx
    · rw [Multiset.mem_singleton.1 hx]
      exact ⟨List.cons_ne_nil _ _, by rw [CallLog.about_concat_own l he, h.about_length]; rfl⟩
    · have hne : x.1 ≠ l.length := fun heq => hnew (Multiset.mem_map.2 ⟨x, hx, heq⟩)
      rw [CallLog.about_concat_other l (hother x.1 hne)]
      exact h.about x hx
  · rw [Multiset.singleton_add, Multiset.map_cons, Multiset.mem_cons, not_or] at hn
    rw [CallLog.about_concat_other l (hother n hn.1)]
    exact h.whole n hn.2

/-- What the holder of a session does with it leaves the sessions `Minded`. -/
theorem next (h : Minded ({(n, w)} + held) l) (he : e.session? = some n) :
    Minded ({(n, w ++ [e])} + held) (l ++ [e]) := by
  have hmem : (n, w) ∈ {(n, w)} + held := Multiset.mem_add.2 (.inl (Multiset.mem_singleton_self _))
  obtain ⟨hne, habout⟩ := h.about (n, w) hmem
  have hapart := h.apart
  rw [Multiset.singleton_add, Multiset.map_cons] at hapart
  have hother : ∀ m, m ≠ n → e.session? ≠ some m := fun m hm heq => hm (Option.some.inj (heq.symm.trans he))
  -- A session that is held has an entry, so its number has been given.
  have hlt : n < l.length := by
    obtain ⟨x, hx⟩ := List.exists_mem_of_ne_nil _ (habout ▸ hne)
    rw [CallLog.about, List.mem_filter, decide_eq_true_eq] at hx
    exact h.below x hx.1 n hx.2
  refine ⟨fun x hx m hm => ?_, ?_, fun x hx => ?_, fun m hm => ?_⟩
  · rw [List.length_append, List.length_singleton]
    rcases List.mem_append.1 hx with hx | hx
    · exact Nat.lt_succ_of_lt (h.below x hx m hm)
    · rw [List.mem_singleton.1 hx, he, Option.some.injEq] at hm
      omega
  · rwa [Multiset.singleton_add, Multiset.map_cons]
  · rcases Multiset.mem_add.1 hx with hx | hx
    · rw [Multiset.mem_singleton.1 hx, CallLog.about_concat_own l he, habout]
      exact ⟨by simp, rfl⟩
    · have hm : x.1 ≠ n := fun heq =>
        (Multiset.nodup_cons.1 hapart).1 (Multiset.mem_map.2 ⟨x, hx, heq⟩)
      rw [CallLog.about_concat_other l (hother x.1 hm)]
      exact h.about x (Multiset.mem_add.2 (.inr hx))
  · rw [Multiset.singleton_add, Multiset.map_cons, Multiset.mem_cons, not_or] at hm
    rw [CallLog.about_concat_other l (hother m hm.1)]
    refine h.whole m ?_
    rw [Multiset.singleton_add, Multiset.map_cons, Multiset.mem_cons, not_or]
    exact hm

/-- A session is done with. -/
theorem leave (h : Minded ({(n, w)} + held) l) (hw : Whole n w) : Minded held l := by
  have hmem : (n, w) ∈ {(n, w)} + held := Multiset.mem_add.2 (.inl (Multiset.mem_singleton_self _))
  have hapart := h.apart
  rw [Multiset.singleton_add, Multiset.map_cons, Multiset.nodup_cons] at hapart
  refine ⟨h.below, hapart.2, fun x hx => h.about x (Multiset.mem_add.2 (.inr hx)), fun m hm => ?_⟩
  by_cases hown : m = n
  · subst hown
    rw [(h.about (m, w) hmem).2]
    exact .inr hw
  · refine h.whole m ?_
    rw [Multiset.singleton_add, Multiset.map_cons, Multiset.mem_cons, not_or]
    exact ⟨hown, hm⟩

end Minded

/-! ## Books -/

/-- What can be under way. -/
@[ext]
structure Underway where
  /-- Sessions that are counted and have not yet been asked for, anew or to be taken up again. -/
  creating : Nat
  resuming : Nat
  /-- Bindings that are counted and of which the text has not yet been put into the store. -/
  writing : Nat
  /-- Open sessions, by number, with all that has been done with them. -/
  held : Multiset (Nat × CallLog)
  /-- Usage that is yet to be added up. -/
  owed : Multiset Usage

namespace Underway

instance : Zero Underway :=
  ⟨⟨0, 0, 0, 0, 0⟩⟩

instance : Add Underway :=
  ⟨fun a b => ⟨a.creating + b.creating, a.resuming + b.resuming, a.writing + b.writing, a.held + b.held, a.owed + b.owed⟩⟩

instance : AddCommMonoid Underway where
  add_assoc a b c := Underway.ext (add_assoc ..) (add_assoc ..) (add_assoc ..) (add_assoc ..) (add_assoc ..)
  zero_add a := Underway.ext (zero_add _) (zero_add _) (zero_add _) (zero_add _) (zero_add _)
  add_zero a := Underway.ext (add_zero _) (add_zero _) (add_zero _) (add_zero _) (add_zero _)
  add_comm a b := Underway.ext (add_comm ..) (add_comm ..) (add_comm ..) (add_comm ..) (add_comm ..)
  nsmul := nsmulRec

/-- A session that is to be asked for. -/
def asking (prior : Option String) : Underway :=
  match prior with
  | none => ⟨1, 0, 0, 0, 0⟩
  | some _ => ⟨0, 1, 0, 0, 0⟩

/-- A text that is to be put into the store. -/
def text : Underway :=
  ⟨0, 0, 1, 0, 0⟩

/-- A session that is open. -/
def session (n : Nat) (w : CallLog) : Underway :=
  ⟨0, 0, 0, {(n, w)}, 0⟩

/-- Usage that is to be added up. -/
def usage (u : Usage) : Underway :=
  ⟨0, 0, 0, 0, {u}⟩

variable (a : Underway)

theorem asking_none_add : asking none + a = { a with creating := 1 + a.creating } :=
  Underway.ext rfl (zero_add _) (zero_add _) (zero_add _) (zero_add _)

theorem asking_some_add (id : String) : asking (some id) + a = { a with resuming := 1 + a.resuming } :=
  Underway.ext (zero_add _) rfl (zero_add _) (zero_add _) (zero_add _)

theorem asking_add_held (prior : Option String) : (asking prior + a).held = a.held := by
  cases prior with
  | none => rw [asking_none_add]
  | some id => rw [asking_some_add]

theorem asking_add_owed (prior : Option String) : (asking prior + a).owed = a.owed := by
  cases prior with
  | none => rw [asking_none_add]
  | some id => rw [asking_some_add]

theorem text_add : text + a = { a with writing := 1 + a.writing } :=
  Underway.ext (zero_add _) (zero_add _) rfl (zero_add _) (zero_add _)

theorem session_add (n : Nat) (w : CallLog) : session n w + a = { a with held := {(n, w)} + a.held } :=
  Underway.ext (zero_add _) (zero_add _) (zero_add _) rfl (zero_add _)

theorem usage_add (u : Usage) : usage u + a = { a with owed := {u} + a.owed } :=
  Underway.ext (zero_add _) (zero_add _) (zero_add _) (zero_add _) rfl

end Underway

/-- Whether what is put into the store is the text of a binding. -/
def Deposit.isBinding (d : Deposit) : Bool :=
  "runs/".toList.isPrefixOf d.key.toList

/-- The books balance, if what has been done since the start and what is under way add up to what is counted. -/
structure Balanced (start : RunState τ κ δ) (a : Underway) (s : RunState.Logged τ κ δ) : Prop where
  created : s.counters.sessionsCreated = start.counters.sessionsCreated + s.calls.countP (·.asksAnew) + a.creating
  resumed : s.counters.sessionsResumed = start.counters.sessionsResumed + s.calls.countP (·.asksAgain) + a.resuming
  written : s.counters.bindingsWritten = start.counters.bindingsWritten + s.deposits.countP (·.isBinding) + a.writing
  forwarded : s.counters.eventsForwarded + start.outbox.seq = start.counters.eventsForwarded + s.outbox.seq
  orderly : s.outbox.Orderly
  minded : Minded a.held s.calls
  paid : ∃ paid : List Usage, s.usage = paid.foldl Usage.add start.usage ∧ (paid : Multiset Usage) + a.owed = s.calls.charges

namespace Balanced

variable {start : RunState τ κ δ} {a : Underway} {s : RunState.Logged τ κ δ} {n : Nat} {w : CallLog}

/-- The books of a run in which nothing has been done yet are balanced. -/
theorem logged (h : start.outbox.Orderly) : Balanced start 0 start.logged :=
  ⟨rfl, rfl, rfl, rfl, h, .nothing, [], rfl, rfl⟩

/-- The books do not say what is bound, which sessions are remembered, how many statements have begun and what backend and store hold. -/
theorem aside (h : Balanced start a s) (scope : Scope) (sessions : KeyMap String) (statements : Nat) (t : τ) (k : κ) :
    Balanced start a { s with
      scope, sessions, counters := { s.counters with statements }, backend := (t, s.calls), store := (k, s.deposits) } :=
  ⟨h.created, h.resumed, h.written, h.forwarded, h.orderly, h.minded, h.paid⟩

/-! ### Sessions -/

/-- A session is counted before it is asked for. -/
theorem count_created (h : Balanced start a s) :
    Balanced start (.asking none + a) (s.count fun c => { c with sessionsCreated := c.sessionsCreated + 1 }) := by
  rw [Underway.asking_none_add]
  refine ⟨?_, h.resumed, h.written, h.forwarded, h.orderly, h.minded, h.paid⟩
  have hcreated := h.created
  simp only [RunState.count, RunState.calls] at hcreated ⊢
  omega

theorem count_resumed (h : Balanced start a s) (id : String) :
    Balanced start (.asking (some id) + a) (s.count fun c => { c with sessionsResumed := c.sessionsResumed + 1 }) := by
  rw [Underway.asking_some_add]
  refine ⟨h.created, ?_, h.written, h.forwarded, h.orderly, h.minded, h.paid⟩
  have hresumed := h.resumed
  simp only [RunState.count, RunState.calls] at hresumed ⊢
  omega

/-- A session that is counted is asked for. -/
theorem ask {prior : Option String} {e : CallEntry} (h : Balanced start (.asking prior + a) s) (t : τ) (hasks : e.asks? = some prior)
    (hturn : e.turn? = none) (hdrained : e.drained? = none) {held : Multiset (Nat × CallLog)}
    (hminded : Minded held (s.calls ++ [e])) : Balanced start { a with held } { s with backend := (t, s.calls ++ [e]) } := by
  have hcharges : CallLog.charges (s.calls ++ [e]) = s.calls.charges := CallLog.charges_concat hdrained fun _ _ => .inl hturn
  obtain ⟨paid, husage, hpaid⟩ := h.paid
  rw [Underway.asking_add_owed, ← hcharges] at hpaid
  -- Sessions asked for anew and those taken up again have a counter each.
  cases prior with
  | none =>
    rw [Underway.asking_none_add] at h
    refine ⟨?_, ?_, h.written, h.forwarded, h.orderly, hminded, paid, husage, hpaid⟩
    · have hcreated := h.created
      simp only [RunState.calls, CallEntry.asksAnew, List.countP_append, List.countP_singleton, hasks, decide_true, if_true]
        at hcreated ⊢
      omega
    · simpa [RunState.calls, CallEntry.asksAgain, hasks] using h.resumed
  | some id =>
    rw [Underway.asking_some_add] at h
    refine ⟨?_, ?_, h.written, h.forwarded, h.orderly, hminded, paid, husage, hpaid⟩
    · simpa [RunState.calls, CallEntry.asksAnew, hasks] using h.created
    · have hresumed := h.resumed
      simp only [RunState.calls, CallEntry.asksAgain, List.countP_append, List.countP_singleton, hasks, Option.any_some,
        Option.isSome_some, if_true] at hresumed ⊢
      omega

theorem opened {prior : Option String} (h : Balanced start (.asking prior + a) s) (t : τ) (args : SessionArgs) :
    Balanced start (.session s.calls.length [.opened s.calls.length args prior] + a)
      { s with backend := (t, s.calls ++ [.opened s.calls.length args prior]) } := by
  have hminded := h.minded
  rw [Underway.asking_add_held] at hminded
  rw [Underway.session_add]
  exact h.ask t rfl rfl rfl (hminded.opened rfl)

theorem refused {prior : Option String} (h : Balanced start (.asking prior + a) s) (t : τ) (args : SessionArgs) :
    Balanced start a { s with backend := (t, s.calls ++ [.refused args prior]) } := by
  have hminded := h.minded
  rw [Underway.asking_add_held] at hminded
  exact h.ask t rfl rfl rfl (hminded.aside rfl)

/-- What the holder of a session does with it leaves the books balanced. -/
theorem next {e : CallEntry} (h : Balanced start (.session n w + a) s) (t : τ) (he : e.session? = some n) (hasks : e.asks? = none)
    (hdrained : e.drained? = none) (hturn : e.turn? = none ∨ .drained n ∉ w) :
    Balanced start (.session n (w ++ [e]) + a) { s with backend := (t, s.calls ++ [e]) } := by
  rw [Underway.session_add] at h ⊢
  -- Turns that are read add to the usage of a session, which is charged only if they have all been read.
  have hcharges : CallLog.charges (s.calls ++ [e]) = s.calls.charges := by
    refine CallLog.charges_concat hdrained fun m hm => hturn.imp_right ?_
    rw [Option.some.inj (hm.symm.trans he), (h.minded.about (n, w) (by simp)).2]
    exact id
  obtain ⟨paid, husage, hpaid⟩ := h.paid
  rw [← hcharges] at hpaid
  refine ⟨?_, ?_, h.written, h.forwarded, h.orderly, h.minded.next he, paid, husage, hpaid⟩
  · simpa [RunState.calls, CallEntry.asksAnew, hasks] using h.created
  · simpa [RunState.calls, CallEntry.asksAgain, hasks] using h.resumed

/-- All turns of a session have been read: their usage is owed. -/
theorem drained (h : Balanced start (.session n w + a) s) (t : τ) :
    Balanced start (.session n (w ++ [.drained n]) + (.usage w.usage + a)) { s with backend := (t, s.calls ++ [.drained n]) } := by
  rw [Underway.session_add] at h
  rw [Underway.usage_add, Underway.session_add]
  have habout := (h.minded.about (n, w) (by simp)).2
  obtain ⟨paid, husage, hpaid⟩ := h.paid
  refine ⟨?_, ?_, h.written, h.forwarded, h.orderly, h.minded.next rfl, paid, husage, ?_⟩
  · simpa [RunState.calls, CallEntry.asksAnew, CallEntry.asks?] using h.created
  · simpa [RunState.calls, CallEntry.asksAgain, CallEntry.asks?] using h.resumed
  · simp only [RunState.calls] at hpaid habout ⊢
    rw [CallLog.charges_drained, habout, add_left_comm, hpaid, Multiset.singleton_add, ← Multiset.coe_add, add_comm,
      Multiset.coe_singleton, Multiset.singleton_add]

/-- A session is done with. -/
theorem leave (h : Balanced start (.session n w + a) s) (hw : Whole n w) : Balanced start a s := by
  rw [Underway.session_add] at h
  exact ⟨h.created, h.resumed, h.written, h.forwarded, h.orderly, h.minded.leave hw, h.paid⟩

/-- Usage that is owed is added up. -/
theorem settle {u : Usage} (h : Balanced start (.usage u + a) s) : Balanced start a { s with usage := s.usage.add u } := by
  rw [Underway.usage_add] at h
  obtain ⟨paid, husage, hpaid⟩ := h.paid
  exact ⟨h.created, h.resumed, h.written, h.forwarded, h.orderly, h.minded, paid ++ [u], Usage.settle_owed husage hpaid⟩

/-! ### Bindings -/

/-- A binding is counted before its text is put into the store. -/
theorem count_written (h : Balanced start a s) :
    Balanced start (.text + a) (s.count fun c => { c with bindingsWritten := c.bindingsWritten + 1 }) := by
  rw [Underway.text_add]
  refine ⟨h.created, h.resumed, ?_, h.forwarded, h.orderly, h.minded, h.paid⟩
  have hwritten := h.written
  simp only [RunState.count, RunState.deposits] at hwritten ⊢
  omega

theorem put_text {d : Deposit} (h : Balanced start (.text + a) s) (k : κ) (hd : d.isBinding = true) :
    Balanced start a { s with store := (k, s.deposits ++ [d]) } := by
  rw [Underway.text_add] at h
  refine ⟨h.created, h.resumed, ?_, h.forwarded, h.orderly, h.minded, h.paid⟩
  have hwritten := h.written
  simp only [RunState.deposits, List.countP_append, List.countP_singleton, hd, if_true] at hwritten ⊢
  omega

theorem put_other {d : Deposit} (h : Balanced start a s) (k : κ) (hd : d.isBinding = false) :
    Balanced start a { s with store := (k, s.deposits ++ [d]) } := by
  refine ⟨h.created, h.resumed, ?_, h.forwarded, h.orderly, h.minded, h.paid⟩
  simpa [RunState.deposits, hd] using h.written

/-! ### Events -/

/-- What time makes of the outbox gives no numbers. -/
theorem course {c : Courier δ} {o : Outbox δ} (h : Balanced start a s) (ho : Outbox.Course c s.outbox o) :
    Balanced start a { s with outbox := o } :=
  ⟨h.created, h.resumed, h.written, by rw [ho.seq]; exact h.forwarded, ho.orderly h.orderly, h.minded, h.paid⟩

/-- An event that gets a number is counted. -/
theorem enqueue (h : Balanced start a s) (c : Courier δ) (agent : String) (session : Option String) (event : Event)
    (usage : Option Usage) (l : Host.Hearing) :
    Balanced start a
      (match s.outbox.enqueue c agent session event usage with
        | (outbox, some _) => (l, { s with outbox }.count fun c => { c with eventsForwarded := c.eventsForwarded + 1 })
        | (outbox, none) => (l, { s with outbox })).2 := by
  have horderly : (s.outbox.enqueue c agent session event usage).1.Orderly :=
    h.orderly.act (.enqueue agent session event usage)
  have hforwarded := h.forwarded
  unfold Outbox.enqueue at horderly ⊢
  split at horderly
  · rename_i hstopped
    rw [if_pos hstopped]
    exact h
  · rename_i haccepts
    rw [if_neg haccepts]
    refine ⟨h.created, h.resumed, h.written, ?_, horderly, h.minded, h.paid⟩
    simp only [RunState.count]
    omega

/-- What is sent on of a turn is counted. -/
theorem hear (h : Balanced start a s) (host : Host (τ × CallLog) η (κ × List Deposit) δ) (agent : String) (t : Turn) (l : Host.Hearing) :
    Balanced start a (host.hear agent t l s).2 := by
  have hnoted : Balanced start a (Host.noteSession agent t l s).2 := by
    unfold Host.noteSession
    split
    · exact h
    · split
      · exact h
      · exact h.aside ..
  simp only [Host.hear]
  split
  · exact hnoted
  · simp only [Host.forward]
    split
    · exact hnoted.enqueue host.courier agent _ _ _ _
    · exact hnoted

end Balanced

end Playbook
