import Playbook.Backend.Rehearsal
import Playbook.Proofs.Run.Calling
import Playbook.Proofs.Run.Scope
import Playbook.Proofs.Run.Stored

/-!
# `Proofs.Run.Bindings` — bindings and stored texts agree

A write takes a number, stores its text under a key of that number, and only then binds the name. So at every moment the bindings
are those that the journal says were made, and behind each reference that the store ever gave for a binding lies the text that it
was given for: no other write has the same number, and no record has the key of a binding.

## Contents
- **Scopes.** `Scope.replay`, the scope after all that a journal says was bound.
- **The invariant.** `Booked`, and what each kind of change leaves of it.
- **Rules.** `Booked.rules` and `Booked.kept`: every program keeps them.
- **Lives.** `Host.Lives`: all that can become of an interpreter, run after run.
- **Agreement.** `Binding.Agrees`, `Host.Consistent`, `bindings_stored`.
-/

namespace Playbook

open Digest (Scheme)

/-! ## Scopes -/

/-- A scope after an entry: the scope in which a name is bound, if the entry says so. -/
def Entry.rebind (s : Scope) : Entry → Scope
  | .bound _ _ b text => s.bind b text
  | _ => s

/-- Whether an entry tells how far a write has come. -/
def Entry.isWrite : Entry → Bool
  | .writing _ _ _ _ _ | .stored _ _ _ | .bound _ _ _ _ => true
  | _ => false

namespace Scope

/-- The scope after all that a journal says was bound. -/
def replay (base : Scope) (l : Journal) : Scope :=
  l.foldl Entry.rebind base

theorem replay_append (base : Scope) (l m : Journal) :
    replay base (l ++ m) = replay (replay base l) m :=
  List.foldl_append ..

/-- Entries that are not about writes bind nothing. -/
theorem replay_of_other {m : Journal} (hm : ∀ e ∈ m, e.isWrite = false) (s : Scope) :
    replay s m = s := by
  induction m with
  | nil => rfl
  | cons e m ih =>
    have he : e.rebind s = s := by
      have hwrite := hm e List.mem_cons_self
      cases e <;> first | rfl | cases hwrite
    show replay (e.rebind s) m = s
    rw [he]
    exact ih fun e' he' => hm e' (List.mem_cons_of_mem _ he')

/-- A name reads the text that was bound to it last. -/
theorem value?_replay {base : Scope} {x : Place} {n : Nat} {b : Binding} {text : String}
    {l₁ l₂ : Journal} (hlast : ∀ y n' b' text', .bound y n' b' text' ∈ l₂ → b'.name ≠ b.name) :
    (replay base (l₁ ++ .bound x n b text :: l₂)).value? b.name = some text := by
  have hkept : ∀ (l : Journal) (s : Scope),
      (∀ y n' b' text', .bound y n' b' text' ∈ l → b'.name ≠ b.name) →
      s.value? b.name = some text → (replay s l).value? b.name = some text := by
    intro l
    induction l with
    | nil => exact fun s _ hs => hs
    | cons e l ih =>
      intro s hl hs
      refine ih (e.rebind s) (fun y n' b' text' hmem =>
        hl y n' b' text' (List.mem_cons_of_mem _ hmem)) ?_
      cases e with
      | bound y n' b' text' =>
        exact (value?_bind_of_ne s (hl y n' b' text' List.mem_cons_self) text').trans hs
      | _ => exact hs
  rw [replay_append]
  exact hkept l₂ _ hlast (value?_bind_self _ b text)

/-- What a scope holds was there before, or the journal says that it was bound. -/
theorem mem_replay {base : Scope} {l : Journal} {e : Binding × String}
    (h : e ∈ (replay base l).entries) :
    e ∈ base.entries ∨ ∃ x n, .bound x n e.1 e.2 ∈ l := by
  induction l generalizing base with
  | nil => exact .inl h
  | cons e' l ih =>
    have hrest : e ∈ (replay (e'.rebind base) l).entries := h
    rcases ih hrest with hbase | ⟨x, n, hmem⟩
    · cases e' with
      | bound x n b text =>
        rcases List.mem_append.1 (entries_bind base b text ▸ hbase) with hold | hnew
        · exact .inl (List.mem_filter.1 hold).1
        · rw [List.mem_singleton] at hnew
          subst hnew
          exact .inr ⟨x, n, List.mem_cons_self⟩
      | _ => exact .inl hbase
    · exact .inr ⟨x, n, List.mem_cons_of_mem _ hmem⟩

end Scope

/-! ## The invariant -/

/-- The number that a write has taken. -/
def Entry.number? : Entry → Option Nat
  | .writing _ n _ _ _ => some n
  | _ => none

/-- The number of a write that the store has answered. -/
def Entry.answeredWrite? : Entry → Option Nat
  | .stored _ n _ => some n
  | _ => none

/-- The numbers of the writes. -/
def Journal.numbers (l : Journal) : List Nat :=
  l.filterMap Entry.number?

/-- The numbers of the writes that the store has answered. -/
def Journal.answeredWrites (l : Journal) : List Nat :=
  l.filterMap Entry.answeredWrite?

variable {τ η κ δ : Type}

/-- The bindings of a run are those that its journal tells of, if it began with a scope and a number of writes; and the store
    keeps what the journal says it has taken. -/
structure Booked (h : Host τ η κ δ) (base : Scope) (count : Nat) (w : ToldState τ κ δ) : Prop where
  /-- What is bound is what the journal says was bound. -/
  scope : w.scope = Scope.replay base w.journal
  /-- Writes are numbered one by one. -/
  numbers : w.journal.numbers = List.range' (count + 1) w.journal.numbers.length
  written : w.counters.bindingsWritten = count + w.journal.numbers.length
  /-- The store answers each write once, after it was numbered. -/
  once : w.journal.answeredWrites.Nodup
  stored : ∀ x n r, .stored x n r ∈ w.journal →
    ∃ name kind text, .writing x n name kind text ∈ w.journal
  /-- Only what was stored is bound. -/
  bound : ∀ x n b text, .bound x n b text ∈ w.journal → ∃ name kind receipt,
    .writing x n name kind text ∈ w.journal ∧ .stored x n (.ok receipt) ∈ w.journal ∧
      b = Host.bindingOf name kind text receipt
  /-- A store in memory keeps the texts. -/
  kept : ∀ scheme content, h.store.InMemory scheme content → ∀ x n receipt,
    .stored x n (.ok receipt) ∈ w.journal → ∃ name kind text,
      .writing x n name kind text ∈ w.journal ∧
      receipt = .of scheme (MemoryStore.refPrefix ++ Host.bindingKey h.context.runId name n)
        (Text.Utf8.encode text.toList) "text/plain" ∧
      (content w.store.1).get? (Host.bindingKey h.context.runId name n) =
        some (Text.Utf8.encode text.toList)

theorem eq_of_filterMap_nodup {α β : Type} {f : α → Option β} {l : List α} {a a' : α} {b : β}
    (h : (l.filterMap f).Nodup) (ha : a ∈ l) (ha' : a' ∈ l) (hb : f a = some b)
    (hb' : f a' = some b) : a = a' := by
  induction l with
  | nil => cases ha
  | cons c l ih =>
    have hmem : ∀ d ∈ l, f d = some b → b ∈ l.filterMap f := fun d hd hfd =>
      List.mem_filterMap.2 ⟨d, hd, hfd⟩
    rw [List.filterMap_cons] at h
    rcases List.mem_cons.1 ha with hc | hin
    · rcases List.mem_cons.1 ha' with hc' | hin'
      · rw [hc, hc']
      · rw [← hc, hb] at h
        exact absurd (hmem a' hin' hb') (List.nodup_cons.1 h).1
    · rcases List.mem_cons.1 ha' with hc' | hin'
      · rw [← hc', hb'] at h
        exact absurd (hmem a hin hb) (List.nodup_cons.1 h).1
      · refine ih ?_ hin hin'
        cases hc : f c with
        | none => rwa [hc] at h
        | some d =>
          rw [hc] at h
          exact (List.nodup_cons.1 h).2

namespace Booked

variable {h : Host τ η κ δ} {base : Scope} {count : Nat} {w v : ToldState τ κ δ}

theorem numbers_nodup (hw : Booked h base count w) : w.journal.numbers.Nodup := by
  rw [hw.numbers]
  exact List.nodup_range'

/-- There is one write of each number. -/
theorem writing_unique (hw : Booked h base count w) {x x' : Place} {n : Nat}
    {name name' text text' : String} {kind kind' : BindingKind}
    (hmem : .writing x n name kind text ∈ w.journal)
    (hmem' : .writing x' n name' kind' text' ∈ w.journal) :
    Entry.writing x n name kind text = .writing x' n name' kind' text' :=
  eq_of_filterMap_nodup hw.numbers_nodup hmem hmem' rfl rfl

/-- No write has a number that has not been taken. -/
theorem number_le (hw : Booked h base count w) {x : Place} {n : Nat} {name text : String}
    {kind : BindingKind} (hmem : .writing x n name kind text ∈ w.journal) :
    n ≤ w.counters.bindingsWritten := by
  have hn : n ∈ w.journal.numbers := List.mem_filterMap.2 ⟨_, hmem, rfl⟩
  rw [hw.numbers, List.mem_range'_1] at hn
  rw [hw.written]
  omega

/-- What has been told stays true, so only what is told anew has to be looked at. -/
theorem of_append (hw : Booked h base count w) {m : Journal} (hjournal : v.journal = w.journal ++ m)
    (hscope : v.scope = Scope.replay w.scope m)
    (hnumbers : m.numbers = List.range' (w.counters.bindingsWritten + 1) m.numbers.length)
    (hwritten : v.counters.bindingsWritten = w.counters.bindingsWritten + m.numbers.length)
    (honce : (w.journal.answeredWrites ++ m.answeredWrites).Nodup)
    (hstored : ∀ x n r, .stored x n r ∈ m →
      ∃ name kind text, .writing x n name kind text ∈ w.journal)
    (hbound : ∀ x n b text, .bound x n b text ∈ m → ∃ name kind receipt,
      .writing x n name kind text ∈ w.journal ∧ .stored x n (.ok receipt) ∈ w.journal ∧
        b = Host.bindingOf name kind text receipt)
    (hold : ∀ scheme content, h.store.InMemory scheme content → ∀ x n r name,
      .stored x n r ∈ w.journal →
      (content v.store.1).get? (Host.bindingKey h.context.runId name n) =
        (content w.store.1).get? (Host.bindingKey h.context.runId name n))
    (hnew : ∀ scheme content, h.store.InMemory scheme content → ∀ x n receipt,
      .stored x n (.ok receipt) ∈ m → ∃ name kind text,
        .writing x n name kind text ∈ w.journal ∧
        receipt = .of scheme (MemoryStore.refPrefix ++ Host.bindingKey h.context.runId name n)
          (Text.Utf8.encode text.toList) "text/plain" ∧
        (content v.store.1).get? (Host.bindingKey h.context.runId name n) =
          some (Text.Utf8.encode text.toList)) :
    Booked h base count v := by
  have hin : ∀ e ∈ w.journal, e ∈ v.journal := fun e he => hjournal ▸ List.mem_append_left m he
  have hall : v.journal.numbers = w.journal.numbers ++ m.numbers := by
    rw [Journal.numbers, hjournal, List.filterMap_append]
    rfl
  refine ⟨?_, ?_, ?_, ?_, ?_, ?_, ?_⟩
  · rw [hscope, hw.scope, hjournal, Scope.replay_append]
  · rw [hall, List.length_append, ← List.range'_append_1, ← hw.numbers]
    rw [hw.written] at hnumbers
    rw [show count + 1 + w.journal.numbers.length = count + w.journal.numbers.length + 1 by omega,
      ← hnumbers]
  · rw [hwritten, hall, List.length_append, hw.written, Nat.add_assoc]
  · rw [Journal.answeredWrites, hjournal, List.filterMap_append]
    exact honce
  · intro x n r hmem
    rw [hjournal, List.mem_append] at hmem
    obtain ⟨name, kind, text, hwriting⟩ := hmem.elim (hw.stored x n r) (hstored x n r)
    exact ⟨name, kind, text, hin _ hwriting⟩
  · intro x n b text hmem
    rw [hjournal, List.mem_append] at hmem
    obtain ⟨name, kind, receipt, hwriting, hreceipt, hb⟩ :=
      hmem.elim (hw.bound x n b text) (hbound x n b text)
    exact ⟨name, kind, receipt, hin _ hwriting, hin _ hreceipt, hb⟩
  · intro scheme content hmemory x n receipt hmem
    rw [hjournal, List.mem_append] at hmem
    rcases hmem with hmem | hmem
    · obtain ⟨name, kind, text, hwriting, hreceipt, hkept⟩ :=
        hw.kept scheme content hmemory x n receipt hmem
      exact ⟨name, kind, text, hin _ hwriting, hreceipt,
        (hold scheme content hmemory x n _ name hmem).trans hkept⟩
    · obtain ⟨name, kind, text, hwriting, hreceipt, hkept⟩ :=
        hnew scheme content hmemory x n receipt hmem
      exact ⟨name, kind, text, hin _ hwriting, hreceipt, hkept⟩

/-- What is not about writes leaves the books as they are. -/
theorem of_other (hw : Booked h base count w) {m : Journal} (hscope : v.scope = w.scope)
    (hwritten : v.counters.bindingsWritten = w.counters.bindingsWritten)
    (hjournal : v.journal = w.journal ++ m) (hm : ∀ e ∈ m, e.isWrite = false)
    (hcontent : ∀ scheme content, h.store.InMemory scheme content → ∀ name n,
      (content v.store.1).get? (Host.bindingKey h.context.runId name n) =
        (content w.store.1).get? (Host.bindingKey h.context.runId name n)) :
    Booked h base count v := by
  have hnone : ∀ e : Entry, e ∈ m → e.isWrite → False := by
    intro e he hwrite
    rw [hm e he] at hwrite
    cases hwrite
  have hnumbers : m.numbers = [] := by
    rw [Journal.numbers, List.filterMap_eq_nil_iff]
    intro e he
    cases e <;> first | rfl | exact (hnone _ he rfl).elim
  have hanswered : m.answeredWrites = [] := by
    rw [Journal.answeredWrites, List.filterMap_eq_nil_iff]
    intro e he
    cases e <;> first | rfl | exact (hnone _ he rfl).elim
  refine hw.of_append hjournal ?_ ?_ ?_ ?_ ?_ ?_ ?_ ?_
  · rw [hscope, Scope.replay_of_other hm]
  · rw [hnumbers]
    rfl
  · rw [hnumbers, hwritten]
    rfl
  · rw [hanswered, List.append_nil]
    exact hw.once
  · exact fun x n r hmem => (hnone _ hmem rfl).elim
  · exact fun x n b text hmem => (hnone _ hmem rfl).elim
  · exact fun scheme content hmemory x n r name _ => hcontent scheme content hmemory name n
  · exact fun scheme content hmemory x n receipt hmem => (hnone _ hmem rfl).elim

/-- A quiet change leaves the books as they are. -/
theorem of_quiet (hw : Booked h base count w) (hquiet : Quiet h w v) : Booked h base count v := by
  obtain ⟨m, hm, hmark⟩ := hquiet.journal
  refine hw.of_other hquiet.scope hquiet.written hm ?_ ?_
  · intro e he
    have hmark := hmark e he
    cases e <;> first | rfl | cases hmark
  · intro scheme content hmemory name n
    rcases hquiet.store with hstore | ⟨key, hstore⟩
    · rw [hstore]
    · rw [hstore, (hmemory.get key w.store.1).1]

/-- A write takes a number. -/
theorem number (hw : Booked h base count w) (y : Place) (name : String) (kind : BindingKind)
    (text : String) : Booked h base count (Rules.numbered y name kind text w) := by
  refine hw.of_append (m := [.writing y (w.counters.bindingsWritten + 1) name kind text]) rfl rfl rfl
    rfl ?_ ?_ ?_ (fun _ _ _ _ _ _ _ _ => rfl) ?_
  · exact (List.append_nil w.journal.answeredWrites).symm ▸ hw.once
  · simp
  · simp
  · simp

/-- The store answers a write that has a number and has not been answered yet. -/
theorem put (hw : Booked h base count w) {y : Place} {n : Nat} {name text : String}
    {kind : BindingKind} (hwriting : .writing y n name kind text ∈ w.journal)
    (hopen : ∀ r, .stored y n r ∉ w.journal) :
    Booked h base count (Rules.putText h y n name text w) := by
  let key := Host.bindingKey h.context.runId name n
  let bytes := Text.Utf8.encode text.toList
  -- No other write that was answered has this number.
  have hother : ∀ x m r, .stored x m r ∈ w.journal → m ≠ n := by
    rintro x m r hmem rfl
    obtain ⟨name', kind', text', hwriting'⟩ := hw.stored x m r hmem
    have heq := hw.writing_unique hwriting' hwriting
    rw [Entry.writing.injEq] at heq
    exact hopen r (heq.1 ▸ hmem)
  refine hw.of_append (m := [.stored y n (Rules.receiptOf h n name text w)]) rfl rfl rfl rfl ?_ ?_ ?_
    ?_ ?_
  · rw [List.nodup_append]
    refine ⟨hw.once, by simp [Journal.answeredWrites, Entry.answeredWrite?], ?_⟩
    intro a ha b hb
    have hbn : b = n := by simpa [Journal.answeredWrites, Entry.answeredWrite?] using hb
    obtain ⟨e, he, hea⟩ := List.mem_filterMap.1 ha
    cases e with
    | stored x m r =>
      rw [Entry.answeredWrite?, Option.some.injEq] at hea
      rw [hbn, ← hea]
      exact hother x m r he
    | _ => cases hea
  · intro x m r hmem
    rw [List.mem_singleton, Entry.stored.injEq] at hmem
    obtain ⟨rfl, rfl, _⟩ := hmem
    exact ⟨name, kind, text, hwriting⟩
  · simp
  · intro scheme content hmemory x m r name' hmem
    have hne : Host.bindingKey h.context.runId name' m ≠ key := fun heq =>
      hother x m r hmem (bindingKey_inj heq)
    show (content (h.store.put key bytes "text/plain" w.store.1).2).get? _ = _
    exact hmemory.get?_put_of_ne hne bytes "text/plain" w.store.1
  · intro scheme content hmemory x m receipt hmem
    rw [List.mem_singleton, Entry.stored.injEq] at hmem
    obtain ⟨rfl, rfl, hreceipt⟩ := hmem
    refine ⟨name, kind, text, hwriting, ?_⟩
    rcases hmemory.put key bytes "text/plain" w.store.1 with ⟨⟨e, he⟩, _⟩ | ⟨hok, hcontent⟩
    · exact absurd (hreceipt.trans he) nofun
    · refine ⟨Except.ok.inj (hreceipt.trans hok), ?_⟩
      show (content (h.store.put key bytes "text/plain" w.store.1).2).get? key = _
      rw [hcontent, KeyMap.get?_insert_self]

/-- A name is bound to a text that is stored. -/
theorem bind (hw : Booked h base count w) {y : Place} {n : Nat} {name text : String}
    {kind : BindingKind} {receipt : StoredContent}
    (hwriting : .writing y n name kind text ∈ w.journal)
    (hstored : .stored y n (.ok receipt) ∈ w.journal) :
    Booked h base count (Rules.bindText y n name kind text receipt w) := by
  refine hw.of_append (m := [.bound y n (Host.bindingOf name kind text receipt) text]) rfl rfl rfl rfl
    ?_ ?_ ?_ (fun _ _ _ _ _ _ _ _ => rfl) ?_
  · exact (List.append_nil w.journal.answeredWrites).symm ▸ hw.once
  · simp
  · intro x m b text' hmem
    rw [List.mem_singleton, Entry.bound.injEq] at hmem
    obtain ⟨rfl, rfl, rfl, rfl⟩ := hmem
    exact ⟨name, kind, receipt, hwriting, hstored, rfl⟩
  · simp

/-! ## Rules -/

/-- The rules of a run whose bindings are booked. -/
def rules (h : Host τ η κ δ) (base : Scope) (count : Nat) : Rules h where
  inv := Booked h base count
  own _ _ _ := True
  inv_quiet _ _ hquiet hw := hw.of_quiet hquiet
  own_quiet _ _ _ _ _ := trivial
  own_mono _ _ _ _ _ _ := trivial

variable {x y : Place} {L : Journal}

/-- What may be done at a place: the bindings stay booked, and what is told is about the place and does not end what runs there. -/
theorem granted {m : Journal} (hv : Booked h base count v) (hm : v.journal = w.journal ++ m)
    (hplace : ∀ e ∈ m, x <:+ e.place) (hmark : ∀ e ∈ m, e.isMark = false) :
    ((rules h base count).pact x).grant w v := by
  refine ⟨fun _ => ⟨hv, trivial⟩, m, hm, fun e he => ⟨hplace e he, fun hcloses => ?_⟩⟩
  have hmark := hmark e he
  cases e <;> first | exact hcloses | cases hmark

/-- What the journal says of a place is in the journal. -/
theorem mem_of_own (hown : (rules h base count).Own x L w) {e : Entry} (he : e ∈ L) :
    e ∈ w.journal :=
  (Journal.mem_under.1 (hown.2.symm ▸ he)).1

/-- Others do not answer the write of a place. -/
theorem firm_open (hxy : x <:+ y) (L : Journal) (n : Nat) :
    ((rules h base count).pact x).Firm fun w =>
      (rules h base count).Own x L w ∧ ∀ r, .stored y n r ∉ w.journal := by
  rintro w v ⟨hobeys, m, hm, hplace⟩ ⟨hown, hopen⟩
  refine ⟨Rules.firm_own x L w v ⟨hobeys, m, hm, hplace⟩ hown, fun r hmem => ?_⟩
  rw [hm, List.mem_append] at hmem
  rcases hmem with hmem | hmem
  · exact hopen r hmem
  · exact hplace _ hmem hxy

/-- The stages of a write. -/
theorem writes (hxy : x <:+ y) (name : String) (kind : BindingKind) (text : String) :
    Rules.Writes (rules h base count) x y name kind text
      (fun L n w => (rules h base count).Own x (L ++ [.writing y n name kind text]) w ∧
        ∀ r, .stored y n r ∉ w.journal)
      (fun L n receipt => (rules h base count).Own x
        (L ++ [.writing y n name kind text, .stored y n (.ok receipt)])) where
  firm L n := firm_open hxy _ n
  number L w hown := by
    have hnumber := hown.1.number y name kind text
    refine ⟨granted hnumber rfl (by simpa [Entry.place] using hxy) (by simp [Entry.isMark]),
      Rules.own_append hown hnumber rfl (by simpa [Entry.place] using hxy), ?_⟩
    intro r hmem
    rcases List.mem_append.1 hmem with hmem | hmem
    · obtain ⟨name', kind', text', hwriting⟩ := hown.1.stored _ _ _ hmem
      have hle := hown.1.number_le hwriting
      omega
    · simp at hmem
  put L n w hw := by
    obtain ⟨hown, hopen⟩ := hw
    have hput := hown.1.put (mem_of_own hown (List.mem_append_right L List.mem_cons_self)) hopen
    have hafter := Rules.own_append hown hput (m := [.stored y n (Rules.receiptOf h n name text w)]) rfl
      (by simpa [Entry.place] using hxy)
    rw [List.append_assoc] at hafter
    refine ⟨granted hput rfl (by simpa [Entry.place] using hxy) (by simp [Entry.isMark]), ?_⟩
    revert hafter
    cases Rules.receiptOf h n name text w with
    | ok receipt => exact id
    | error e => exact id
  bind L n receipt w hown := by
    have hwriting : .writing y n name kind text ∈ w.journal :=
      mem_of_own hown (List.mem_append_right L List.mem_cons_self)
    have hstored : .stored y n (.ok receipt) ∈ w.journal :=
      mem_of_own hown (List.mem_append_right L (List.mem_cons_of_mem _ List.mem_cons_self))
    have hbind := hown.1.bind hwriting hstored
    have hafter := Rules.own_append hown hbind rfl (by simpa [Entry.place] using hxy)
    rw [List.append_assoc] at hafter
    exact ⟨granted hbind rfl (by simpa [Entry.place] using hxy) (by simp [Entry.isMark]), hafter⟩

/-- A session call writes nothing but the record of its agent, so all of its stages are alike. -/
def stages (h : Host τ η κ δ) (base : Scope) (count : Nat) (x : Place) (L : Journal) :
    Stages τ κ δ where
  before := (rules h base count).Own x L
  held _ := (rules h base count).Own x L
  failed := (rules h base count).Own x L
  ended := (rules h base count).Own x L

theorem lasts_own (x : Place) (L : Journal) :
    Stages.Lasts (rules h base count) x ((rules h base count).Own x L) where
  firm := Rules.firm_own x L
  quiet _ _ hquiet hjournal hw := ⟨hw.1.of_quiet hquiet, hjournal ▸ hw.2⟩

/-- A change that writes no binding, and tells nothing. -/
theorem own_of_other (hown : (rules h base count).Own x L w) (hscope : v.scope = w.scope)
    (hwritten : v.counters.bindingsWritten = w.counters.bindingsWritten)
    (hjournal : v.journal = w.journal)
    (hcontent : ∀ scheme content, h.store.InMemory scheme content → ∀ name n,
      (content v.store.1).get? (Host.bindingKey h.context.runId name n) =
        (content w.store.1).get? (Host.bindingKey h.context.runId name n)) :
    (rules h base count).Own x L v ∧ ((rules h base count).pact x).grant w v := by
  have hv := hown.1.of_other hscope hwritten (m := []) (by simp [hjournal]) (by simp) hcontent
  exact ⟨⟨hv, hjournal ▸ hown.2⟩, granted hv (m := []) (by simp [hjournal]) (by simp) (by simp)⟩

theorem stages_sound (x : Place) (L : Journal) (agent : Agent) (title : String) :
    (stages h base count x L).Sound (rules h base count) x agent title where
  before := lasts_own x L
  held _ := lasts_own x L
  failed := lasts_own x L
  opened _ hw := hw
  remember _ _ _ _ hw haside :=
    own_of_other hw haside.scope haside.written haside.journal
      fun _ _ _ _ _ => by rw [haside.store]; rfl
  record id now w _ hw := by
    intro text bytes v
    have hother : (rules h base count).Own x L v ∧ ((rules h base count).pact x).grant w v := by
      refine own_of_other hw rfl rfl rfl fun scheme content hmemory name n => ?_
      have hne : Host.bindingKey h.context.runId name n ≠ h.recordKey agent.name :=
        bindingKey_ne_memoryKey _ _ _ _ _ _
      show (content (h.store.put (h.recordKey agent.name) bytes "text/markdown" w.store.1).2).get? _ = _
      exact hmemory.get?_put_of_ne hne bytes "text/markdown" w.store.1
    refine ⟨hother.2, ?_⟩
    split
    · exact hother.1
    · exact hother.1
  unrecorded _ _ _ hw := hw
  fails _ hw := hw
  breaks _ _ hw := hw

/-- Every program keeps the rules. -/
theorem kept_rules (h : Host τ η κ δ) (base : Scope) (count : Nat) (p : Program) :
    (rules h base count).Kept p where
  write x y name kind text hxy := Rules.tells_write (writes hxy name kind text)
  call x y call resume hxy := by
    -- Neither the call nor its answer is about a binding.
    have htold : ∀ {L w} {e : Entry}, (rules h base count).Own x L w → e.isWrite = false →
        e.isMark = false → e.place = y → ((rules h base count).pact x).grant w (w.tell e) ∧
          (rules h base count).Own x (L ++ [e]) (w.tell e) := by
      rintro L w e hown hwrite hmark rfl
      have hv : Booked h base count (w.tell e) :=
        hown.1.of_other (m := [e]) rfl rfl rfl (by simpa using hwrite) fun _ _ _ _ _ => rfl
      exact ⟨granted hv (m := [e]) rfl (by simpa using hxy) (by simpa using hmark),
        Rules.own_append hown hv rfl (by simpa using hxy)⟩
    refine Rules.tells_call
      (fun L n => stages h base count x (L ++ [.asked y n call resume]))
      (fun L n agent _ => stages_sound x _ agent call.title) (fun _ _ _ hw => hw) ?_ ?_ ?_
    · exact fun L w hown => htold hown rfl rfl rfl
    · intro L n text w hown
      have hafter := htold (e := .answered y n (.ok text)) hown rfl rfl rfl
      rwa [List.append_assoc] at hafter
    · intro L n e w hown
      have hafter := htold (e := .answered y n (.error e)) hown rfl rfl rfl
      rwa [List.append_assoc] at hafter

end Booked

/-! ## Lives -/

namespace Host

variable {h : Host τ η κ δ} {start s w : RunState τ κ δ} {l : Journal}

/-- What can become of an interpreter from a state on: what has been told since, and its state. It runs programs, one after
    another, each of them to its end or up to some moment. Between its runs nothing changes but the events that wait. -/
inductive Lives (h : Host τ η κ δ) (start : RunState τ κ δ) : Journal → RunState τ κ δ → Prop where
  | start : Lives h start [] start
  | during {L l : Journal} {s w : RunState τ κ δ} {p : Program} {inputs : KeyMap String}
      {limit : Option Nat} (hs : Lives h start L s) (hw : h.Tale p inputs limit s L l w) :
      Lives h start l w
  | between {l : Journal} {s : RunState τ κ δ} (hs : Lives h start l s) (outbox : Outbox δ) :
      Lives h start l { s with outbox }

/-- The events that wait are no business of the bindings. -/
theorem booked_outbox {base : Scope} {count : Nat} (hs : Booked h base count (s.withJournal l))
    (outbox : Outbox δ) : Booked h base count ({ s with outbox }.withJournal l) :=
  hs.of_other (m := []) rfl rfl (by simp) (by simp) fun _ _ _ _ _ => rfl

/-- Before anything is told, the books begin with what there is. -/
theorem booked_start (h : Host τ η κ δ) (s : RunState τ κ δ) :
    Booked h s.scope s.counters.bindingsWritten (s.withJournal []) where
  scope := rfl
  numbers := rfl
  written := rfl
  once := List.nodup_nil
  stored _ _ _ hmem := by cases hmem
  bound _ _ _ _ hmem := by cases hmem
  kept _ _ _ _ _ _ hmem := by cases hmem

/-- Whatever an interpreter has run, its bindings are booked. -/
theorem Lives.booked {backend : τ} {store : κ} {sink : δ}
    (hlives : h.Lives (.fresh backend store sink) l w) : Booked h .empty 0 (w.withJournal l) := by
  induction hlives with
  | start => exact booked_start h (.fresh backend store sink)
  | during _ hw ih => exact (hw.inv (Booked.kept_rules h .empty 0 _) (booked_outbox ih _)).1
  | between _ outbox ih => exact booked_outbox ih outbox

/-- There is something told of every moment of every run of an interpreter. -/
theorem Lives.passes {backend : τ} {store : κ} {sink : δ}
    (hlives : h.Lives (.fresh backend store sink) l s) {p : Program} {inputs : KeyMap String}
    {limit : Option Nat}
    (hw : h.Passes limit 0 true (h.begun p inputs s).1 (h.begun p inputs s).2 w) :
    ∃ m, h.Lives (.fresh backend store sink) (l ++ m) w := by
  have hkept := Booked.kept_rules h .empty 0 p
  have hbooked : Booked h .empty 0 (h.toldStart p inputs s l) := booked_outbox hlives.booked _
  obtain ⟨l', htale⟩ := tale_of_passes (L := l) hkept hbooked hw
  obtain ⟨m, rfl⟩ := (htale.inv hkept hbooked).2
  exact ⟨m, .during hlives htale⟩

/-- When a run is over, only the events that wait have changed since its last moment. -/
theorem run_outbox (h : Host τ η κ δ) (p : Program) (inputs : KeyMap String) (limit : Option Nat)
    (s : RunState τ κ δ) : ∃ outbox, (h.run p inputs limit s).1 =
      { (h.drive limit 0 true (h.begun p inputs s).1 (h.begun p inputs s).2).1 with outbox } := by
  unfold run
  simp only
  split
  · unfold finish
    simp only
    split
    · exact ⟨_, rfl⟩
    · exact ⟨_, rfl⟩
  · exact ⟨_, rfl⟩

/-- There is something told of every run of an interpreter when it is over. -/
theorem Lives.run {backend : τ} {store : κ} {sink : δ}
    (hlives : h.Lives (.fresh backend store sink) l s) (p : Program) (inputs : KeyMap String)
    (limit : Option Nat) :
    ∃ m, h.Lives (.fresh backend store sink) (l ++ m) (h.run p inputs limit s).1 := by
  obtain ⟨m, hm⟩ := hlives.passes (h.passes_drive limit 0 true (h.begun p inputs s).1
    (h.begun p inputs s).2)
  obtain ⟨outbox, hrun⟩ := h.run_outbox p inputs limit s
  exact ⟨m, hrun ▸ hm.between outbox⟩

end Host

/-! ## Agreement -/

/-- The reference that the store has given for the text of a binding. -/
def Entry.reference? : Entry → Option String
  | .stored _ _ (.ok receipt) => some receipt.contentRef
  | _ => none

theorem Entry.reference?_eq_some {e : Entry} {ref : String} (href : e.reference? = some ref) :
    ∃ x n receipt, e = .stored x n (.ok receipt) ∧ ref = receipt.contentRef := by
  cases e with
  | stored x n r =>
    cases r with
    | ok receipt => exact ⟨x, n, receipt, rfl, (Option.some.inj href).symm⟩
    | error e => cases href
  | _ => cases href

/-- All references that the store has given for texts of bindings. -/
def Journal.references (l : Journal) : List String :=
  l.filterMap Entry.reference?

/-- A binding agrees with the value of its name and with what is stored. -/
def Binding.Agrees (scheme : Scheme) (content : MemoryStore) (scope : Scope) (b : Binding) : Prop :=
  ∃ text key,
    scope.value? b.name = some text ∧
    MemoryStore.keyOfRef? b.contentRef = some key ∧
    content.get? key = some (Text.Utf8.encode text.toList) ∧
    b.sha256 = some (String.ofList (Text.Hex.encode
      (scheme.digest (Text.Utf8.encode text.toList)))) ∧
    b.size = some (UInt64.ofNat (Text.Utf8.encode text.toList).length) ∧
    b.preview = String.ofList (text.toList.take 200)

namespace Booked

variable {h : Host τ η κ δ} {count : Nat} {w : ToldState τ κ δ} {scheme : Scheme}
  {content : κ → MemoryStore}

/-- Each binding agrees with what is stored. -/
theorem agrees (hw : Booked h .empty count w) (hstore : h.store.InMemory scheme content)
    {b : Binding} (hb : b ∈ w.scope.bindings) : b.Agrees scheme (content w.store.1) w.scope := by
  obtain ⟨text, htext⟩ := Option.isSome_iff_exists.1 (Scope.value?_isSome_iff.2 (List.mem_map_of_mem hb))
  have hreplay : (b, text) ∈ (Scope.replay .empty w.journal).entries := hw.scope ▸ Scope.mem_entries.2 ⟨hb, htext⟩
  obtain hbase | ⟨x, n, hbound⟩ := Scope.mem_replay hreplay
  · cases hbase
  · obtain ⟨name, kind, receipt, hwriting, hstored, rfl⟩ := hw.bound x n b text hbound
    obtain ⟨name', kind', text', hwriting', rfl, hkept⟩ := hw.kept scheme content hstore x n receipt hstored
    -- The number tells which text was stored.
    have heq := hw.writing_unique hwriting hwriting'
    rw [Entry.writing.injEq] at heq
    obtain ⟨_, _, rfl, _, rfl⟩ := heq
    exact ⟨text, _, htext, MemoryStore.keyOfRef?_ref _, hkept, rfl, rfl, rfl⟩

/-- Answers for different writes hold different references. -/
theorem references_nodup {base : Scope} (hw : Booked h base count w)
    (hstore : h.store.InMemory scheme content) : w.journal.references.Nodup := by
  have honce := hw.once
  rw [Journal.answeredWrites, List.Nodup, List.pairwise_filterMap] at honce
  rw [Journal.references, List.Nodup, List.pairwise_filterMap]
  refine honce.imp_of_mem fun {e e'} he he' hne ref href ref' href' heq => ?_
  have hanswer : ∀ {e : Entry} {ref}, e ∈ w.journal → e.reference? = some ref → ∃ name n,
      e.answeredWrite? = some n ∧
        ref = MemoryStore.refPrefix ++ Host.bindingKey h.context.runId name n := by
    intro e ref he href
    obtain ⟨x, n, receipt, rfl, rfl⟩ := Entry.reference?_eq_some href
    obtain ⟨name, _, _, _, rfl, _⟩ := hw.kept scheme content hstore x n receipt he
    exact ⟨name, n, rfl, rfl⟩
  obtain ⟨name, n, hn, hkey⟩ := hanswer he href
  obtain ⟨name', n', hn', hkey'⟩ := hanswer he' href'
  rw [heq, hkey', String.append_right_inj] at hkey
  exact hne n hn n' hn' (bindingKey_inj hkey).symm

end Booked

/-- What is to be said of bindings and store at a moment of a life. -/
structure Host.Consistent (h : Host τ η κ δ) (scheme : Scheme) (content : κ → MemoryStore)
    (start : RunState τ κ δ) (l : Journal) (w : RunState τ κ δ) : Prop where
  /-- Every binding agrees with the value of its name and with what is stored. -/
  agrees : ∀ b ∈ w.scope.bindings, b.Agrees scheme (content w.store) w.scope
  /-- No two writes were given one reference. -/
  distinct : l.references.Nodup
  /-- Behind a reference lies the text that it was given for, now and whatever comes. -/
  lasting : ∀ x n receipt, .stored x n (.ok receipt) ∈ l → ∃ name kind text key,
    .writing x n name kind text ∈ l ∧ MemoryStore.keyOfRef? receipt.contentRef = some key ∧
      ∀ m v, h.Lives start (l ++ m) v →
        (content v.store).get? key = some (Text.Utf8.encode text.toList)
  /-- What is bound changes only when the journal says so. -/
  scope : ∀ m v, h.Lives start (l ++ m) v → v.scope = w.scope.replay m
  /-- A text that the store has refused is never bound. -/
  refused : ∀ x n e, .stored x n (.error e) ∈ l →
    ∀ m v, h.Lives start (l ++ m) v → ∀ b text, .bound x n b text ∉ l ++ m

/-- Whatever programs an interpreter runs, at every moment its bindings and its store agree, if the store is in memory. -/
theorem bindings_stored {h : Host τ η κ δ} {scheme : Scheme} {content : κ → MemoryStore}
    (hstore : h.store.InMemory scheme content) {backend : τ} {store : κ} {sink : δ} {l : Journal}
    {w : RunState τ κ δ} (hlives : h.Lives (.fresh backend store sink) l w) :
    h.Consistent scheme content (.fresh backend store sink) l w ∧
      ∀ p inputs limit,
        (∀ v, h.Passes limit 0 true (h.begun p inputs w).1 (h.begun p inputs w).2 v →
          ∃ m, h.Lives (.fresh backend store sink) (l ++ m) v) ∧
        ∃ m, h.Lives (.fresh backend store sink) (l ++ m) (h.run p inputs limit w).1 := by
  have hw := hlives.booked
  refine ⟨⟨fun b hb => hw.agrees hstore hb, hw.references_nodup hstore, ?_, ?_, ?_⟩,
    fun p inputs limit => ⟨fun v hv => hlives.passes hv, hlives.run p inputs limit⟩⟩
  · intro x n receipt hmem
    obtain ⟨name, kind, text, hwriting, rfl, _⟩ := hw.kept scheme content hstore x n receipt hmem
    refine ⟨name, kind, text, _, hwriting, MemoryStore.keyOfRef?_ref _, ?_⟩
    intro m v hlater
    have hv := hlater.booked
    obtain ⟨name', kind', text', hwriting', _, hkept⟩ :=
      hv.kept scheme content hstore x n _ (List.mem_append_left m hmem)
    have heq := hv.writing_unique (List.mem_append_left m hwriting) hwriting'
    rw [Entry.writing.injEq] at heq
    obtain ⟨_, _, rfl, _, rfl⟩ := heq
    exact hkept
  · intro m v hlater
    have hscope : v.scope = Scope.replay .empty (l ++ m) := hlater.booked.scope
    rw [hscope, Scope.replay_append]
    exact congrArg (Scope.replay · m) hw.scope.symm
  · intro x n e hmem m v hlater b text hbound
    have hv := hlater.booked
    obtain ⟨_, _, receipt, _, hstored, _⟩ := hv.bound x n b text hbound
    -- The store has answered this write once.
    have heq := eq_of_filterMap_nodup hv.once (List.mem_append_left m hmem) hstored rfl rfl
    cases heq

/-- A host on which programs are tried out. Its store takes 5 milliseconds for each call. -/
def Host.trial : Host Rehearsal RehearsalSession RefusingStore Unit where
  courier := ⟨⟨fun _ => [0], fun _ _ => [0]⟩, ⟨"run", "hash", "user"⟩, .standard, none, .log, .ofMillis⟩
  backend := .rehearsal
  store := { RefusingStore.operations ⟨fun _ => [0], fun _ _ => [0]⟩ with latency := fun _ _ => 5 }

/-- Before a trial in which the store refuses some writes, given by their numbers. -/
def RunState.trial (parts : KeyMap (List Part)) (refused : List Nat) :
    RunState Rehearsal RefusingStore Unit :=
  .fresh (.ofParts parts) ⟨[], 0, refused, [], false⟩ ()

/-- Before a trial in which the first of two sessions takes 50 milliseconds for its answer. -/
def RunState.slowFirst : RunState Rehearsal RefusingStore Unit :=
  .trial [("One", [{ Part.plain with turns := some [(50, .ok (.ofText "done"))] }])] []

/-- A program that binds a name twice. -/
def Program.rebinding : Program :=
  ⟨[], [], [.assign "a" (.str "One"), .assign "a" (.str "Two")]⟩

/-- The second text is refused, and the name still reads the first one. -/
theorem bindings_stored_refused :
    ∃ l, Host.trial.Consistent ⟨fun _ => [0], fun _ _ => [0]⟩ (·.content) (RunState.trial [] [2]) l
        (Host.trial.run .rebinding [] none (RunState.trial [] [2])).1 ∧
      (Host.trial.run .rebinding [] none (RunState.trial [] [2])).1.scope.value? "a" = some "One" := by
  have hstore : Host.trial.store.InMemory ⟨fun _ => [0], fun _ _ => [0]⟩ (·.content) :=
    RefusingStore.inMemory _ _
  have hstart : Host.trial.Lives (RunState.trial [] [2]) [] (RunState.trial [] [2]) := .start
  obtain ⟨_, hruns⟩ := bindings_stored hstore hstart
  obtain ⟨l, hlives⟩ := (hruns .rebinding [] none).2
  have hworked : (Host.trial.driveWithin none 20 0 true
      (Host.trial.begun .rebinding [] (RunState.trial [] [2])).1
      (Host.trial.begun .rebinding [] (RunState.trial [] [2])).2).any
        (·.1.scope.value? "a" = some "One") := by
    decide +kernel
  obtain ⟨r, hwithin, hvalue⟩ := (Option.any_eq_true _ _).1 hworked
  obtain ⟨outbox, hrun⟩ := Host.trial.run_outbox .rebinding [] none (RunState.trial [] [2])
  rw [Host.trial.drive_of_within hwithin] at hrun
  refine ⟨_, (bindings_stored hstore hlives).1, ?_⟩
  rw [hrun]
  exact of_decide_eq_true hvalue

end Playbook
