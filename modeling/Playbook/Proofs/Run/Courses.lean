import Playbook.Proofs.Run.Bindings
import Playbook.Proofs.Run.Forwarding

/-!
# `Proofs.Run.Courses` — in which order things run

The entries about a place and about what lies directly in it are its *course*. The course of a block or a loop is that of its parts
one after another, up to the first that fails. The course of a `try` is worked out from how its body, the write of the message,
its handler and its final body went.

## Contents
- **Courses.** `Journal.course`, `turn`, and `Account.course_task`: what runs at a place is one turn of what lies around it.
- **Blocks and loops.** `Ran`.
- **Attempts.** `Attempted`.
- **Stories.** `Disciplined`, and `Story.disciplined`: so it is in every story.
- **Runs.** `Host.run_ends`, `Host.run_story`.
-/

namespace Playbook

/-! ## Courses -/

/-- Whether an entry is about a place or about what lies directly in it: that it begins, that it has ended, or how the write of the
    message of a `try` goes. -/
def Entry.isStep (x : Place) (e : Entry) : Bool :=
  e.isMark && (e.place == x || e.place.tail == x) || e.place == .message :: x

/-- What the journal says of a place and of what lies directly in it. -/
def Journal.course (x : Place) (l : Journal) : Journal :=
  l.filter (·.isStep x)

/-- What is told of a task that runs directly in a place, as far as the place is concerned. -/
def turn (x : Place) (leg : Leg) (t : Task) (r : Outcome) : Journal :=
  [.began (leg :: x) t, .ended (leg :: x) r]

section

variable {x y : Place} {leg : Leg} {t : Task} {l m : Journal} {r : Outcome} {e : Entry}

theorem course_append (x : Place) (l m : Journal) :
    Journal.course x (l ++ m) = Journal.course x l ++ Journal.course x m :=
  List.filter_append ..

theorem suffix_of_isStep (h : e.isStep x) : x <:+ e.place := by
  simp only [Entry.isStep, Bool.or_eq_true, Bool.and_eq_true, beq_iff_eq] at h
  rcases h with ⟨_, h | h⟩ | h
  · exact h ▸ List.suffix_refl _
  · exact h ▸ List.tail_suffix _
  · exact h ▸ List.suffix_cons _ _

/-- The course of a place is told in what is about the place. -/
theorem course_under (x : Place) (l : Journal) : (l.under x).course x = l.course x := by
  unfold Journal.course Journal.under
  rw [List.filter_filter]
  apply List.filter_congr
  intro e _
  cases hstep : e.isStep x with
  | false => rfl
  | true => simpa using suffix_of_isStep hstep

/-- What lies deeper is not part of the course. -/
theorem course_eq_nil_of_deep (h : ∀ e ∈ m, ∃ a b : Leg, (a :: b :: x) <:+ e.place) :
    m.course x = [] := by
  unfold Journal.course
  rw [List.filter_eq_nil_iff]
  intro e he
  obtain ⟨a, b, z, hz⟩ := h e he
  have hlength : x.length + 2 ≤ e.place.length := by
    rw [← hz, List.length_append, List.length_cons, List.length_cons]
    omega
  simp only [Entry.isStep, Bool.or_eq_true, Bool.and_eq_true, beq_iff_eq, not_or, not_and]
  refine ⟨fun _ => ⟨fun heq => ?_, fun heq => ?_⟩, fun heq => ?_⟩
  · rw [heq] at hlength
    omega
  · have hx := congrArg List.length heq
    rw [List.length_tail] at hx
    omega
  · rw [heq, List.length_cons] at hlength
    omega

/-- The details of what lies directly in a place are not part of the course. -/
theorem isStep_of_details (hleg : leg ≠ .message) (h : e.Details (leg :: x)) : e.isStep x = false := by
  obtain ⟨hplace, hmark⟩ := h
  simp only [Entry.isStep, hmark, hplace, Bool.false_and, Bool.false_or]
  rw [beq_eq_false_iff_ne]
  exact fun heq => hleg (List.cons.inj heq).1

theorem isStep_began (leg : Leg) (x : Place) (t : Task) : (Entry.began (leg :: x) t).isStep x := by
  simp [Entry.isStep, Entry.isMark, Entry.place]

theorem isStep_ended (leg : Leg) (x : Place) (r : Outcome) : (Entry.ended (leg :: x) r).isStep x := by
  simp [Entry.isStep, Entry.isMark, Entry.place]

/-- What runs directly in a place is one turn in its course. -/
theorem Account.course_task (h : Account (leg :: x) (.task t) m r) (hleg : leg ≠ .message) :
    m.course x = turn x leg t r := by
  obtain ⟨m', rfl, hm'⟩ := h.task_shape
  have hnil : Journal.course x m' = [] := by
    unfold Journal.course
    rw [List.filter_eq_nil_iff]
    intro e he
    rcases hm' e he with hdetails | ⟨a, hdeep⟩
    · simp [isStep_of_details hleg hdetails]
    · have hnone := course_eq_nil_of_deep (m := [e]) (x := x) (by simpa using ⟨a, leg, hdeep⟩)
      rw [Journal.course, List.filter_eq_nil_iff] at hnone
      exact hnone e (List.mem_singleton.2 rfl)
  have hbegan : Journal.course x [Entry.began (leg :: x) t] = [.began (leg :: x) t] :=
    List.filter_cons_of_pos (isStep_began leg x t)
  have hended : Journal.course x [Entry.ended (leg :: x) r] = [.ended (leg :: x) r] :=
    List.filter_cons_of_pos (isStep_ended leg x r)
  rw [← List.singleton_append, course_append, course_append, hnil, hbegan, hended]
  rfl

end

/-! ## Blocks and loops -/

/-- The course of tasks that run one after another, up to the first that fails, and how they go. -/
inductive Ran (x : Place) : List (Leg × Task) → Journal → Outcome → Prop where
  | nil : Ran x [] [] (.ok ())
  | stop {leg : Leg} {t : Task} {rest : List (Leg × Task)} {e : Failure} :
      Ran x ((leg, t) :: rest) (turn x leg t (.error e)) (.error e)
  | next {leg : Leg} {t : Task} {rest : List (Leg × Task)} {m : Journal} {r : Outcome}
      (h : Ran x rest m r) : Ran x ((leg, t) :: rest) (turn x leg t (.ok ()) ++ m) r

/-- The course of a chain. -/
theorem Account.ran {x : Place} {parts : List (Leg × Task)} {m : Journal} {r : Outcome}
    (hparts : Leg.message ∉ parts.map Prod.fst) (h : Account x (.chain parts) m r) :
    Ran x parts (m.course x) r := by
  induction parts generalizing m r with
  | nil =>
    cases h with
    | nil => exact .nil
  | cons part rest ih =>
    obtain ⟨leg, t⟩ := part
    rw [List.map_cons, List.mem_cons, not_or] at hparts
    cases h with
    | stop h =>
      rw [h.course_task (Ne.symm hparts.1)]
      exact .stop
    | next _ h hrest =>
      rw [course_append, h.course_task (Ne.symm hparts.1)]
      exact .next (ih hparts.2 hrest)

/-! ## Attempts -/

/-- The failure that the handler of a `try` is for, given how its body went. -/
def caught? (handler : Option (List Stmt)) : Outcome → Option Failure
  | .ok () => none
  | .error e => if handler.isSome && e.isCatchable then some e else none

/-- The turn of a block that may be missing. -/
def turnOf (x : Place) (leg : Leg) (b : Option (List Stmt)) (r : Outcome) : Journal :=
  match b with
  | none => []
  | some b => turn x leg (.block b) r

/-- The turn of a handler: it has one if there is a failure for it and the message could be bound. -/
def handlerTurn (x : Place) (handler : Option (List Stmt)) (b m c : Outcome) : Journal :=
  match caught? handler b, m with
  | some _, .ok () => turnOf x .handler handler c
  | _, _ => []

/-- How a `try` went up to its final body: as the handler did, or the write of the message before it, if there was a failure to
    deal with, and else as the body did. -/
def handled (handler : Option (List Stmt)) (b m c : Outcome) : Outcome :=
  match caught? handler b with
  | some _ => overrule m c
  | none => b

/-- What the journal says of a `try` at a place, of which the body, the write of the message, the handler and the final body went
    as given; `w` are the entries about the message. -/
structure Attempted (l : Journal) (x : Place) (body : List Stmt) (catchName : Option String)
    (handler final : Option (List Stmt)) (b m c f : Outcome) (w : Journal) : Prop where
  /-- The message of the failure is bound if a handler is to know it by a name, and not otherwise. -/
  message : match caught? handler b, catchName with
    | some e, some name => Wrote (.message :: x) name .assigned e.message w m
    | _, _ => w = [] ∧ m = .ok ()
  /-- The handler begins exactly if the failure can be caught and its message could be bound. -/
  handles : (∃ t, .began (.handler :: x) t ∈ l) ↔ ∃ e, b = .error e ∧ handler.isSome ∧ e.isCatchable ∧
    ∀ name ∈ catchName, Wrote (.message :: x) name .assigned e.message w (.ok ())
  /-- The final body runs once, at last, whatever happened, and its failure counts before all others. -/
  course : l.course x = .began x (.stmt (.attempt body catchName handler final)) ::
    (turn x .body (.block body) b ++ w ++ handlerTurn x handler b m c ++ turnOf x .final final f ++
      [.ended x (overrule f (handled handler b m c))])
  /-- A final body that is missing does not fail. -/
  absent : final = none → f = .ok ()

section

variable {x : Place} {body : List Stmt} {catchName : Option String} {handler final : Option (List Stmt)}
  {l m m₁ m₂ m₃ : Journal} {r b : Outcome}

theorem Attempted.of_under {b m c f : Outcome} {w : Journal}
    (h : Attempted (l.under x) x body catchName handler final b m c f w) :
    Attempted l x body catchName handler final b m c f w where
  message := h.message
  handles := by
    rw [← h.handles]
    refine exists_congr fun t => ?_
    rw [Journal.mem_under]
    exact ⟨fun hmem => ⟨hmem, List.suffix_cons _ _⟩, fun hmem => hmem.1⟩
  course := by rw [← h.course, course_under]
  absent := h.absent

theorem course_wrote {name text : String} {kind : BindingKind}
    (h : Wrote (.message :: x) name kind text m r) : m.course x = m := by
  unfold Journal.course
  rw [List.filter_eq_self]
  intro e he
  simp [Entry.isStep, (h.details e he).1]

/-- The course of a final body. -/
theorem course_final (h : Account x (.chain (finalChain final)) m r) :
    m.course x = turnOf x .final final r ∧ (final = none → r = .ok ()) := by
  cases final with
  | none =>
    cases h with
    | nil => exact ⟨rfl, fun _ => rfl⟩
  | some fb =>
    refine ⟨?_, nofun⟩
    cases h with
    | stop h => exact h.course_task (by simp)
    | next _ h hrest =>
      cases hrest with
      | nil =>
        rw [List.append_nil]
        exact h.course_task (by simp)

/-- A handler begins in no other part of a `try`. -/
theorem began_handler_iff {t u : Task} {r₁ r₃ : Outcome}
    (hbody : Account (.body :: x) (.task (.block body)) m₁ r₁)
    (hfinal : Account x (.chain (finalChain final)) m₃ r₃) :
    .began (.handler :: x) u ∈ Entry.began x t :: (m₁ ++ m₂ ++ m₃ ++ [.ended x r]) ↔
      .began (.handler :: x) u ∈ m₂ := by
  have hself : ∀ t, Entry.began (.handler :: x) u ≠ .began x t := by
    intro t heq
    exact List.cons_ne_self _ _ (Entry.began.inj heq).1
  have hnotBody : Entry.began (.handler :: x) u ∉ m₁ := fun hmem => by
    have hleg := leg_eq_of_suffix (hbody.covered _ hmem) (List.suffix_refl (Leg.handler :: x))
    cases hleg
  have hnotFinal : Entry.began (.handler :: x) u ∉ m₃ := fun hmem => by
    have hleg := leg_eq_of_suffix (hfinal.covered_final _ hmem) (List.suffix_refl (Leg.handler :: x))
    cases hleg
  simp [hself, hnotBody, hnotFinal]

/-- What follows the body of a `try`. -/
theorem Account.handling (h : Account x (.handling catchName handler b) l r) :
    ∃ m c w,
      (match caught? handler b, catchName with
        | some e, some name => Wrote (.message :: x) name .assigned e.message w m
        | _, _ => w = [] ∧ m = .ok ()) ∧
      ((∃ t, .began (.handler :: x) t ∈ l) ↔ ∃ e, b = .error e ∧ handler.isSome ∧ e.isCatchable ∧
        ∀ name ∈ catchName, Wrote (.message :: x) name .assigned e.message w (.ok ())) ∧
      l.course x = w ++ handlerTurn x handler b m c ∧ r = handled handler b m c := by
  cases h with
  | fine => exact ⟨.ok (), .ok (), [], ⟨rfl, rfl⟩, by simp, rfl, rfl⟩
  | @unhandled _ _ _ e hnone =>
    have hcaught : caught? handler (.error e) = none := by
      rcases hnone with rfl | he
      · rfl
      · simp [caught?, he]
    refine ⟨.ok (), .ok (), [], by simp [hcaught], ?_, by simp [handlerTurn, hcaught, Journal.course],
      by simp [handled, hcaught]⟩
    refine ⟨fun ⟨t, ht⟩ => absurd ht List.not_mem_nil, ?_⟩
    rintro ⟨e', he', hsome, hcatchable, _⟩
    cases he'
    simp [caught?, hsome, hcatchable] at hcaught
  | @unbound _ name hb e e' _ hcatchable hmessage =>
    have hcaught : caught? (some hb) (.error e) = some e := by simp [caught?, hcatchable]
    refine ⟨.error e', .ok (), l, by simpa [hcaught] using hmessage, ?_, ?_, ?_⟩
    · refine ⟨fun ⟨t, ht⟩ => ?_, ?_⟩
      · cases (hmessage.details _ ht).2
      · rintro ⟨e'', he'', _, _, hwrote⟩
        cases he''
        cases hmessage
        cases hwrote name rfl
    · rw [course_wrote hmessage]
      simp [handlerTurn]
    · simp [handled, hcaught, overrule]
  | @caught _ _ hb e m' m'' _ hcatchable hmessage h =>
    have hcaught : caught? (some hb) (.error e) = some e := by simp [caught?, hcatchable]
    have hcourse : Journal.course x m' = m' := by
      cases catchName with
      | none => rw [hmessage]; rfl
      | some name => exact course_wrote hmessage
    have hbegan : ∃ t, Entry.began (.handler :: x) t ∈ m' ++ m'' := by
      obtain ⟨rest, rfl, _⟩ := h.task_shape
      exact ⟨_, List.mem_append_right m' List.mem_cons_self⟩
    refine ⟨.ok (), r, m', ?_, ⟨fun _ => ⟨e, rfl, rfl, hcatchable, ?_⟩, fun _ => hbegan⟩, ?_, ?_⟩
    · cases catchName with
      | none => simpa [hcaught] using hmessage
      | some name => simpa [hcaught] using hmessage
    · rintro name rfl
      exact hmessage
    · rw [course_append, hcourse, h.course_task (by simp)]
      simp [handlerTurn, hcaught, turnOf]
    · simp [handled, hcaught, overrule]

/-- The course of a `try`. -/
theorem Account.attempted (h : Account x (.task (.stmt (.attempt body catchName handler final))) l r) :
    ∃ b m c f w, Attempted l x body catchName handler final b m c f w := by
  cases h with
  | leaf h => cases h
  | chain hparts _ => cases hparts
  | @attempt _ _ _ _ _ m₁ m₂ m₃ r₁ r₂ r₃ hbody hhandling hfinal =>
    obtain ⟨hcourse, habsent⟩ := course_final hfinal
    obtain ⟨m, c, w, hmessage, hhandles, hhandler, rfl⟩ := hhandling.handling
    refine ⟨r₁, m, c, r₃, w, hmessage, ?_, ?_, habsent⟩
    · rw [← hhandles]
      exact exists_congr fun u => began_handler_iff hbody hfinal
    · have hbegan : ∀ t, (Entry.began x t).isStep x := by simp [Entry.isStep, Entry.isMark, Entry.place]
      have hended : ∀ r, (Entry.ended x r).isStep x := by simp [Entry.isStep, Entry.isMark, Entry.place]
      have hlast : Journal.course x [.ended x (overrule r₃ (handled handler r₁ m c))] =
          [.ended x (overrule r₃ (handled handler r₁ m c))] := List.filter_cons_of_pos (hended _)
      rw [Journal.course, List.filter_cons_of_pos (hbegan _)]
      congr 1
      rw [← Journal.course, course_append, course_append, course_append, hlast,
        hbody.course_task (by simp), hhandler, hcourse]
      simp only [List.append_assoc]

end

/-! ## Stories -/

/-- What runs one after another does so up to the first failure, and every `try` runs as it should. -/
structure Disciplined (l : Journal) : Prop where
  /-- The statements of a block, and the rounds of a loop. -/
  chains : ∀ x t parts, .began x t ∈ l → t.chain = some parts →
    ∃ m r, Ran x parts m r ∧ l.course x = .began x t :: (m ++ [.ended x r])
  attempts : ∀ x body catchName handler final,
    .began x (.stmt (.attempt body catchName handler final)) ∈ l →
      ∃ b m c f w, Attempted l x body catchName handler final b m c f w

section

variable {p : Program} {inputs : List (String × String)} {l : Journal} {r : Outcome}

/-- The message of a `try` is not among the tasks of a chain. -/
theorem message_not_mem {t : Task} {parts : List (Leg × Task)} (hparts : t.chain = some parts) :
    Leg.message ∉ parts.map Prod.fst := by
  have hblock : ∀ (b : List Stmt) (i : Nat), Leg.message ∉ (blockChain i b).map Prod.fst := by
    intro b
    induction b with
    | nil => simp [blockChain]
    | cons s rest ih => intro i; simpa [blockChain] using ih (i + 1)
  have hround : ∀ (b : List Stmt) (k i : Nat), Leg.message ∉ (roundChain b i k).map Prod.fst := by
    intro b k
    induction k with
    | zero => simp [roundChain]
    | succ k ih => intro i; simpa [roundChain] using ih (i + 1)
  cases t with
  | block b => exact Option.some.inj hparts ▸ hblock b 0
  | stmt s =>
    cases s with
    | loop count body => exact Option.some.inj hparts ▸ hround body count.toNat 0
    | _ => cases hparts
  | branch b =>
    simp only [Task.chain] at hparts
    split at hparts
    · cases hparts
    · obtain rfl := Option.some.inj hparts
      simp

theorem Account.chain_course {x : Place} {t : Task} {parts : List (Leg × Task)}
    (h : Account x (.task t) l r) (hparts : t.chain = some parts) :
    ∃ m r, Ran x parts m r ∧ l.course x = .began x t :: (m ++ [.ended x r]) := by
  cases h with
  | leaf h => cases h <;> cases hparts
  | @chain _ _ parts' m _ hparts' h =>
    obtain rfl := Option.some.inj (hparts.symm.trans hparts')
    refine ⟨_, r, h.ran (message_not_mem hparts), ?_⟩
    have hbegan : (Entry.began x t).isStep x := by simp [Entry.isStep, Entry.isMark, Entry.place]
    have hended : (Entry.ended x r).isStep x := by simp [Entry.isStep, Entry.isMark, Entry.place]
    have hlast : Journal.course x [.ended x r] = [.ended x r] := List.filter_cons_of_pos hended
    rw [Journal.course, List.filter_cons_of_pos hbegan, ← Journal.course, course_append, hlast]
  | attempt => cases hparts
  | parallel => cases hparts

theorem Story.disciplined (h : Story p inputs l r) : Disciplined l where
  chains x t parts hmem hparts := by
    obtain ⟨_, r', haccount⟩ := h.within hmem
    rw [← course_under]
    exact haccount.chain_course hparts
  attempts x body catchName handler final hmem := by
    obtain ⟨_, r', haccount⟩ := h.within hmem
    obtain ⟨b, m, c, f, w, hattempted⟩ := haccount.attempted
    exact ⟨b, m, c, f, w, hattempted.of_under⟩

end

/-! ## Runs -/

namespace Host

variable {τ η κ δ : Type}

/-- A run that is not canceled comes to an outcome. -/
theorem run_ends (h : Host τ η κ δ) (p : Program) (inputs : KeyMap String) (backend : τ) (store : κ)
    (sink : δ) : ∃ r, (h.run p inputs none (.fresh backend store sink)).2 = some r := by
  obtain ⟨s, outcome, _, houtcome⟩ := h.run_outcome p inputs backend store sink
  have hforget := h.run_forget p inputs none backend store sink
  rw [houtcome] at hforget
  exact ⟨outcome, (congrArg Prod.snd hforget).symm⟩

section

variable {h : Host τ η κ δ} {p : Program} {inputs : KeyMap String} {limit : Option Nat}
  {s w : RunState τ κ δ} {l l' : Journal} {r : Outcome}

/-- What is bound and stored when a run begins is what there is. -/
theorem booked_begun (h : Host τ η κ δ) (p : Program) (inputs : KeyMap String)
    (s : RunState τ κ δ) :
    Booked h s.scope s.counters.bindingsWritten (h.toldStart p inputs s []) :=
  booked_outbox (booked_start h s) (s.outbox.start h.courier)

/-- A run that comes to an outcome has a story. -/
theorem run_story (hrun : (h.run p inputs limit s).2 = some r) :
    ∃ l, h.Recounted p inputs limit s [] l r ∧ Story p inputs l r := by
  have hkept := Booked.kept_rules h s.scope s.counters.bindingsWritten p
  obtain ⟨l, htold⟩ :=
    recounted_of_result (L := []) hkept (booked_begun h p inputs s) (result_of_run hrun)
  obtain ⟨m, hstory, rfl⟩ := htold.story hkept (booked_begun h p inputs s)
  exact ⟨_, htold, hstory⟩

/-- At every moment of a run the bindings are those that have been told of. -/
theorem Tale.scope_eq (htale : h.Tale p inputs limit s [] l w) : w.scope = s.scope.replay l :=
  (htale.inv (Booked.kept_rules h s.scope s.counters.bindingsWritten p)
    (booked_begun h p inputs s)).1.scope

/-- What has been told at a moment of a run is part of what is told in the end. -/
theorem Recounted.prefix_of_tale (htold : h.Recounted p inputs limit s [] l r)
    (htale : h.Tale p inputs limit s [] l' w) : l' <+: l :=
  htold.before (Booked.kept_rules h s.scope s.counters.bindingsWritten p)
    (booked_begun h p inputs s) htale

/-- Something has been told at every moment of a run. -/
theorem tale_of_moment
    (hw : h.Passes limit 0 true (h.begun p inputs s).1 (h.begun p inputs s).2 w) :
    ∃ l, h.Tale p inputs limit s [] l w :=
  tale_of_passes (Booked.kept_rules h s.scope s.counters.bindingsWritten p)
    (booked_begun h p inputs s) hw

end

end Host

end Playbook
