import Mathlib.Algebra.Ring.Nat
import Playbook.Proofs.Run.Heard
import Playbook.Proofs.Text.Search

/-!
# `Proofs.Session.Tally` — what a tally says of all that it was told

A tally keeps little of what it is told: a text, a sum, and the ids that it has seen. What it says can be told from the whole story
just as well: from the text as a whole, from the usage that was the first of its message, and from the first result that was reported.

## Contents
- **Steps.** `Tally.Step`, `Tally.after`, `Tally.answer`.
- **The whole story.** `Step.spoken`, `Step.Counts` and `Step.counted`, `Event.Keyed`, `Step.Results`: each looks at the list of steps alone.
- **One step, all steps.** `Tally.Reflects` ties a tally to the steps before; `Reflects.step` and `reflects_after`.
- **Answers.** `Tally.after_reports`.
-/

namespace Playbook

open Text (FirstAt splitFirst splitFirst_eq_none_iff splitFirst_eq_some_iff trim trimmed)

namespace Tally

/-! ## Steps -/

/-- One thing that a tally is told. -/
inductive Step where
  | say (text : String)
  | use (u : Usage)
  | report (e : Event)

/-- What becomes of a tally that is told something, and its answer. Text is always taken. -/
def step (t : Tally) : Step → Tally × Bool
  | .say text => (t.addText text, true)
  | .use u => t.recordUsage u
  | .report e => t.accept e

/-- The tally of some steps. -/
def after (steps : List Step) : Tally :=
  steps.foldl (fun t s => (t.step s).1) empty

/-- The answer to a step that comes after some others. -/
def answer (before : List Step) (s : Step) : Bool :=
  ((after before).step s).2

end Tally

/-! ## Marked results -/

/-- What stands between the marks of a text is found, wherever these stand. -/
theorem resultSpan_eq_some {text before after span rest : List Char} (hopen : FirstAt resultOpen text before after)
    (hclose : FirstAt resultClose after span rest) : resultSpan text = some (trim span) := by
  simp [resultSpan, splitFirst_eq_some_iff.2 hopen, splitFirst_eq_some_iff.2 hclose]

/-- A text has a marked result, or no closing mark behind its first opening mark. -/
theorem resultSpan_spec (text : List Char) :
    (∃ before after span rest, FirstAt resultOpen text before after ∧ FirstAt resultClose after span rest ∧
      resultSpan text = some (trim span)) ∨
    ((∀ before after, FirstAt resultOpen text before after → ¬resultClose <:+: after) ∧ resultSpan text = none) := by
  cases hopen : splitFirst resultOpen text with
  | none =>
    refine .inr ⟨fun before after hfirst => ?_, by simp [resultSpan, hopen]⟩
    exact nomatch hopen.symm.trans (splitFirst_eq_some_iff.2 hfirst)
  | some found =>
    obtain ⟨before, after⟩ := found
    have hfirst := splitFirst_eq_some_iff.1 hopen
    cases hclose : splitFirst resultClose after with
    | none =>
      refine .inr ⟨fun before' after' hfirst' => ?_, by simp [resultSpan, hopen, hclose]⟩
      rw [← (hfirst.unique hfirst').2]
      exact splitFirst_eq_none_iff.1 hclose
    | some marked =>
      have hspan := splitFirst_eq_some_iff.1 hclose
      exact .inl ⟨before, after, marked.1, marked.2, hfirst, hspan, resultSpan_eq_some hfirst hspan⟩

/-! ## The whole story -/

/-- What tells an artifact from others: its content reference, else its path, else its name. -/
inductive Event.Keyed : Event → String → Prop where
  | contentRef {key : String} (name path mime : Option String) : Keyed (.artifact name path (some key) mime) key
  | path {key : String} (name mime : Option String) : Keyed (.artifact name (some key) none mime) key
  | name {key : String} (mime : Option String) : Keyed (.artifact (some key) none none mime) key

theorem Event.artifactKey_eq_some_iff {e : Event} {key : String} : e.artifactKey = some key ↔ e.Keyed key := by
  constructor
  · intro h
    cases e with
    | artifact name path contentRef mime =>
      cases contentRef with
      | some contentRef => cases h; exact .contentRef ..
      | none =>
        cases path with
        | some path => cases h; exact .path ..
        | none =>
          cases name with
          | some name => cases h; exact .name ..
          | none => cases h
    | _ => cases h
  · rintro (_ | _ | _) <;> rfl

namespace Tally.Step

/-- The text of a step. -/
def text? : Step → Option String
  | .say text => some text
  | _ => none

/-- The usage of a step. -/
def usage? : Step → Option Usage
  | .use u => some u
  | _ => none

/-- The event of a step. -/
def event? : Step → Option Event
  | .report e => some e
  | _ => none

/-- The result that an event reports. -/
def result? : Event → Option String
  | .resultText text => some text
  | _ => none

/-- The texts of the steps as one. -/
def spoken (steps : List Step) : String :=
  String.join (steps.filterMap text?)

/-- The first result that is reported. -/
def reported (steps : List Step) : Option String :=
  (steps.filterMap event?).findSome? result?

/-- Usage counts if it belongs to no message, or to one of which no usage came before. -/
def Counts (before : List Step) (u : Usage) : Prop :=
  u.messageId = none ∨ ∀ v ∈ before.filterMap usage?, v.messageId ≠ u.messageId

instance (before : List Step) (u : Usage) : Decidable (Counts before u) :=
  inferInstanceAs (Decidable (_ ∨ _))

/-- The usage that counts, where each is judged by what came before it. -/
def counted (steps : List Step) : List Usage :=
  (List.range steps.length).filterMap fun i => (steps[i]?.bind usage?).filter fun u => decide (Counts (steps.take i) u)

/-- What the result of a session is, by all that its tally was told: the first result that was reported; else what stands between the
    first opening mark of the text as a whole and the first closing mark after it, if both stand there, without blanks around it; else the
    text as a whole, without blanks around it. -/
inductive Results (steps : List Step) : String → Prop where
  | told {text : String} (h : reported steps = some text) : Results steps text
  | marked {before after span rest : List Char} (hnone : reported steps = none)
      (hopen : FirstAt resultOpen (spoken steps).toList before after) (hclose : FirstAt resultClose after span rest) :
      Results steps (String.ofList (trim span))
  | whole (hnone : reported steps = none)
      (hunmarked : ∀ before after, FirstAt resultOpen (spoken steps).toList before after → ¬resultClose <:+: after) :
      Results steps (trimmed (spoken steps))

theorem filterMap_concat {α β : Type} (f : α → Option β) (l : List α) (a : α) :
    (l ++ [a]).filterMap f = l.filterMap f ++ (f a).toList := by
  rw [List.filterMap_append]
  cases h : f a <;> simp [h]

theorem counted_concat (steps : List Step) (s : Step) :
    counted (steps ++ [s]) = counted steps ++ (s.usage?.filter fun u => decide (Counts steps u)).toList := by
  rw [counted, List.length_append, List.length_singleton, List.range_succ, List.filterMap_append]
  congr 1
  · refine List.filterMap_congr fun i hi => ?_
    have hi := List.mem_range.1 hi
    rw [List.getElem?_append_left hi, List.take_append_of_le_length (Nat.le_of_lt hi)]
  · rw [← List.nil_append [steps.length], filterMap_concat, List.getElem?_concat_length, List.take_left]
    rfl

theorem reported_concat (steps : List Step) (s : Step) :
    reported (steps ++ [s]) = (reported steps).or (s.event?.bind result?) := by
  rw [reported, filterMap_concat, List.findSome?_append, reported]
  cases s.event? <;> simp

theorem spoken_concat (steps : List Step) (s : Step) : spoken (steps ++ [s]) = spoken steps ++ s.text?.getD "" := by
  rw [spoken, filterMap_concat, String.join_append, spoken]
  cases s.text? <;> simp

/-- The steps have but one result. -/
theorem Results.unique {steps : List Step} {result result' : String} (h : Results steps result) (h' : Results steps result') :
    result = result' := by
  cases h with
  | told h =>
    cases h' with
    | told h' => exact Option.some.inj (h.symm.trans h')
    | marked hnone | whole hnone => exact nomatch hnone.symm.trans h
  | marked hnone hopen hclose =>
    cases h' with
    | told h' => exact nomatch hnone.symm.trans h'
    | marked _ hopen' hclose' =>
      obtain ⟨-, rfl⟩ := hopen.unique hopen'
      rw [(hclose.unique hclose').1]
    | whole _ hunmarked => exact absurd hclose.isInfix (hunmarked _ _ hopen)
  | whole hnone hunmarked =>
    cases h' with
    | told h' => exact nomatch hnone.symm.trans h'
    | marked _ hopen hclose => exact absurd hclose.isInfix (hunmarked _ _ hopen)
    | whole => rfl

/-- The result of steps depends only on their text as a whole and on the first result that is reported. -/
theorem Results.congr {steps steps' : List Step} {result : String} (h : Results steps result) (hspoken : spoken steps' = spoken steps)
    (hreported : reported steps' = reported steps) : Results steps' result := by
  cases h with
  | told h => exact .told (hreported.trans h)
  | marked hnone hopen hclose => exact .marked (hreported.trans hnone) (hspoken ▸ hopen) hclose
  | whole hnone hunmarked =>
    rw [← hspoken] at hunmarked ⊢
    exact .whole (hreported.trans hnone) hunmarked

end Tally.Step

/-! ## One step, all steps -/

namespace Tally

open Step

/-- What a tally has to do with the steps before. -/
structure Reflects (steps : List Step) (t : Tally) : Prop where
  text : t.text = spoken steps
  result : t.resultText = reported steps
  usage : t.usage = (counted steps).foldl Usage.add .zero
  messages : ∀ id, t.seenMessages.contains id = true ↔ ∃ u ∈ steps.filterMap usage?, u.messageId = some id
  artifacts : ∀ key, t.seenArtifacts.contains key = true ↔ ∃ e ∈ steps.filterMap event?, e.artifactKey = some key

variable {steps : List Step} {t : Tally}

theorem Reflects.contains_message (h : Reflects steps t) {u : Usage} {id : String} (hid : u.messageId = some id) :
    t.seenMessages.contains id = true ↔ ¬Counts steps u := by
  rw [h.messages, Counts, hid]
  simp only [reduceCtorEq, false_or, ne_eq, not_forall, not_not, exists_prop]

/-- Usage that counts is added, and then its message has been seen. -/
theorem Reflects.recordUsage_of_counts (h : Reflects steps t) {u : Usage} (hu : Counts steps u) :
    t.recordUsage u = ({ t with usage := t.usage.add u, seenMessages := u.messageId.toList ++ t.seenMessages }, true) := by
  unfold Tally.recordUsage
  cases hid : u.messageId with
  | none => rfl
  | some id =>
    have hfresh : ¬t.seenMessages.contains id = true := fun hseen => (h.contains_message hid).1 hseen hu
    simp only [if_neg hfresh]
    rfl

/-- Usage that does not count changes nothing. -/
theorem Reflects.recordUsage_of_not_counts (h : Reflects steps t) {u : Usage} (hu : ¬Counts steps u) :
    t.recordUsage u = (t, false) := by
  unfold Tally.recordUsage
  cases hid : u.messageId with
  | none => exact absurd (.inl hid) hu
  | some id => simp only [if_pos ((h.contains_message hid).2 hu)]

theorem noteResult_eq (t : Tally) (e : Event) : t.noteResult e = { t with resultText := t.resultText.or (result? e) } := by
  unfold noteResult result?
  obtain ⟨text, resultText, usage, messages, artifacts⟩ := t
  cases e <;> cases resultText <;> rfl

/-- To let an event pass notes its result and its artifact. -/
theorem accept_fst (t : Tally) (e : Event) :
    (t.accept e).1 = { t with resultText := t.resultText.or (result? e), seenArtifacts := (t.accept e).1.seenArtifacts } := by
  simp only [accept, noteResult_eq]
  split
  · rfl
  · split <;> rfl

theorem reflects_empty : Reflects [] empty where
  text := rfl
  result := rfl
  usage := rfl
  messages _ := by simp [empty]
  artifacts _ := by simp [empty]

/-- A tally that reflects the steps before reflects them with a text that is added. -/
theorem Reflects.say (h : Reflects steps t) (text : String) : Reflects (steps ++ [Step.say text]) (t.addText text) where
  text := by rw [spoken_concat, ← h.text]; rfl
  result := by rw [reported_concat, ← h.result]; exact (Option.or_none ..).symm
  usage := by rw [counted_concat]; exact (List.append_nil _).symm ▸ h.usage
  messages := by rw [filterMap_concat]; exact (List.append_nil _).symm ▸ h.messages
  artifacts := by rw [filterMap_concat]; exact (List.append_nil _).symm ▸ h.artifacts

/-- A tally that reflects the steps before reflects them with usage that is reported. -/
theorem Reflects.use (h : Reflects steps t) (u : Usage) : Reflects (steps ++ [Step.use u]) (t.recordUsage u).1 := by
  have htext : spoken (steps ++ [Step.use u]) = spoken steps := by
    rw [spoken_concat]
    exact String.append_empty
  have hreported : reported (steps ++ [Step.use u]) = reported steps := by
    rw [reported_concat]
    exact Option.or_none ..
  have hevents : (steps ++ [Step.use u]).filterMap event? = steps.filterMap event? := by
    rw [filterMap_concat]
    exact List.append_nil _
  have husages : (steps ++ [Step.use u]).filterMap usage? = steps.filterMap usage? ++ [u] := filterMap_concat ..
  by_cases hu : Counts steps u
  · have hcounted : counted (steps ++ [Step.use u]) = counted steps ++ [u] := by
      rw [counted_concat]
      simp [usage?, hu]
    rw [h.recordUsage_of_counts hu]
    refine ⟨h.text.trans htext.symm, h.result.trans hreported.symm, ?_, fun id => ?_, hevents ▸ h.artifacts⟩
    · rw [hcounted, List.foldl_append, ← h.usage]
      rfl
    · have hold := h.messages id
      rw [List.contains_iff_mem] at hold ⊢
      rw [husages, List.mem_append, hold]
      simp [or_and_right, exists_or, or_comm]
  · have hcounted : counted (steps ++ [Step.use u]) = counted steps := by
      rw [counted_concat]
      simp [usage?, hu]
    rw [h.recordUsage_of_not_counts hu]
    refine ⟨h.text.trans htext.symm, h.result.trans hreported.symm, hcounted ▸ h.usage, fun id => ?_, hevents ▸ h.artifacts⟩
    rw [husages]
    refine ⟨fun hseen => ?_, ?_⟩
    · obtain ⟨v, hv, hid⟩ := (h.messages id).1 hseen
      exact ⟨v, List.mem_append_left _ hv, hid⟩
    · rintro ⟨v, hv, hid⟩
      rcases List.mem_append.1 hv with hv | hv
      · exact (h.messages id).2 ⟨v, hv, hid⟩
      · rw [List.mem_singleton.1 hv] at hid
        exact (h.contains_message hid).2 hu

/-- A tally that reflects the steps before reflects them with an event that is seen. -/
theorem Reflects.report (h : Reflects steps t) (e : Event) : Reflects (steps ++ [Step.report e]) (t.accept e).1 := by
  have hartifacts : ∀ key, (t.accept e).1.seenArtifacts.contains key = true ↔
      ∃ e' ∈ (steps ++ [Step.report e]).filterMap event?, e'.artifactKey = some key := by
    intro key
    have hevents : (steps ++ [Step.report e]).filterMap event? = steps.filterMap event? ++ [e] := filterMap_concat ..
    rw [contains_accept, Bool.or_eq_true, h.artifacts, decide_eq_true_iff, hevents]
    simp only [List.mem_append, List.mem_singleton, or_and_right, exists_or, exists_eq_left]
  rw [accept_fst]
  refine ⟨?_, ?_, ?_, ?_, hartifacts⟩
  · rw [spoken_concat]
    exact h.text.trans String.append_empty.symm
  · rw [reported_concat, ← h.result]
    rfl
  · rw [counted_concat]
    exact (List.append_nil _).symm ▸ h.usage
  · rw [filterMap_concat]
    exact (List.append_nil _).symm ▸ h.messages

/-- A tally that reflects the steps before reflects them with one step more. -/
theorem Reflects.step (h : Reflects steps t) (s : Step) : Reflects (steps ++ [s]) (t.step s).1 :=
  match s with
  | .say text => h.say text
  | .use u => h.use u
  | .report e => h.report e

/-- The tally after any steps reflects them. -/
theorem reflects_after (steps : List Step) : Reflects steps (after steps) := by
  induction steps using List.reverseRecOn with
  | nil => exact reflects_empty
  | append_singleton steps s ih =>
    have hstep := ih.step s
    rwa [after, List.foldl_append]

/-! ## Answers -/

/-- A sum of tokens is right but for multiples of 2^64. -/
theorem toNat_foldl_add {tokens : Usage → UInt64} (hadd : ∀ t u, tokens (Usage.add t u) = tokens t + tokens u) (us : List Usage) (t : Usage) :
    (tokens (us.foldl Usage.add t)).toNat = ((tokens t).toNat + (us.map fun u => (tokens u).toNat).sum) % UInt64.size := by
  induction us generalizing t with
  | nil => simp [Nat.mod_eq_of_lt (tokens t).toNat_lt]
  | cons u us ih => rw [List.foldl_cons, ih, hadd, UInt64.toNat_add, List.map_cons, List.sum_cons, Nat.mod_add_mod, Nat.add_assoc]

/-- Each kind of tokens is added up on its own. -/
theorem Reflects.tokens (h : Reflects steps t) {tokens : Usage → UInt64}
    (hmem : tokens ∈ [Usage.inputTokens, Usage.outputTokens, Usage.cacheReadTokens])
    (hfits : ((counted steps).map fun u => (tokens u).toNat).sum < UInt64.size) :
    (tokens t.usage).toNat = ((counted steps).map fun u => (tokens u).toNat).sum := by
  have hadd : (∀ t u, tokens (Usage.add t u) = tokens t + tokens u) ∧ (tokens .zero).toNat = 0 := by
    simp only [List.mem_cons, List.not_mem_nil, or_false] at hmem
    rcases hmem with rfl | rfl | rfl <;> exact ⟨fun _ _ => rfl, rfl⟩
  rw [h.usage, toNat_foldl_add hadd.1, hadd.2, Nat.zero_add, Nat.mod_eq_of_lt hfits]

theorem Reflects.recordUsage_snd (h : Reflects steps t) (u : Usage) : (t.recordUsage u).2 = true ↔ Counts steps u := by
  by_cases hu : Counts steps u
  · rw [h.recordUsage_of_counts hu]
    exact iff_of_true rfl hu
  · rw [h.recordUsage_of_not_counts hu]
    exact iff_of_false Bool.false_ne_true hu

theorem Reflects.accept_snd (h : Reflects steps t) (e : Event) :
    (t.accept e).2 = false ↔ ∃ key, e.Keyed key ∧ ∃ e' ∈ steps.filterMap event?, e'.Keyed key := by
  simp only [← Event.artifactKey_eq_some_iff]
  simp only [accept, noteResult_artifacts]
  cases hkey : e.artifactKey with
  | none => simp
  | some key =>
    simp only [Option.some.injEq, exists_eq_left', ← h.artifacts]
    by_cases hseen : t.seenArtifacts.contains key = true
    · rw [if_pos hseen]
      exact iff_of_true rfl hseen
    · rw [if_neg hseen]
      exact iff_of_false Bool.false_ne_true.symm hseen

/-- The result that a tally gives is the one that was told. -/
theorem Reflects.finalResult (h : Reflects steps t) : Results steps t.finalResult := by
  unfold Tally.finalResult
  rw [h.result, h.text]
  cases hreported : reported steps with
  | some text => exact .told hreported
  | none =>
    rcases resultSpan_spec (spoken steps).toList with ⟨before, after, span, rest, hopen, hclose, hspan⟩ | ⟨hunmarked, hspan⟩
    · rw [hspan]
      exact .marked hreported hopen hclose
    · rw [hspan]
      exact .whole hreported hunmarked

/-- What a tally says can be told from the steps alone, whenever it is asked. Its totals are those of the usage that counts, as long as
    they fit; usage is taken for new exactly if it counts; an event is refused exactly if it is an artifact that has the key of one before
    it; and the result is the one told by the first report, or else by the text as a whole, however this was cut and whatever came in
    between. -/
theorem after_reports (steps : List Step) :
    (∀ tokens ∈ [Usage.inputTokens, Usage.outputTokens, Usage.cacheReadTokens],
      ((counted steps).map fun u => (tokens u).toNat).sum < UInt64.size →
        (tokens (after steps).usage).toNat = ((counted steps).map fun u => (tokens u).toNat).sum) ∧
    (∀ u, answer steps (.use u) = true ↔ Counts steps u) ∧
    (∀ e, answer steps (.report e) = false ↔ ∃ key, e.Keyed key ∧ ∃ e' ∈ steps.filterMap event?, e'.Keyed key) ∧
    Results steps (after steps).finalResult ∧
    ∀ steps', spoken steps' = spoken steps → steps'.filterMap event? = steps.filterMap event? →
      (after steps').finalResult = (after steps).finalResult := by
  have hafter := reflects_after steps
  refine ⟨fun tokens hmem hfits => hafter.tokens hmem hfits, hafter.recordUsage_snd, hafter.accept_snd, hafter.finalResult, ?_⟩
  intro steps' hspoken hevents
  have hreported : reported steps' = reported steps := congrArg (List.findSome? result?) hevents
  exact (reflects_after steps').finalResult.unique (hafter.finalResult.congr hspoken hreported)

/-- A mark that comes in two parts, with usage that is told twice in between. -/
theorem after_reports_split :
    let story : List Step := [.say "so <res", .use ⟨some "m", 3, 5, 1⟩, .say "ult> yes </result>", .use ⟨some "m", 3, 5, 1⟩,
      .report (.artifact (some "a") (some "p") none none), .use ⟨none, 2, 2, 0⟩]
    let whole : List Step := [.report (.artifact (some "a") (some "p") none none), .say "so <result> yes </result>"]
    (((counted story).map fun u => u.inputTokens.toNat).sum < UInt64.size ∧ (after story).usage.inputTokens.toNat = 5) ∧
    answer story (.use ⟨some "m", 0, 0, 0⟩) = false ∧ answer story (.report (.artifact (some "b") (some "p") none none)) = false ∧
    (spoken whole = spoken story ∧ whole.filterMap event? = story.filterMap event?) ∧
    (after whole).finalResult = (after story).finalResult ∧ (after story).finalResult = "yes" := by
  intro story whole
  obtain ⟨htokens, hcounts, hadmits, -, hsame⟩ := after_reports story
  have hfits : ((counted story).map fun u => u.inputTokens.toNat).sum < UInt64.size := by decide
  have hspoken : spoken whole = spoken story := by decide +kernel
  have hwhole : (after whole).finalResult = "yes" := by decide +kernel
  refine ⟨⟨hfits, ?_⟩, ?_, ?_, ⟨hspoken, rfl⟩, hsame whole hspoken rfl, (hsame whole hspoken rfl).symm.trans hwhole⟩
  · exact htokens Usage.inputTokens List.mem_cons_self hfits
  · rw [← Bool.not_eq_true, hcounts]
    decide
  · exact (hadmits _).2 ⟨"p", .path .., _, List.mem_cons_self, .path ..⟩

end Tally

end Playbook
