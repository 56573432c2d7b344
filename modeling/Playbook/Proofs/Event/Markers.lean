import Mathlib.Data.List.Forall2
import Playbook.Event.Marker
import Playbook.Proofs.Event.Roundtrip
import Playbook.Proofs.Text.Search
import Playbook.Proofs.Text.Trim

/-!
# `Proofs.Event.Markers` — events are read back from where they were written into a reply

A reply holds texts between marks, and other text around them. As long as the former do not close and the latter does not open a mark,
the texts between the marks are found as they were written: a mark begins with a character that it does not hold again, so it never
overlaps with the text before it or with another mark. What stands between marks is an event if it can be read as one, and else kept.

## Contents
- **Marks.** `marked`, a reply with marks; `bodies_marked`.
- **Bodies.** `Stands`, what a text between marks stands for; `ofBody_eq_of_denotes`.
- **Replies.** `inline_marked`.
-/

namespace Playbook

namespace Event

open Text

/-! ## Marks -/

/-- A reply with marks: a text, and then texts between marks, each with the text behind its closing mark. -/
def marked (first : List Char) : List (List Char × List Char) → List Char
  | [] => first
  | (body, filler) :: rest => first ++ openMark ++ (body ++ closeMark ++ marked filler rest)

theorem splitFirst_openMark {filler : List Char} (h : ¬openMark <:+: filler) (after : List Char) :
    splitFirst openMark (filler ++ openMark ++ after) = some (filler, after) :=
  splitFirst_needle (by decide) h after

theorem splitFirst_closeMark {body : List Char} (h : ¬closeMark <:+: body) (after : List Char) :
    splitFirst closeMark (body ++ closeMark ++ after) = some (body, after) :=
  splitFirst_needle (by decide) h after

theorem bodies_of_none {text : List Char} (h : splitFirst openMark text = none) : bodies text = [] := by
  rw [bodies]
  split
  · rfl
  · rename_i hsome
    rw [h] at hsome
    cases hsome

theorem bodies_of_unclosed {text before after : List Char} (h : splitFirst openMark text = some (before, after))
    (hclose : splitFirst closeMark after = none) : bodies text = [] := by
  rw [bodies]
  split
  · rfl
  · rename_i hopen
    rw [h] at hopen
    cases hopen
    split
    · rfl
    · rename_i hsome
      rw [hclose] at hsome
      cases hsome

theorem bodies_of_closed {text before after body rest : List Char}
    (h : splitFirst openMark text = some (before, after)) (hclose : splitFirst closeMark after = some (body, rest)) :
    bodies text = body :: bodies rest := by
  rw [bodies]
  split
  · rename_i hnone
    rw [h] at hnone
    cases hnone
  · rename_i hopen
    rw [h] at hopen
    cases hopen
    split
    · rename_i hnone
      rw [hclose] at hnone
      cases hnone
    · rename_i hsome
      rw [hclose] at hsome
      cases hsome
      rfl

/-- What an ending may be that adds no body: behind a text that does not open a mark, it opens none or closes none. -/
theorem bodies_ending {filler ending : List Char} (h : ¬openMark <:+: filler)
    (hending : ending = [] ∨ ∃ tail, ending = openMark ++ tail ∧ ¬closeMark <:+: tail) :
    bodies (filler ++ ending) = [] := by
  rcases hending with rfl | ⟨tail, rfl, htail⟩
  · rw [List.append_nil]
    exact bodies_of_none (splitFirst_eq_none h)
  · rw [← List.append_assoc]
    exact bodies_of_unclosed (splitFirst_openMark h tail) (splitFirst_eq_none htail)

/-- The texts between the marks of a reply are found as they were written, whatever ending is added that adds none. -/
theorem bodies_marked {first : List Char} {spans : List (List Char × List Char)} (hfirst : ¬openMark <:+: first)
    (hspans : ∀ span ∈ spans, ¬closeMark <:+: span.1 ∧ ¬openMark <:+: span.2) {ending : List Char}
    (hending : ending = [] ∨ ∃ tail, ending = openMark ++ tail ∧ ¬closeMark <:+: tail) :
    bodies (marked first spans ++ ending) = spans.map (·.1) := by
  induction spans generalizing first with
  | nil => exact bodies_ending hfirst hending
  | cons span rest ih =>
    obtain ⟨body, filler⟩ := span
    obtain ⟨⟨hbody, hfiller⟩, hrest⟩ := List.forall_mem_cons.1 hspans
    have htext : marked first ((body, filler) :: rest) ++ ending =
        first ++ openMark ++ (body ++ closeMark ++ (marked filler rest ++ ending)) := by
      simp only [marked, List.append_assoc]
    rw [htext, bodies_of_closed (splitFirst_openMark hfirst _) (splitFirst_closeMark hbody _), ih hfiller hrest]
    rfl

/-! ## Bodies -/

/-- What a text between marks stands for: the event that it can be read as, else its value as raw data, else itself as raw data. -/
inductive Stands (body : List Char) : Event → Prop where
  | event {e : Event} (h : parse? (String.ofList (trim body)) = some e) : Stands body e
  | value {data : Json} (hevent : parse? (String.ofList (trim body)) = none)
      (h : Json.parse (String.ofList (trim body)) = some data) : Stands body (.raw data)
  | text (hevent : parse? (String.ofList (trim body)) = none) (hvalue : Json.parse (String.ofList (trim body)) = none) :
      Stands body (.raw (.str (String.ofList (trim body))))

theorem stands_ofBody (body : List Char) : Stands body (ofBody body) := by
  unfold ofBody
  dsimp only
  split
  · rename_i e he
    exact .event he
  · rename_i hevent
    split
    · rename_i data hdata
      exact .value hevent hdata
    · rename_i hvalue
      exact .text hevent hvalue

theorem isOrdered_members {e : Event} (h : e.Plain) : Json.isOrderedMembers e.members = true := by
  have hpresent : ∀ (name : String) (text : Option String), Json.isOrderedMembers (Json.present name .str text) = true :=
    fun name text => Json.isOrderedMembers_present fun _ _ => rfl
  cases e with
  | step status name detail => exact hpresent _ _
  | todo action id text => exact hpresent _ _
  | artifact name path contentRef mime =>
    simp only [members, Json.isOrderedMembers_append]
    exact ⟨⟨⟨hpresent _ _, hpresent _ _⟩, hpresent _ _⟩, hpresent _ _⟩
  | file action path destination => exact hpresent _ _
  | raw data => exact Json.isOrderedMembers_iff.2 (List.forall_mem_singleton.2 h.1)
  | _ => rfl

/-- An event is read back as it is written, its members in their order. -/
theorem ofJson?_written {e : Event} (h : e.Plain) : ofJson? e.toJson = some e := by
  have hreadable : Json.readableMembers e.members = true := Json.readableMembers_of_isIntegral (isIntegral_members h)
  have htagged := Json.tagged_of_nodup e.kind kinds false e.keys_members hreadable
  unfold ofJson? toJson
  rw [htagged, Option.bind_some]
  refine ofRecord?_members h fun fields _ => ?_
  have hkeys : (e.members.map (·.1)).Nodup := (List.nodup_cons.1 e.keys_members).2
  rw [Json.slots_of_nodup hkeys]
  -- The values of the members are in normal form already.
  simp only [← Json.get?_normalizeMembers, Json.normalizeMembers_of_isOrdered (isOrdered_members h)]

/-- A text between marks that denotes the JSON of an event, with any blanks around it, is read as the event. -/
theorem ofBody_of_denotes {e : Event} (h : e.Plain) (hdepth : e.toJson.depth ≤ Json.depthLimit) {body : List Char}
    (hbody : Json.Denotes e.toJson (String.ofList (trim body))) : ofBody body = e := by
  have hread : parse? (String.ofList (trim body)) = some e := by
    unfold parse?
    rw [Json.readTree_of_denotes hbody hdepth]
    exact ofJson?_written h
  simp only [ofBody, hread]

/-- A text between marks that writes a value that is no event is read as the value. -/
theorem ofBody_of_value {v : Json} (hintegral : v.isIntegral = true) (hordered : v.isOrdered = true) (hfits : v.fits = true)
    (hdepth : v.depth ≤ Json.depthLimit) (hevent : ofJson? v = none) {body : List Char}
    (hbody : trim body = v.compact.toList) : ofBody body = .raw v := by
  have hdenotes : Json.Denotes v (String.ofList (trim body)) := by
    rw [hbody, String.ofList_toList]
    exact Json.denotes_compact hintegral hfits
  have hnone : parse? (String.ofList (trim body)) = none := by
    rw [parse?, Json.readTree_of_denotes hdenotes hdepth, Option.bind_some, hevent]
  have hvalue := Json.parse_of_denotes hdenotes hdepth
  rw [Json.normalize_of_isOrdered hordered] at hvalue
  simp only [ofBody, hnone, hvalue]

theorem denotes_trim_compact {e : Event} (h : e.Plain) {body : List Char} (hbody : trim body = e.toJson.compact.toList) :
    Json.Denotes e.toJson (String.ofList (trim body)) := by
  rw [hbody, String.ofList_toList]
  exact Json.denotes_compact (isIntegral_toJson h) (fits_toJson h)

/-! ## Replies -/

/-- The events written into a reply are read back from it. Between each two marks stands what the text there stands for, in order: if
    the texts are those of events, these events. A mark that is opened at the end and not closed adds nothing. -/
theorem inline_marked {first : List Char} {spans : List (List Char × List Char)} (hfirst : ¬openMark <:+: first)
    (hspans : ∀ span ∈ spans, ¬closeMark <:+: span.1 ∧ ¬openMark <:+: span.2) :
    List.Forall₂ Stands (spans.map (·.1)) (inline (String.ofList (marked first spans))) ∧
    (∀ events : List Event, (∀ e ∈ events, e.Plain ∧ e.toJson.depth ≤ Json.depthLimit) →
      spans.map (fun span => trim span.1) = events.map (·.toJson.compact.toList) →
      inline (String.ofList (marked first spans)) = events) ∧
    (∀ events : List Event, List.Forall₂ (fun span e => e.Plain ∧ e.toJson.depth ≤ Json.depthLimit ∧
        Json.Denotes e.toJson (String.ofList (trim span.1))) spans events →
      inline (String.ofList (marked first spans)) = events) ∧
    ∀ tail, ¬closeMark <:+: tail →
      inline (String.ofList (marked first spans ++ openMark ++ tail)) = inline (String.ofList (marked first spans)) := by
  have hwhole : inline (String.ofList (marked first spans)) = spans.map fun span => ofBody span.1 := by
    have hbodies := bodies_marked hfirst hspans (.inl rfl)
    rw [List.append_nil] at hbodies
    rw [inline, String.toList_ofList, hbodies, List.map_map]
    rfl
  have hdenoted : ∀ events : List Event, List.Forall₂ (fun span e => e.Plain ∧ e.toJson.depth ≤ Json.depthLimit ∧
      Json.Denotes e.toJson (String.ofList (trim span.1))) spans events →
      inline (String.ofList (marked first spans)) = events := by
    intro events hevents
    rw [hwhole, ← List.forall₂_eq_eq_eq, List.forall₂_map_left_iff]
    refine hevents.imp ?_
    rintro span e ⟨hplain, hdepth, hbody⟩
    exact ofBody_of_denotes hplain hdepth hbody
  refine ⟨?_, ?_, hdenoted, ?_⟩
  · rw [hwhole, List.forall₂_map_left_iff, List.forall₂_map_right_iff, List.forall₂_same]
    exact fun span _ => stands_ofBody span.1
  · intro events hevents htexts
    refine hdenoted events ?_
    rw [← List.forall₂_eq_eq_eq, List.forall₂_map_left_iff, List.forall₂_map_right_iff] at htexts
    have hwritten := (List.forall₂_and_left events spans).2 ⟨hevents, List.Forall₂.flip htexts⟩
    refine List.Forall₂.flip (hwritten.imp ?_)
    rintro e span ⟨⟨hplain, hdepth⟩, htext⟩
    exact ⟨hplain, hdepth, denotes_trim_compact hplain htext⟩
  · intro tail htail
    have hbodies := bodies_marked hfirst hspans (.inr ⟨tail, rfl, htail⟩)
    rw [hwhole, inline, String.toList_ofList, List.append_assoc, hbodies, List.map_map]
    rfl

/-- Two events are read back from a reply with parts of marks in the text around them, and an open mark at its end. -/
theorem inline_thinking_log :
    let thought : Event := .thinking "</event"
    let line : Event := .log .info "<event>"
    let spans := [(' ' :: Json.compactChars thought.toJson ++ ['\n'], "</event><even".toList), (Json.compactChars line.toJson, [])]
    inline (String.ofList (marked "<<event".toList spans)) = [thought, line] ∧
      inline (String.ofList (marked "<<event".toList spans ++ openMark ++ "<event>".toList)) = [thought, line] := by
  intro thought line spans
  have hfirst : ¬openMark <:+: "<<event".toList := by decide +kernel
  have hspans : ∀ span ∈ spans, ¬closeMark <:+: span.1 ∧ ¬openMark <:+: span.2 := by decide +kernel
  have hevents : ∀ e ∈ [thought, line], e.Plain ∧ e.toJson.depth ≤ Json.depthLimit := by
    intro e he
    rcases List.mem_pair.1 he with rfl | rfl
    · exact ⟨trivial, by decide⟩
    · exact ⟨trivial, by decide⟩
  have htexts : spans.map (fun span => trim span.1) = [thought, line].map (·.toJson.compact.toList) := by
    simp only [List.map_cons, List.map_nil, Json.compact, String.toList_ofList]
    decide +kernel
  obtain ⟨_, hread, _, hopen⟩ := inline_marked hfirst hspans
  refine ⟨hread _ hevents htexts, ?_⟩
  rw [hopen _ (by decide +kernel)]
  exact hread _ hevents htexts

end Event

end Playbook
