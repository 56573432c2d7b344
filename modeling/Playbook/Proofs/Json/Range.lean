import Playbook.Proofs.Json.Printed

/-!
# `Proofs.Json.Range` — the integers that text can denote have 64 bits

A literal that denotes an integer beyond 64 bits is read as a double, so every integer in a value that was read is one that can be
written again. The scanner makes such values only, and what the reader does with them is to put them into containers.

## Contents
- **Tokens.** `Number.fits_ofChars?`; `Token.Fits`, which each character keeps (`fits_read`), and so the whole scan (`fits_tokens`).
- **Values.** `State.Fits`, which each token keeps (`fits_step`); `fits_readTree`.
-/

namespace Playbook.Json

/-! ## Tokens -/

/-- The value of a literal fits. -/
theorem Number.fits_ofChars? {literal : List Char} {v : Json} (h : ofChars? literal = some v) : v.fits = true := by
  obtain ⟨p, _, rfl⟩ := Option.map_eq_some_iff.1 h
  have hdouble : ((p.double.map Json.float).getD .void).fits = true := by
    cases p.double <;> rfl
  have hmin : Int64.minValue.toInt < 0 := by decide
  have hmax : (0 : Int) < UInt64.size := by decide
  generalize Number.exponentValue p.whole = n
  cases hnegative : p.negative with
  | true =>
    simp only [if_true]
    split
    · rename_i hint
      simp only [Bool.and_eq_true, decide_eq_true_eq] at hint
      have hsmall : -(n : Int) < UInt64.size := by omega
      rw [fits, Bool.and_eq_true, decide_eq_true_eq, decide_eq_true_eq]
      exact ⟨hint.2.2, hsmall⟩
    · exact hdouble
  | false =>
    simp only [Bool.false_eq_true, if_false]
    split
    · rename_i hint
      simp only [Bool.and_eq_true, decide_eq_true_eq] at hint
      rw [fits, Bool.and_eq_true, decide_eq_true_eq, decide_eq_true_eq]
      omega
    · exact hdouble

/-- The value that a token denotes, if it is a number or a word, fits. -/
def Token.Fits : Token → Prop
  | .scalar v => v.fits = true
  | _ => True

variable {done done' : List Token} {c : Char} {mode mode' : Mode}

theorem fits_word? {chars : List Char} {token : Token} (h : word? chars = some token) : token.Fits := by
  unfold word? at h
  split at h
  · cases h
    rfl
  · split at h
    · cases h
      rfl
    · split at h
      · cases h
        rfl
      · cases h

theorem fits_begin (hdone : ∀ token ∈ done, token.Fits) (h : begin done c = some (done', mode')) :
    ∀ token ∈ done', token.Fits := by
  -- What one character may be by itself denotes no value.
  have hcons : ∀ token : Token, token.Fits → ∀ t ∈ token :: done, t.Fits :=
    fun token htoken => List.forall_mem_cons.2 ⟨htoken, hdone⟩
  unfold begin at h
  split at h
  · cases h
    exact hdone
  · split at h
    all_goals first | (cases h; exact hcons _ trivial) | (cases h; exact hdone) | skip
    split at h
    · cases h
      exact hdone
    · split at h
      · cases h
        exact hdone
      · cases h

/-- Each character keeps that the tokens so far fit. -/
theorem fits_read (hdone : ∀ token ∈ done, token.Fits) (h : read done c mode = some (done', mode')) :
    ∀ token ∈ done', token.Fits := by
  cases mode with
  | between => exact fits_begin hdone h
  | word chars =>
    rw [read] at h
    split at h
    · cases h
      exact hdone
    · obtain ⟨token, htoken, h⟩ := Option.bind_eq_some_iff.1 h
      exact fits_begin (List.forall_mem_cons.2 ⟨fits_word? htoken, hdone⟩) h
  | number chars =>
    rw [read] at h
    split at h
    · cases h
      exact hdone
    · obtain ⟨v, hv, h⟩ := Option.bind_eq_some_iff.1 h
      have htoken : Token.Fits (.scalar v) := Number.fits_ofChars? hv
      exact fits_begin (List.forall_mem_cons.2 ⟨htoken, hdone⟩) h
  | inString units =>
    rw [read] at h
    split at h
    · cases h
      exact List.forall_mem_cons.2 ⟨trivial, hdone⟩
    · split at h
      · cases h
        exact hdone
      · split at h
        · cases h
        · cases h
          exact hdone
  | escape units =>
    rw [read] at h
    split at h
    · cases h
      exact hdone
    · obtain ⟨_, _, h⟩ := Option.map_eq_some_iff.1 h
      cases h
      exact hdone
  | hex units value count =>
    rw [read] at h
    obtain ⟨_, _, h⟩ := Option.map_eq_some_iff.1 h
    cases h
    exact hdone

theorem fits_finish {tokens : List Token} (hdone : ∀ token ∈ done, token.Fits) (h : finish done mode = some tokens) :
    ∀ token ∈ tokens, token.Fits := by
  have hreverse : ∀ tokens : List Token, (∀ token ∈ tokens, token.Fits) → ∀ token ∈ tokens.reverse, token.Fits :=
    fun tokens htokens token htoken => htokens token (List.mem_reverse.1 htoken)
  cases mode with
  | between =>
    cases h
    exact hreverse _ hdone
  | word chars =>
    obtain ⟨token, htoken, h⟩ := Option.bind_eq_some_iff.1 h
    cases h
    exact hreverse _ (List.forall_mem_cons.2 ⟨fits_word? htoken, hdone⟩)
  | number chars =>
    obtain ⟨v, hv, h⟩ := Option.bind_eq_some_iff.1 h
    cases h
    have htoken : Token.Fits (.scalar v) := Number.fits_ofChars? hv
    exact hreverse _ (List.forall_mem_cons.2 ⟨htoken, hdone⟩)
  | _ => cases h

theorem fits_scan {text : List Char} {tokens : List Token} (hdone : ∀ token ∈ done, token.Fits)
    (h : scan done mode text = some tokens) : ∀ token ∈ tokens, token.Fits := by
  induction text generalizing done mode with
  | nil => exact fits_finish hdone h
  | cons c rest ih =>
    rw [scan] at h
    split at h
    · cases h
    · rename_i hread
      exact ih (fits_read hdone hread) h

/-- The tokens of a text fit. -/
theorem fits_tokens {text : List Char} {written : List Token} (h : tokens text = some written) :
    ∀ token ∈ written, token.Fits :=
  fits_scan (List.forall_mem_nil _) h

/-! ## Values -/

/-- All that an open container holds so far fits. -/
def Frame.Fits : Frame → Prop
  | .arr items => ∀ v ∈ items, v.fits = true
  | .obj members _ _ => ∀ m ∈ members, m.2.fits = true

/-- All that has been read so far fits. -/
def State.Fits : State → Prop
  | .reading _ stack => ∀ frame ∈ stack, frame.Fits
  | .finished v => v.fits = true

variable {v : Json} {stack : List Frame} {state state' : State} {token : Token}

theorem fits_complete (hv : v.fits = true) (hstack : ∀ frame ∈ stack, frame.Fits) : (complete v stack).Fits := by
  cases stack with
  | nil => exact hv
  | cons frame stack =>
    obtain ⟨hframe, hrest⟩ := List.forall_mem_cons.1 hstack
    cases frame with
    | arr items =>
      have hitems : (Frame.arr (v :: items)).Fits := List.forall_mem_cons.2 ⟨hv, hframe⟩
      exact List.forall_mem_cons.2 ⟨hitems, hrest⟩
    | obj members broken key =>
      have hmembers : (Frame.obj ((key, v) :: members) broken key).Fits := List.forall_mem_cons.2 ⟨hv, hframe⟩
      exact List.forall_mem_cons.2 ⟨hmembers, hrest⟩

theorem fits_closed (hv : v.fits = true) (hstack : ∀ frame ∈ stack, frame.Fits) : (closed v stack).Fits := by
  rw [closed]
  split
  · exact fits_complete hv hstack
  · exact fits_complete rfl hstack

theorem fits_reverse {items : List Json} (h : ∀ v ∈ items, v.fits = true) : (arr items.reverse).fits = true :=
  fitsAll_iff.2 fun v hv => h v (List.mem_reverse.1 hv)

theorem fits_ofMembers {members : List (String × Json)} (h : ∀ m ∈ members, m.2.fits = true) (broken : Bool) :
    (ofMembers members broken).fits = true := by
  cases broken with
  | true => rfl
  | false => exact fitsMembers_iff.2 fun m hm => h m (List.mem_reverse.1 hm)

theorem fits_stepValue (htoken : token.Fits) (hstack : ∀ frame ∈ stack, frame.Fits)
    (h : stepValue stack token = some state') : state'.Fits := by
  unfold stepValue at h
  have hempty : ∀ frame : Frame, frame.Fits → (State.reading .value (frame :: stack)).Fits :=
    fun frame hframe => List.forall_mem_cons.2 ⟨hframe, hstack⟩
  split at h
  · cases h
    exact hempty (.arr []) (List.forall_mem_nil _)
  · cases h
    exact hempty (.obj [] false "") (List.forall_mem_nil _)
  · cases h
    exact fits_complete rfl hstack
  · cases h
    exact fits_complete rfl hstack
  · cases h
    exact fits_complete htoken hstack
  · cases h

/-- What an open object holds fits, whatever key is read next and whether or not it is broken. -/
theorem fits_obj {members : List (String × Json)} {broken : Bool} {key : String}
    (hstack : ∀ frame ∈ .obj members broken key :: stack, frame.Fits) (broken' : Bool) (key' : String) :
    ∀ frame ∈ .obj members broken' key' :: stack, frame.Fits := by
  obtain ⟨hframe, hrest⟩ := List.forall_mem_cons.1 hstack
  exact List.forall_mem_cons.2 ⟨hframe, hrest⟩

theorem fits_stepKey (hstack : ∀ frame ∈ stack, frame.Fits) (h : stepKey stack token = some state') :
    state'.Fits := by
  unfold stepKey at h
  split at h
  · cases h
    exact fits_obj hstack _ _
  · cases h
    exact fits_obj hstack _ _
  · cases h

theorem fits_closeArr {items : List Json} (hstack : ∀ frame ∈ .arr items :: stack, frame.Fits) :
    (closed (.arr items.reverse) stack).Fits := by
  obtain ⟨hframe, hrest⟩ := List.forall_mem_cons.1 hstack
  exact fits_closed (fits_reverse hframe) hrest

theorem fits_closeObj {members : List (String × Json)} {broken : Bool} {key : String}
    (hstack : ∀ frame ∈ .obj members broken key :: stack, frame.Fits) :
    (closed (ofMembers members broken) stack).Fits := by
  obtain ⟨hframe, hrest⟩ := List.forall_mem_cons.1 hstack
  exact fits_closed (fits_ofMembers hframe broken) hrest

/-- Each token keeps that what has been read fits. -/
theorem fits_step (htoken : token.Fits) (hstate : state.Fits) (h : step token state = some state') : state'.Fits := by
  -- One case for each place where a token may stand, as `step` lists them.
  unfold step at h
  split at h
  · cases h
  · split at h
    · cases h
      exact fits_closeArr hstate
    · cases h
      exact fits_closeArr hstate
    · cases h
      exact hstate
    · cases h
      exact fits_closeObj hstate
    · cases h
      exact fits_closeObj hstate
    · cases h
      exact hstate
    · cases h
      exact hstate
    · exact fits_stepValue htoken hstate h
    · exact fits_stepValue htoken hstate h
    · exact fits_stepKey hstate h
    · exact fits_stepKey hstate h
    · cases h

theorem fits_run {tokens : List Token} (htokens : ∀ token ∈ tokens, token.Fits) (hstate : state.Fits)
    (h : run state tokens = some state') : state'.Fits := by
  induction tokens generalizing state with
  | nil =>
    cases h
    exact hstate
  | cons token rest ih =>
    obtain ⟨htoken, hrest⟩ := List.forall_mem_cons.1 htokens
    rw [run] at h
    split at h
    · cases h
    · rename_i hstep
      exact ih hrest (fits_step htoken hstate hstep) h

/-- Every integer in a value that was read from text is one of 64 bits. -/
theorem fits_readTree {text : String} (h : readTree text = some v) : v.fits = true := by
  unfold readTree at h
  split at h
  · rename_i w hrun
    cases h
    obtain ⟨written, htokens, hrun⟩ := Option.bind_eq_some_iff.1 hrun
    have hstart : (State.reading .value []).Fits := List.forall_mem_nil _
    exact fits_run (fits_tokens htokens) hstart hrun
  · cases h

end Playbook.Json
