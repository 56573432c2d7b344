import Playbook.Json.Printer

/-!
# `Proofs.Json.Compact` — compact text tells its value

Two values without doubles have different compact texts unless they are the same value, members in their order. What stands behind
a text makes no difference, as long as it cannot go on with digits; so nothing in one part of a value can be made up for in
another part. A string ends at its first quote that is not escaped, and an array or object where its bracket closes.

## Contents
- **Values.** `isIntegral`: no doubles, and nothing that has no value.
- **Strings.** `escape_initial`, `escaped_append_inj`, `quoted_append_inj`.
- **Numbers.** `Ends`, `digitsOf_append_inj`, `intText_append_inj`.
- **Kinds.** `Lead` is what the first character of a text says about its value.
- **Values.** `compactChars_append_inj` with its companions for items and members; `compact_inj`.
-/

namespace Playbook.Json

/-! ## Values -/

mutual

/-- Whether all numbers in a value are integers, and every part of it has a value. -/
def isIntegral : Json → Bool
  | .float _ => false
  | .void => false
  | .arr items => isIntegralAll items
  | .obj members => isIntegralMembers members
  | _ => true

/-- Whether every item is integral. -/
def isIntegralAll : List Json → Bool
  | [] => true
  | v :: rest => isIntegral v && isIntegralAll rest

/-- Whether the value of every member is integral. -/
def isIntegralMembers : List (String × Json) → Bool
  | [] => true
  | (_, v) :: rest => isIntegral v && isIntegralMembers rest

end

theorem isIntegralAll_iff {items : List Json} :
    isIntegralAll items = true ↔ ∀ v ∈ items, v.isIntegral = true := by
  induction items with
  | nil => simp [isIntegralAll]
  | cons v rest ih => simp [isIntegralAll, ih]

theorem isIntegralMembers_iff {members : List (String × Json)} :
    isIntegralMembers members = true ↔ ∀ m ∈ members, m.2.isIntegral = true := by
  induction members with
  | nil => simp [isIntegralMembers]
  | cons m rest ih => simp [isIntegralMembers, ih]

theorem isIntegralAll_cons {v : Json} {rest : List Json} :
    isIntegralAll (v :: rest) = true ↔ v.isIntegral = true ∧ isIntegralAll rest = true := by
  rw [isIntegralAll, Bool.and_eq_true]

theorem isIntegralMembers_cons {k : String} {v : Json} {rest : List (String × Json)} :
    isIntegralMembers ((k, v) :: rest) = true ↔
      v.isIntegral = true ∧ isIntegralMembers rest = true := by
  rw [isIntegralMembers, Bool.and_eq_true]

/-! ## Strings -/

/-- The characters that are escaped. -/
def escapedChars : List Char :=
  '"' :: '\\' :: (List.range 0x20).map Char.ofNat

theorem escape_of_not_mem {c : Char} (h : c ∉ escapedChars) : escape c = [c] := by
  have hquote : c ≠ '"' := by
    rintro rfl
    exact h (by decide)
  have hbackslash : c ≠ '\\' := by
    rintro rfl
    exact h (by decide)
  have hcontrol : ¬c.toNat < 0x20 := by
    intro hlt
    refine h (List.mem_cons_of_mem _ (List.mem_cons_of_mem _ ?_))
    exact List.mem_map.2 ⟨c.toNat, List.mem_range.2 hlt, Char.ofNat_toNat c⟩
  rw [escape, if_neg hquote, if_neg hbackslash, if_neg hcontrol]

theorem head?_escape_of_mem {c : Char} (h : c ∈ escapedChars) : (escape c).head? = some '\\' := by
  have hall : (escapedChars.all fun c => (escape c).head? = some '\\') = true := by decide
  exact of_decide_eq_true (List.all_eq_true.1 hall c h)

/-- No character's text is the beginning of another one's. -/
theorem escape_initial {c d : Char} (h : escape c <+: escape d) : c = d := by
  have hspecial : ∀ c ∈ escapedChars, ∀ d ∈ escapedChars, escape c <+: escape d → c = d := by
    have hall : (escapedChars.all fun c => escapedChars.all fun d =>
        !(escape c).isPrefixOf (escape d) || c = d) = true := by decide
    intro c hc d hd hprefix
    have hone := List.all_eq_true.1 (List.all_eq_true.1 hall c hc) d hd
    rw [List.isPrefixOf_iff_prefix.2 hprefix] at hone
    exact of_decide_eq_true hone
  have hhead : (escape c).head? = (escape d).head? := by
    obtain ⟨rest, hrest⟩ := h
    rw [← hrest]
    cases hc : escape c with
    | nil =>
      by_cases hmem : c ∈ escapedChars
      · have := head?_escape_of_mem hmem
        rw [hc] at this
        cases this
      · rw [escape_of_not_mem hmem] at hc
        cases hc
    | cons x xs => rfl
  by_cases hc : c ∈ escapedChars
  · by_cases hd : d ∈ escapedChars
    · exact hspecial c hc d hd h
    · rw [head?_escape_of_mem hc, escape_of_not_mem hd] at hhead
      cases hhead
      exact absurd (by decide) hd
  · rw [escape_of_not_mem hc] at hhead
    by_cases hd : d ∈ escapedChars
    · rw [head?_escape_of_mem hd] at hhead
      cases hhead
      exact absurd (by decide) hc
    · rw [escape_of_not_mem hd] at hhead
      exact Option.some.inj hhead

/-- No character's text begins with a quote. -/
theorem escape_append_ne_quote (c : Char) (rest rest' : List Char) :
    escape c ++ rest ≠ '"' :: rest' := by
  intro h
  have hhead := congrArg List.head? h
  by_cases hc : c ∈ escapedChars
  · have hescape := head?_escape_of_mem hc
    cases htext : escape c with
    | nil =>
      rw [htext] at hescape
      cases hescape
    | cons x xs =>
      rw [htext] at hescape hhead
      cases Option.some.inj hescape
      cases hhead
  · rw [escape_of_not_mem hc] at hhead
    cases hhead
    exact hc (by decide)

/-- The text of a string ends at the first quote that is not escaped. -/
theorem escaped_append_inj {s t rest rest' : List Char}
    (h : s.flatMap escape ++ '"' :: rest = t.flatMap escape ++ '"' :: rest') :
    s = t ∧ rest = rest' := by
  induction s generalizing t with
  | nil =>
    cases t with
    | nil =>
      cases h
      exact ⟨rfl, rfl⟩
    | cons d t =>
      rw [List.flatMap_cons, List.append_assoc] at h
      exact absurd h.symm (escape_append_ne_quote d _ _)
  | cons c s ih =>
    cases t with
    | nil =>
      rw [List.flatMap_cons, List.append_assoc] at h
      exact absurd h (escape_append_ne_quote c _ _)
    | cons d t =>
      rw [List.flatMap_cons, List.flatMap_cons, List.append_assoc, List.append_assoc] at h
      have hcd : c = d := by
        rcases List.append_eq_append_iff.1 h with ⟨mid, hd, _⟩ | ⟨mid, hc, _⟩
        · exact escape_initial ⟨mid, hd.symm⟩
        · exact (escape_initial ⟨mid, hc.symm⟩).symm
      subst hcd
      obtain ⟨rfl, hrest⟩ := ih (List.append_cancel_left h)
      exact ⟨rfl, hrest⟩

theorem quoted_append_inj {s t : String} {rest rest' : List Char}
    (h : quoted s ++ rest = quoted t ++ rest') : s = t ∧ rest = rest' := by
  have hchars : s.toList.flatMap escape ++ '"' :: rest =
      t.toList.flatMap escape ++ '"' :: rest' := by
    simpa [quoted] using h
  obtain ⟨hst, hrest⟩ := escaped_append_inj hchars
  exact ⟨String.toList_inj.1 hst, hrest⟩

/-! ## Numbers -/

/-- Whether a text that stands behind a number cannot belong to it. -/
def Ends (rest : List Char) : Prop :=
  ∀ c ∈ rest.head?, c.isDigit = false

theorem ends_cons {c : Char} {rest : List Char} (h : c.isDigit = false) : Ends (c :: rest) := by
  intro d hd
  cases hd
  exact h

theorem isDigit_of_mem_digitsOf {n : Nat} {c : Char} (h : c ∈ digitsOf n) : c.isDigit = true :=
  Nat.isDigit_of_mem_toDigits (by decide) (by decide) h

theorem takeWhile_digitsOf {n : Nat} {rest : List Char} (h : Ends rest) :
    (digitsOf n ++ rest).takeWhile (·.isDigit) = digitsOf n := by
  rw [List.takeWhile_append_of_pos fun c hc => isDigit_of_mem_digitsOf hc]
  cases rest with
  | nil => simp
  | cons c rest => simp [h c rfl]

theorem digitsOf_append_inj {n m : Nat} {rest rest' : List Char} (h : Ends rest) (h' : Ends rest')
    (heq : digitsOf n ++ rest = digitsOf m ++ rest') : n = m ∧ rest = rest' := by
  have hdigits : digitsOf n = digitsOf m := by
    rw [← takeWhile_digitsOf h, heq, takeWhile_digitsOf h']
  have hnm : n = m := by
    have hvalue := congrArg (Nat.ofDigitChars 10 · 0) hdigits
    simpa [digitsOf] using hvalue
  rw [hdigits] at heq
  exact ⟨hnm, List.append_cancel_left heq⟩

/-- The first digit of a number. -/
theorem digitsOf_eq_cons (n : Nat) : ∃ c rest, digitsOf n = c :: rest ∧ c.isDigit = true := by
  cases htext : digitsOf n with
  | nil => exact absurd htext Nat.toDigits_ne_nil
  | cons c rest => exact ⟨c, rest, rfl, isDigit_of_mem_digitsOf (htext ▸ List.mem_cons_self)⟩

/-! ## Kinds -/

/-- What the first character of a text says about its value. -/
inductive Lead where
  | null
  | yes
  | no
  | minus
  | digit
  | quote
  | bracket
  | brace
  /-- No value begins so. -/
  | other
  deriving DecidableEq

/-- What a first character says. -/
def leadOf (c : Char) : Lead :=
  if c = 'n' then .null
  else if c = 't' then .yes
  else if c = 'f' then .no
  else if c = '-' then .minus
  else if c = '"' then .quote
  else if c = '[' then .bracket
  else if c = '\x7b' then .brace
  else if c.isDigit then .digit
  else .other

/-- What the text of a value begins with. -/
def lead : Json → Lead
  | .bool true => .yes
  | .bool false => .no
  | .int (.ofNat _) => .digit
  | .int (.negSucc _) => .minus
  | .str _ => .quote
  | .arr _ => .bracket
  | .obj _ => .brace
  | _ => .null

theorem leadOf_of_isDigit {c : Char} (h : c.isDigit = true) : leadOf c = .digit := by
  have hne : ∀ d : Char, d.isDigit = false → c ≠ d := by
    rintro d hd rfl
    rw [h] at hd
    cases hd
  simp [leadOf, hne, h]

theorem lead_ne_other (v : Json) : v.lead ≠ .other := by
  unfold lead
  split <;> simp

/-- The first character says which kind of value follows. -/
theorem leadOf_compactChars {v : Json} (h : v.isIntegral = true) (rest : List Char) :
    (compactChars v ++ rest).head?.map leadOf = some v.lead := by
  cases v with
  | null => rfl
  | bool b => cases b <;> rfl
  | int n =>
    cases n with
    | ofNat n =>
      obtain ⟨c, text, htext, hdigit⟩ := digitsOf_eq_cons n
      show (digitsOf n ++ rest).head?.map leadOf = _
      rw [htext]
      exact congrArg some (leadOf_of_isDigit hdigit)
    | negSucc n => rfl
  | float x => cases h
  | str s => rfl
  | arr items => rfl
  | obj members => rfl
  | void => cases h

/-- No value begins as a list of items ends. -/
theorem compactChars_append_ne_bracket {v : Json} (h : v.isIntegral = true)
    (rest rest' : List Char) : compactChars v ++ rest ≠ ']' :: rest' := by
  intro heq
  have hlead := leadOf_compactChars h rest
  rw [heq] at hlead
  exact lead_ne_other v (Option.some.inj hlead).symm

/-- No string begins as a list of members ends. -/
theorem quoted_append_ne_brace (s : String) (rest rest' : List Char) :
    quoted s ++ rest ≠ '\x7d' :: rest' := by
  intro heq
  cases congrArg List.head? heq

/-! ## Lists -/

/-- What stands behind an item. -/
def itemsTail : List Json → List Char
  | [] => []
  | v :: rest => ',' :: compactItems (v :: rest)

/-- What stands behind a member. -/
def membersTail : List (String × Json) → List Char
  | [] => []
  | m :: rest => ',' :: compactMembers (m :: rest)

theorem compactItems_cons (v : Json) (rest : List Json) :
    compactItems (v :: rest) = compactChars v ++ itemsTail rest := by
  cases rest with
  | nil => simp [compactItems, itemsTail]
  | cons w rest => rfl

theorem compactMembers_cons (k : String) (v : Json) (rest : List (String × Json)) :
    compactMembers ((k, v) :: rest) = quoted k ++ ':' :: (compactChars v ++ membersTail rest) := by
  cases rest with
  | nil => simp [compactMembers, membersTail]
  | cons m rest => simp [compactMembers, membersTail]

theorem ends_itemsTail (items : List Json) (rest : List Char) :
    Ends (itemsTail items ++ ']' :: rest) := by
  cases items with
  | nil => exact ends_cons (by decide)
  | cons v items => exact ends_cons (by decide)

theorem ends_membersTail (members : List (String × Json)) (rest : List Char) :
    Ends (membersTail members ++ '\x7d' :: rest) := by
  cases members with
  | nil => exact ends_cons (by decide)
  | cons m members => exact ends_cons (by decide)

/-- A value of a kind. -/
def OfLead (v : Json) : Lead → Prop
  | .null => v = .null
  | .yes => v = .bool true
  | .no => v = .bool false
  | .minus => ∃ n, v = .int (.negSucc n)
  | .digit => ∃ n, v = .int (.ofNat n)
  | .quote => ∃ s, v = .str s
  | .bracket => ∃ items, v = .arr items
  | .brace => ∃ members, v = .obj members
  | .other => False

theorem ofLead_lead {v : Json} (h : v.isIntegral = true) : v.OfLead v.lead := by
  cases v with
  | null => rfl
  | bool b => cases b <;> rfl
  | int n => cases n <;> exact ⟨_, rfl⟩
  | float x => cases h
  | str s => exact ⟨s, rfl⟩
  | arr items => exact ⟨items, rfl⟩
  | obj members => exact ⟨members, rfl⟩
  | void => cases h

/-! ## Values -/

mutual

/-- The text of a value tells the value and what stands behind it. -/
theorem compactChars_append_inj {v w : Json} {rest rest' : List Char} (hv : v.isIntegral = true)
    (hw : w.isIntegral = true) (h : Ends rest) (h' : Ends rest')
    (heq : compactChars v ++ rest = compactChars w ++ rest') : v = w ∧ rest = rest' := by
  have hlead : v.lead = w.lead := by
    have hhead := leadOf_compactChars hv rest
    rw [heq, leadOf_compactChars hw] at hhead
    exact (Option.some.inj hhead).symm
  have hkind : w.OfLead v.lead := hlead ▸ ofLead_lead hw
  cases v with
  | null =>
    cases hkind
    exact ⟨rfl, List.append_cancel_left heq⟩
  | bool b =>
    cases b <;> cases hkind <;> exact ⟨rfl, List.append_cancel_left heq⟩
  | int n =>
    cases n with
    | ofNat n =>
      obtain ⟨m, rfl⟩ := hkind
      obtain ⟨rfl, hrest⟩ := digitsOf_append_inj h h' heq
      exact ⟨rfl, hrest⟩
    | negSucc n =>
      obtain ⟨m, rfl⟩ := hkind
      obtain ⟨hnm, hrest⟩ := digitsOf_append_inj h h' (List.cons.inj heq).2
      cases hnm
      exact ⟨rfl, hrest⟩
  | float x => cases hv
  | str s =>
    obtain ⟨t, rfl⟩ := hkind
    obtain ⟨rfl, hrest⟩ := quoted_append_inj heq
    exact ⟨rfl, hrest⟩
  | arr items =>
    obtain ⟨items', rfl⟩ := hkind
    simp only [compactChars, List.cons_append, List.append_assoc, List.nil_append] at heq
    obtain ⟨rfl, hrest⟩ := compactItems_append_inj hv hw (List.cons.inj heq).2
    exact ⟨rfl, hrest⟩
  | obj members =>
    obtain ⟨members', rfl⟩ := hkind
    simp only [compactChars, List.cons_append, List.append_assoc, List.nil_append] at heq
    obtain ⟨rfl, hrest⟩ := compactMembers_append_inj hv hw (List.cons.inj heq).2
    exact ⟨rfl, hrest⟩
  | void => cases hv

/-- The text of the items of an array tells the items. -/
theorem compactItems_append_inj {vs ws : List Json} {rest rest' : List Char}
    (hv : isIntegralAll vs = true) (hw : isIntegralAll ws = true)
    (heq : compactItems vs ++ ']' :: rest = compactItems ws ++ ']' :: rest') :
    vs = ws ∧ rest = rest' := by
  cases vs with
  | nil =>
    cases ws with
    | nil => exact ⟨rfl, (List.cons.inj heq).2⟩
    | cons w ws =>
      rw [compactItems_cons, List.append_assoc] at heq
      exact absurd heq.symm (compactChars_append_ne_bracket (isIntegralAll_cons.1 hw).1 _ _)
  | cons v vs =>
    cases ws with
    | nil =>
      rw [compactItems_cons, List.append_assoc] at heq
      exact absurd heq (compactChars_append_ne_bracket (isIntegralAll_cons.1 hv).1 _ _)
    | cons w ws =>
      obtain ⟨hv, hvs⟩ := isIntegralAll_cons.1 hv
      obtain ⟨hw, hws⟩ := isIntegralAll_cons.1 hw
      rw [compactItems_cons, compactItems_cons, List.append_assoc, List.append_assoc] at heq
      obtain ⟨rfl, htail⟩ := compactChars_append_inj hv hw (ends_itemsTail _ _) (ends_itemsTail _ _) heq
      -- A comma or the closing bracket tells whether more items follow.
      cases vs with
      | nil =>
        cases ws with
        | nil => exact ⟨rfl, (List.cons.inj htail).2⟩
        | cons w ws => cases congrArg List.head? htail
      | cons v' vs =>
        cases ws with
        | nil => cases congrArg List.head? htail
        | cons w' ws =>
          obtain ⟨hvw, hrest⟩ := compactItems_append_inj hvs hws (List.cons.inj htail).2
          exact ⟨by rw [hvw], hrest⟩

/-- The text of the members of an object tells the members. -/
theorem compactMembers_append_inj {ms ns : List (String × Json)} {rest rest' : List Char}
    (hm : isIntegralMembers ms = true) (hn : isIntegralMembers ns = true)
    (heq : compactMembers ms ++ '\x7d' :: rest = compactMembers ns ++ '\x7d' :: rest') :
    ms = ns ∧ rest = rest' := by
  cases ms with
  | nil =>
    cases ns with
    | nil => exact ⟨rfl, (List.cons.inj heq).2⟩
    | cons n ns =>
      obtain ⟨k, w⟩ := n
      rw [compactMembers_cons, List.append_assoc] at heq
      exact absurd heq.symm (quoted_append_ne_brace k _ _)
  | cons m ms =>
    obtain ⟨k, v⟩ := m
    cases ns with
    | nil =>
      rw [compactMembers_cons, List.append_assoc] at heq
      exact absurd heq (quoted_append_ne_brace k _ _)
    | cons n ns =>
      obtain ⟨l, w⟩ := n
      obtain ⟨hv, hms⟩ := isIntegralMembers_cons.1 hm
      obtain ⟨hw, hns⟩ := isIntegralMembers_cons.1 hn
      simp only [compactMembers_cons, List.append_assoc, List.cons_append] at heq
      obtain ⟨rfl, hcolon⟩ := quoted_append_inj heq
      obtain ⟨rfl, htail⟩ :=
        compactChars_append_inj hv hw (ends_membersTail _ _) (ends_membersTail _ _)
          (List.cons.inj hcolon).2
      cases ms with
      | nil =>
        cases ns with
        | nil => exact ⟨rfl, (List.cons.inj htail).2⟩
        | cons n ns => cases congrArg List.head? htail
      | cons m' ms =>
        cases ns with
        | nil => cases congrArg List.head? htail
        | cons n' ns =>
          obtain ⟨hmn, hrest⟩ := compactMembers_append_inj hms hns (List.cons.inj htail).2
          exact ⟨by rw [hmn], hrest⟩

end

/-- Values without doubles are told apart by their compact texts. -/
theorem compact_inj {v w : Json} (hv : v.isIntegral = true) (hw : w.isIntegral = true)
    (h : v.compact = w.compact) : v = w := by
  have hchars : compactChars v = compactChars w := by
    rw [compact, compact] at h
    exact String.ofList_injective h
  have hnone : Ends [] := by
    intro c hc
    cases hc
  have heq : compactChars v ++ [] = compactChars w ++ [] := by
    rw [hchars]
  exact (compactChars_append_inj hv hw hnone hnone heq).1

end Playbook.Json
