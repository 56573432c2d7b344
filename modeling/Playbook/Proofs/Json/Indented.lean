import Playbook.Proofs.Json.Printed

/-!
# `Proofs.Json.Indented` — the indented text of a value denotes it

Indented text writes the same tokens as compact text, with a line end and blanks before each item and member and before the end of
its container, and a blank behind each key. All of that is white space where white space may stand, so the text is read as the value
that it was printed from, member by member in the order in which they were printed.

## Contents
- **White space.** `Blank.append`, `Spells.blank`; `blank_newLine`.
- **Whole values.** `Whole`: all numbers in a value are integers of 64 bits; how lists of members and items inherit it.
- **Values.** `spells_indentedChars` with its companions for items and members; `readTree_indented`.
-/

namespace Playbook.Json

/-! ## White space -/

theorem Blank.append {before after : List Char} (h : Blank before) (h' : Blank after) :
    Blank (before ++ after) := by
  intro c hc
  exact (List.mem_append.1 hc).elim (h c) (h' c)

/-- White space may be put before any text of tokens. -/
theorem Spells.blank {tokens : List Token} {blank text : List Char} (hblank : Blank blank)
    (h : Spells tokens text) : Spells tokens (blank ++ text) := by
  cases h with
  | nil h => exact .nil (hblank.append h)
  | cons h hlexeme hrest =>
    rw [← List.append_assoc]
    exact .cons (hblank.append h) hlexeme hrest

theorem blank_newLine (depth : Nat) : Blank (newLine depth) := by
  refine List.forall_mem_cons.2 ⟨rfl, fun c hc => ?_⟩
  rw [List.eq_of_mem_replicate hc]
  rfl

/-! ## Whole values -/

/-- All numbers in a value are integers of 64 bits, signed or unsigned. -/
structure Whole (v : Json) : Prop where
  integral : v.isIntegral = true
  fits : v.fits = true

theorem whole_arr {items : List Json} : (arr items).Whole ↔ ∀ v ∈ items, v.Whole := by
  constructor
  · intro h v hv
    exact ⟨isIntegralAll_iff.1 h.integral v hv, fitsAll_iff.1 h.fits v hv⟩
  · intro h
    exact ⟨isIntegralAll_iff.2 fun v hv => (h v hv).integral, fitsAll_iff.2 fun v hv => (h v hv).fits⟩

theorem whole_obj {members : List (String × Json)} : (obj members).Whole ↔ ∀ m ∈ members, m.2.Whole := by
  constructor
  · intro h m hm
    exact ⟨isIntegralMembers_iff.1 h.integral m hm, fitsMembers_iff.1 h.fits m hm⟩
  · intro h
    exact ⟨isIntegralMembers_iff.2 fun m hm => (h m hm).integral,
      fitsMembers_iff.2 fun m hm => (h m hm).fits⟩

@[simp]
theorem whole_str (s : String) : (str s).Whole :=
  ⟨rfl, rfl⟩

@[simp]
theorem whole_null : null.Whole :=
  ⟨rfl, rfl⟩

/-! ## Values -/

mutual

/-- The indented text of a value writes its tokens. -/
theorem spells_indentedChars {v : Json} (hv : v.Whole) (depth : Nat) {tokens : List Token} {rest : List Char}
    (h : Spells tokens rest) : Spells (tokensOf v ++ tokens) (indentedChars depth v ++ rest) := by
  match v with
  | .arr [] => exact .cons_char .openArr (.cons_char .closeArr h)
  | .arr (v :: more) =>
    simp only [tokensOf, indentedChars, List.cons_append, List.append_assoc]
    exact .cons_char .openArr (spells_indentedItems (whole_arr.1 hv) (depth + 1)
      (.blank (blank_newLine depth) (.cons_char .closeArr h)))
  | .obj [] => exact .cons_char .openObj (.cons_char .closeObj h)
  | .obj (m :: more) =>
    simp only [tokensOf, indentedChars, List.cons_append, List.append_assoc]
    exact .cons_char .openObj (spells_indentedMembers (whole_obj.1 hv) (depth + 1)
      (.blank (blank_newLine depth) (.cons_char .closeObj h)))
  -- What is neither array nor object is written as in compact text.
  | .null | .bool _ | .int _ | .float _ | .str _ | .void => exact spells_compactChars hv.integral hv.fits h

theorem spells_indentedItems {items : List Json} (hv : ∀ v ∈ items, v.Whole) (depth : Nat)
    {tokens : List Token} {rest : List Char} (h : Spells tokens rest) :
    Spells (itemTokens items ++ tokens) (indentedItems depth items ++ rest) := by
  match items with
  | [] => exact h
  | [v] =>
    rw [indentedItems, itemTokens, List.append_assoc]
    exact .blank (blank_newLine depth) (spells_indentedChars (hv v List.mem_cons_self) depth h)
  | v :: w :: more =>
    obtain ⟨hv, hmore⟩ := List.forall_mem_cons.1 hv
    simp only [itemTokens, indentedItems, List.append_assoc, List.cons_append]
    exact .blank (blank_newLine depth) (spells_indentedChars hv depth
      (.cons_char .comma (spells_indentedItems hmore depth h)))

theorem spells_indentedMembers {members : List (String × Json)} (hv : ∀ m ∈ members, m.2.Whole) (depth : Nat)
    {tokens : List Token} {rest : List Char} (h : Spells tokens rest) :
    Spells (memberTokens members ++ tokens) (indentedMembers depth members ++ rest) := by
  have hspace : Blank [' '] := List.forall_mem_singleton.2 rfl
  match members with
  | [] => exact h
  | [(k, v)] =>
    simp only [memberTokens, indentedMembers, List.append_assoc, List.cons_append]
    exact .blank (blank_newLine depth) (.cons_lexeme (lexeme_quoted k) (.cons_char .colon
      (.blank hspace (spells_indentedChars (hv (k, v) List.mem_cons_self) depth h))))
  | (k, v) :: m :: more =>
    obtain ⟨hv, hmore⟩ := List.forall_mem_cons.1 hv
    simp only [memberTokens, indentedMembers, List.append_assoc, List.cons_append]
    exact .blank (blank_newLine depth) (.cons_lexeme (lexeme_quoted k) (.cons_char .colon
      (.blank hspace (spells_indentedChars hv depth
        (.cons_char .comma (spells_indentedMembers hmore depth h))))))

end

/-- The indented text of a value is read as the value, also with white space behind it. -/
theorem readTree_indented {v : Json} (hv : v.Whole) (hdepth : v.depth ≤ depthLimit) {after : List Char}
    (hafter : Blank after) : readTree (v.indented ++ String.ofList after) = some v := by
  have hspells := spells_indentedChars hv 0 (.nil hafter)
  refine readTree_of_denotes ?_ hdepth
  rwa [List.append_nil, ← String.toList_ofList (l := indentedChars 0 v ++ after), String.ofList_append] at hspells

end Playbook.Json
