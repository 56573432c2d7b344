import Playbook.Json.Reader
import Playbook.Proofs.Json.Spelling

/-!
# `Proofs.Json.Grammar` — the texts that denote a value, and what is read from them

A value has one list of tokens, its members in their order. Every way to write these tokens, with white space wherever it may stand,
is a text that denotes the value. The reader finds the value in each of them, but for the arrays and objects in it that are nested
too deeply.

## Contents
- **Tokens of a value.** `tokensOf`, in which scalars never meet (`apart_tokensOf`).
- **Depth.** `depth`; `cutOff`, what is left of a value where only some levels may be nested, and `readable_cutOff`.
- **Reading.** `run_tokensOf` with its companions for items and members: whatever is open around a value, its tokens complete it, cut
  off at the levels that are left.
- **Texts.** `Denotes`; `readTree_cutOff`, `readTree_of_denotes`, `parse_of_denotes`.
-/

namespace Playbook.Json

/-! ## Tokens of a value -/

mutual

/-- The tokens of a value. -/
def tokensOf : Json → List Token
  | .arr items => .openArr :: (itemTokens items ++ [.closeArr])
  | .obj members => .openObj :: (memberTokens members ++ [.closeObj])
  | .str s => [.str (some s)]
  | v => [.scalar v]

/-- The tokens of items, with commas between them. -/
def itemTokens : List Json → List Token
  | [] => []
  | [v] => tokensOf v
  | v :: w :: rest => tokensOf v ++ .comma :: itemTokens (w :: rest)

/-- The tokens of members, with commas between them. -/
def memberTokens : List (String × Json) → List Token
  | [] => []
  | [(k, v)] => .str (some k) :: .colon :: tokensOf v
  | (k, v) :: m :: rest => .str (some k) :: .colon :: (tokensOf v ++ .comma :: memberTokens (m :: rest))

end

/-- Whether tokens may stand behind a value: they do not open with a scalar. -/
def Trails (tokens : List Token) : Prop :=
  Apart tokens ∧ ∀ token ∈ tokens.head?, token.isScalar = false

theorem apart_cons {token : Token} {rest : List Token} (h : token.isScalar = false)
    (hrest : Apart rest) : Apart (token :: rest) := by
  cases rest with
  | nil => trivial
  | cons next rest => exact ⟨by rw [h, Bool.false_and], hrest⟩

theorem trails_cons {token : Token} {rest : List Token} (h : token.isScalar = false)
    (hrest : Apart rest) : Trails (token :: rest) := by
  refine ⟨apart_cons h hrest, fun first hfirst => ?_⟩
  cases hfirst
  exact h

theorem Trails.scalar {rest : List Token} (h : Trails rest) (v : Json) : Apart (.scalar v :: rest) := by
  cases rest with
  | nil => trivial
  | cons next rest => exact ⟨by rw [h.2 next rfl, Bool.and_false], h.1⟩

mutual

/-- In the tokens of a value, no scalar stands beside another. -/
theorem apart_tokensOf (v : Json) {rest : List Token} (h : Trails rest) : Apart (tokensOf v ++ rest) := by
  cases v with
  | arr items =>
    rw [tokensOf, List.cons_append, List.append_assoc]
    exact apart_cons rfl (apart_itemTokens items (trails_cons rfl h.1))
  | obj members =>
    rw [tokensOf, List.cons_append, List.append_assoc]
    exact apart_cons rfl (apart_memberTokens members (trails_cons rfl h.1))
  | str s => exact apart_cons rfl h.1
  | _ => exact h.scalar _

theorem apart_itemTokens (items : List Json) {rest : List Token} (h : Trails rest) :
    Apart (itemTokens items ++ rest) := by
  match items with
  | [] => exact h.1
  | [v] => exact apart_tokensOf v h
  | v :: w :: more =>
    rw [itemTokens, List.append_assoc]
    exact apart_tokensOf v (trails_cons rfl (apart_itemTokens (w :: more) h))

theorem apart_memberTokens (members : List (String × Json)) {rest : List Token} (h : Trails rest) :
    Apart (memberTokens members ++ rest) := by
  match members with
  | [] => exact h.1
  | [(k, v)] => exact apart_cons rfl (apart_cons rfl (apart_tokensOf v h))
  | (k, v) :: m :: more =>
    rw [memberTokens, List.cons_append, List.cons_append, List.append_assoc]
    exact apart_cons rfl (apart_cons rfl
      (apart_tokensOf v (trails_cons rfl (apart_memberTokens (m :: more) h))))

end

/-! ## Depth -/

mutual

/-- How many arrays and objects stand inside each other. -/
def depth : Json → Nat
  | .arr items => depthAll items + 1
  | .obj members => depthMembers members + 1
  | _ => 0

/-- The depth of the deepest item. -/
def depthAll : List Json → Nat
  | [] => 0
  | v :: rest => max (depth v) (depthAll rest)

/-- The depth of the deepest value of a member. -/
def depthMembers : List (String × Json) → Nat
  | [] => 0
  | (_, v) :: rest => max (depth v) (depthMembers rest)

end

theorem depthAll_le_iff {items : List Json} {n : Nat} : depthAll items ≤ n ↔ ∀ v ∈ items, v.depth ≤ n := by
  induction items with
  | nil => simp [depthAll]
  | cons v rest ih => rw [depthAll, List.forall_mem_cons, Nat.max_le, ih]

theorem depthMembers_le_iff {members : List (String × Json)} {n : Nat} :
    depthMembers members ≤ n ↔ ∀ m ∈ members, m.2.depth ≤ n := by
  induction members with
  | nil => simp [depthMembers]
  | cons m rest ih => rw [depthMembers, List.forall_mem_cons, Nat.max_le, ih]

/-- The value that an object reads under a key is not deeper than its members. -/
theorem depth_le_of_get? {members : List (String × Json)} {key : String} {v : Json}
    (h : KeyMap.get? members key = some v) : v.depth ≤ depthMembers members := by
  induction members with
  | nil => cases h
  | cons m rest ih =>
    obtain ⟨k, w⟩ := m
    rw [depthMembers]
    by_cases hk : key = k
    · rw [KeyMap.get?, if_pos hk] at h
      cases h
      exact Nat.le_max_left _ _
    · rw [KeyMap.get?, if_neg hk] at h
      exact Nat.le_trans (ih h) (Nat.le_max_right _ _)

mutual

/-- What is left of a value where only some levels may be nested: an array or object below them has no value. -/
def cutOff : Json → Nat → Json
  | .arr items, levels => if levels = 0 then .void else .arr (cutOffAll items (levels - 1))
  | .obj members, levels => if levels = 0 then .void else .obj (cutOffMembers members (levels - 1))
  | v, _ => v

/-- What is left of each item. -/
def cutOffAll : List Json → Nat → List Json
  | [], _ => []
  | v :: rest, levels => cutOff v levels :: cutOffAll rest levels

/-- What is left of the value of each member. -/
def cutOffMembers : List (String × Json) → Nat → List (String × Json)
  | [], _ => []
  | (k, v) :: rest, levels => (k, cutOff v levels) :: cutOffMembers rest levels

end

mutual

/-- A value that is not too deep is left as it is. -/
theorem cutOff_of_depth_le {v : Json} {levels : Nat} (h : v.depth ≤ levels) : v.cutOff levels = v := by
  cases v with
  | arr items =>
    rw [depth] at h
    rw [cutOff, if_neg (by omega), cutOffAll_of_depth_le (by omega)]
  | obj members =>
    rw [depth] at h
    rw [cutOff, if_neg (by omega), cutOffMembers_of_depth_le (by omega)]
  | _ => rfl

theorem cutOffAll_of_depth_le {items : List Json} {levels : Nat} (h : depthAll items ≤ levels) :
    cutOffAll items levels = items := by
  cases items with
  | nil => rfl
  | cons v rest =>
    rw [depthAll, Nat.max_le] at h
    rw [cutOffAll, cutOff_of_depth_le h.1, cutOffAll_of_depth_le h.2]

theorem cutOffMembers_of_depth_le {members : List (String × Json)} {levels : Nat}
    (h : depthMembers members ≤ levels) : cutOffMembers members levels = members := by
  cases members with
  | nil => rfl
  | cons m rest =>
    obtain ⟨k, v⟩ := m
    rw [depthMembers, Nat.max_le] at h
    rw [cutOffMembers, cutOff_of_depth_le h.1, cutOffMembers_of_depth_le h.2]

end

theorem map_fst_cutOffMembers (members : List (String × Json)) (levels : Nat) :
    (cutOffMembers members levels).map (·.1) = members.map (·.1) := by
  induction members with
  | nil => rfl
  | cons m rest ih => rw [cutOffMembers, List.map_cons, List.map_cons, ih]

theorem get?_cutOffMembers (members : List (String × Json)) (levels : Nat) (key : String) :
    KeyMap.get? (cutOffMembers members levels) key = (KeyMap.get? members key).map (·.cutOff levels) := by
  induction members with
  | nil => rfl
  | cons m rest ih =>
    obtain ⟨k, v⟩ := m
    rw [cutOffMembers, KeyMap.get?, KeyMap.get?]
    by_cases hk : key = k
    · rw [if_pos hk, if_pos hk]
      rfl
    · rw [if_neg hk, if_neg hk, ih]

theorem cutOffAll_eq_map (items : List Json) (levels : Nat) : cutOffAll items levels = items.map (·.cutOff levels) := by
  induction items with
  | nil => rfl
  | cons v rest ih => rw [cutOffAll, ih, List.map_cons]

mutual

/-- What is left of a value can be read if the value can be and is not too deep. -/
theorem readable_cutOff (v : Json) (levels : Nat) :
    (v.cutOff levels).readable = true ↔ v.readable = true ∧ v.depth ≤ levels := by
  cases v with
  | arr items =>
    rw [cutOff, depth]
    by_cases hnone : levels = 0
    · simp [hnone, readable]
    · rw [if_neg hnone, readable, readableAll_cutOffAll, readable]
      have hlevels : depthAll items ≤ levels - 1 ↔ depthAll items + 1 ≤ levels := by omega
      rw [hlevels]
  | obj members =>
    rw [cutOff, depth]
    by_cases hnone : levels = 0
    · simp [hnone, readable]
    · rw [if_neg hnone, readable, readableMembers_cutOffMembers, readable]
      have hlevels : depthMembers members ≤ levels - 1 ↔ depthMembers members + 1 ≤ levels := by omega
      rw [hlevels]
  | _ => simp [cutOff, depth]

theorem readableAll_cutOffAll (items : List Json) (levels : Nat) :
    readableAll (cutOffAll items levels) = true ↔ readableAll items = true ∧ depthAll items ≤ levels := by
  cases items with
  | nil => simp [cutOffAll, readableAll, depthAll]
  | cons v rest =>
    rw [cutOffAll, readableAll, Bool.and_eq_true, readable_cutOff v levels, readableAll_cutOffAll rest levels,
      readableAll, Bool.and_eq_true, depthAll, Nat.max_le]
    exact and_and_and_comm

theorem readableMembers_cutOffMembers (members : List (String × Json)) (levels : Nat) :
    readableMembers (cutOffMembers members levels) = true ↔
      readableMembers members = true ∧ depthMembers members ≤ levels := by
  cases members with
  | nil => simp [cutOffMembers, readableMembers, depthMembers]
  | cons m rest =>
    obtain ⟨k, v⟩ := m
    rw [cutOffMembers, readableMembers, Bool.and_eq_true, readable_cutOff v levels,
      readableMembers_cutOffMembers rest levels, readableMembers, Bool.and_eq_true, depthMembers, Nat.max_le]
    exact and_and_and_comm

end

/-! ## Reading -/

theorem run_cons {token : Token} {state next : State} (h : step token state = some next)
    (rest : List Token) : run state (token :: rest) = run next rest := by
  rw [run, h]

/-- The end of a container whose items have been cut off completes what is left of it. -/
theorem closed_arr (items : List Json) (stack : List Frame) :
    closed (.arr (cutOffAll items (depthLimit - (stack.length + 1)))) stack =
      complete ((Json.arr items).cutOff (depthLimit - stack.length)) stack := by
  rw [closed, cutOff, ← Nat.sub_sub]
  by_cases hopen : stack.length < depthLimit
  · rw [if_pos hopen, if_neg (by omega)]
  · rw [if_neg hopen, if_pos (by omega)]

theorem closed_obj (members : List (String × Json)) (stack : List Frame) :
    closed (.obj (cutOffMembers members (depthLimit - (stack.length + 1)))) stack =
      complete ((Json.obj members).cutOff (depthLimit - stack.length)) stack := by
  rw [closed, cutOff, ← Nat.sub_sub]
  by_cases hopen : stack.length < depthLimit
  · rw [if_pos hopen, if_neg (by omega)]
  · rw [if_neg hopen, if_pos (by omega)]

/-- A value opens with a token with which no list ends. -/
theorem tokensOf_eq_cons (v : Json) :
    ∃ token rest, tokensOf v = token :: rest ∧ token ≠ .closeArr := by
  cases v <;> exact ⟨_, _, rfl, by simp⟩

/-- At the beginning of an array an item is read as any value is. -/
theorem run_item {want : Want} (h : want = .value ∨ want = .itemOrEnd) (v : Json) (stack : List Frame)
    (rest : List Token) :
    run (.reading want stack) (tokensOf v ++ rest) = run (.reading .value stack) (tokensOf v ++ rest) := by
  -- Only the end of the array makes a difference there, and no value opens with it.
  obtain ⟨token, more, htokens, hne⟩ := tokensOf_eq_cons v
  have hstep : step token (.reading want stack) = step token (.reading .value stack) := by
    rcases h with rfl | rfl
    · rfl
    · cases token <;> first | rfl | exact absurd rfl hne
  rw [htokens, List.cons_append, run, run, hstep]

/-- A key is read alike at the beginning of an object and behind a comma. -/
theorem step_key {want : Want} (h : want = .key ∨ want = .keyOrEnd) (k key : String)
    (members : List (String × Json)) (broken : Bool) (stack : List Frame) :
    step (.str (some k)) (.reading want (.obj members broken key :: stack)) =
      some (.reading .colon (.obj members broken k :: stack)) := by
  rcases h with rfl | rfl <;> rfl

mutual

/-- The tokens of a value complete what is left of it at the levels that may still be nested. -/
theorem run_tokensOf (v : Json) (stack : List Frame) (rest : List Token) :
    run (.reading .value stack) (tokensOf v ++ rest) =
      run (complete (v.cutOff (depthLimit - stack.length)) stack) rest := by
  cases v with
  | arr items =>
    rw [tokensOf, List.cons_append, List.append_assoc, run_cons rfl, ← closed_arr]
    exact run_itemTokens items (.inr rfl) (fun _ => rfl) [] stack rest
  | obj members =>
    rw [tokensOf, List.cons_append, List.append_assoc, run_cons rfl, ← closed_obj]
    exact run_memberTokens members (.inr rfl) (fun _ => rfl) [] "" stack rest
  | _ => exact run_cons rfl rest

/-- The tokens of items and of the end of their array complete it with them. Behind a comma there must be an item. -/
theorem run_itemTokens (items : List Json) {want : Want} (hwant : want = .value ∨ want = .itemOrEnd)
    (hempty : items = [] → want = .itemOrEnd) (before : List Json) (stack : List Frame) (rest : List Token) :
    run (.reading want (.arr before :: stack)) (itemTokens items ++ ([.closeArr] ++ rest)) =
      run (closed (.arr (before.reverse ++ cutOffAll items (depthLimit - (stack.length + 1)))) stack) rest := by
  match items with
  | [] =>
    rw [hempty rfl, itemTokens, List.nil_append, List.singleton_append, run_cons rfl, cutOffAll,
      List.append_nil]
  | [v] =>
    rw [itemTokens, run_item hwant, run_tokensOf v, complete, List.singleton_append, run_cons rfl,
      List.reverse_cons]
    rfl
  | v :: w :: more =>
    -- The item is completed inside its array, a comma follows, and the others are read behind it.
    rw [itemTokens, List.append_assoc, run_item hwant, run_tokensOf v, complete, List.cons_append,
      run_cons rfl, run_itemTokens (w :: more) (.inl rfl) (fun hnil => nomatch hnil) _ stack rest,
      List.reverse_cons, List.append_assoc]
    rfl

/-- The tokens of members and of the end of their object complete it with them. -/
theorem run_memberTokens (members : List (String × Json)) {want : Want}
    (hwant : want = .key ∨ want = .keyOrEnd) (hempty : members = [] → want = .keyOrEnd)
    (before : List (String × Json)) (key : String) (stack : List Frame) (rest : List Token) :
    run (.reading want (.obj before false key :: stack)) (memberTokens members ++ ([.closeObj] ++ rest)) =
      run (closed (.obj (before.reverse ++ cutOffMembers members (depthLimit - (stack.length + 1)))) stack) rest := by
  match members with
  | [] =>
    rw [hempty rfl, memberTokens, List.nil_append, List.singleton_append, run_cons rfl, cutOffMembers,
      List.append_nil]
    rfl
  | [(k, v)] =>
    rw [memberTokens, List.cons_append, List.cons_append,
      run_cons (step_key hwant k key before false stack), run_cons rfl, run_tokensOf v, complete,
      List.singleton_append, run_cons rfl, ofMembers, List.reverse_cons]
    rfl
  | (k, v) :: m :: more =>
    rw [memberTokens, List.cons_append, List.cons_append, List.append_assoc,
      run_cons (step_key hwant k key before false stack), run_cons rfl, run_tokensOf v, complete,
      List.cons_append, run_cons rfl, run_memberTokens (m :: more) (.inl rfl) (fun hnil => nomatch hnil)
        _ k stack rest, List.reverse_cons, List.append_assoc]
    rfl

end

/-! ## Texts -/

/-- Whether a text denotes a value: it writes the value's tokens, with any white space between them. -/
def Denotes (v : Json) (text : String) : Prop :=
  Spells (tokensOf v) text.toList

/-- Of a text that denotes a value, the tree is read that it was written from, as far down as it may be nested. -/
theorem readTree_cutOff {v : Json} {text : String} (h : Denotes v text) :
    readTree text = some (v.cutOff depthLimit) := by
  -- Nothing stands behind the value, and nothing is open around it.
  have hapart : Apart (tokensOf v) := by
    have happend : Apart (tokensOf v ++ []) := apart_tokensOf v ⟨trivial, fun _ hfirst => nomatch hfirst⟩
    rwa [List.append_nil] at happend
  have hrun := run_tokensOf v [] []
  rw [List.append_nil] at hrun
  rw [readTree, tokens_of_spells h hapart, Option.bind_some, hrun]
  rfl

theorem readTree_of_denotes {v : Json} {text : String} (h : Denotes v text)
    (hdepth : v.depth ≤ depthLimit) : readTree text = some v := by
  rw [readTree_cutOff h, cutOff_of_depth_le hdepth]

mutual

/-- What has no value has no text. -/
theorem readable_of_lexemes {v : Json} (h : ∀ token ∈ tokensOf v, ∃ text, Lexeme token text) :
    v.readable = true := by
  cases v with
  | arr items =>
    refine readableAll_of_lexemes fun token htoken => h token ?_
    exact List.mem_cons_of_mem _ (List.mem_append_left _ htoken)
  | obj members =>
    refine readableMembers_of_lexemes fun token htoken => h token ?_
    exact List.mem_cons_of_mem _ (List.mem_append_left _ htoken)
  | void =>
    obtain ⟨text, htext⟩ := h (.scalar .void) List.mem_cons_self
    cases htext with
    | number _ hv => exact absurd rfl hv
  | _ => rfl

theorem readableAll_of_lexemes {items : List Json}
    (h : ∀ token ∈ itemTokens items, ∃ text, Lexeme token text) : readableAll items = true := by
  match items with
  | [] => rfl
  | [v] =>
    rw [readableAll, readable_of_lexemes h]
    rfl
  | v :: w :: more =>
    rw [itemTokens] at h
    rw [readableAll, readable_of_lexemes fun token ht => h token (List.mem_append_left _ ht),
      readableAll_of_lexemes fun token ht =>
        h token (List.mem_append_right _ (List.mem_cons_of_mem _ ht))]
    rfl

theorem readableMembers_of_lexemes {members : List (String × Json)}
    (h : ∀ token ∈ memberTokens members, ∃ text, Lexeme token text) :
    readableMembers members = true := by
  match members with
  | [] => rfl
  | [(k, v)] =>
    rw [readableMembers, readable_of_lexemes fun token ht =>
      h token (List.mem_cons_of_mem _ (List.mem_cons_of_mem _ ht))]
    rfl
  | (k, v) :: m :: more =>
    rw [memberTokens] at h
    have htail := fun token ht => h token (List.mem_cons_of_mem _ (List.mem_cons_of_mem _ ht))
    rw [readableMembers, readable_of_lexemes fun token ht => htail token (List.mem_append_left _ ht),
      readableMembers_of_lexemes fun token ht =>
        htail token (List.mem_append_right _ (List.mem_cons_of_mem _ ht))]
    rfl

end

theorem Spells.lexemes {tokens : List Token} {text : List Char} (h : Spells tokens text) :
    ∀ token ∈ tokens, ∃ text, Lexeme token text := by
  induction h with
  | nil => exact fun _ htoken => nomatch htoken
  | cons _ hlexeme _ ih => exact List.forall_mem_cons.2 ⟨⟨_, hlexeme⟩, ih⟩

/-- A text that denotes a value is read as the normal form of that value. -/
theorem parse_of_denotes {v : Json} {text : String} (h : Denotes v text)
    (hdepth : v.depth ≤ depthLimit) : parse text = some v.normalize := by
  rw [parse, readTree_of_denotes h hdepth]
  exact if_pos (readable_of_lexemes h.lexemes)

end Playbook.Json
