import Playbook.Proofs.Json.Printed
import Playbook.Proofs.Text.ByteOrder
import Playbook.Text.Blank

/-!
# `Proofs.Json.Faithful` — canonical text stands for the value

A value without doubles is read back from its canonical text, so no two values share one. The text has no white space outside its
strings, and the members of each object in it stand in the order of the bytes of their keys. And however a value was written, in
which order of members, with which white space and with which escapes, its canonical text is one and the same.

## Contents
- **Order.** `Part`: an object anywhere in a value; `pairwise_of_isOrdered`.
- **White space.** `outside` drops strings from a text; `Unspaced`, `unspaced_compactChars`.
- **Likeness.** `Alike` values differ in the order of members at most; `normalize_eq_of_alike`.
- **Canonical text.** `Plain`, `canonical_faithful`.
-/

namespace Playbook.Json

open Text

/-! ## Order -/

/-- Whether a value stands somewhere in another one. -/
inductive Part (part : Json) : Json → Prop where
  | self : Part part part
  | item {v : Json} {items : List Json} (hv : v ∈ items) (h : Part part v) : Part part (.arr items)
  | member {m : String × Json} {members : List (String × Json)} (hm : m ∈ members)
      (h : Part part m.2) : Part part (.obj members)

theorem isOrderedAll_iff {items : List Json} :
    isOrderedAll items = true ↔ ∀ v ∈ items, v.isOrdered = true := by
  induction items with
  | nil => simp [isOrderedAll]
  | cons v rest ih => simp [isOrderedAll, ih]

theorem isOrdered_of_part {part v : Json} (h : Part part v) (hv : v.isOrdered = true) :
    part.isOrdered = true := by
  induction h with
  | self => exact hv
  | item hv' _ ih => exact ih (isOrderedAll_iff.1 hv _ hv')
  | member hm _ ih =>
    rw [isOrdered, Bool.and_eq_true] at hv
    exact ih (isOrderedMembers_iff.1 hv.2 _ hm)

/-- In an ordered value, the members of each object stand in the order of the bytes of their keys. -/
theorem pairwise_of_isOrdered {v : Json} {members : List (String × Json)} (hv : v.isOrdered = true)
    (h : Part (.obj members) v) :
    members.Pairwise fun m n => Utf8.encode m.1.toList < Utf8.encode n.1.toList := by
  have hmembers := isOrdered_of_part h hv
  rw [isOrdered, Bool.and_eq_true, decide_eq_true_eq, KeyMap.Sorted, List.pairwise_map] at hmembers
  exact hmembers.1.imp fun hlt => Utf8.encode_lt (String.lt_iff.1 hlt)

/-! ## White space -/

/-- A text without its strings, of which the opening quotes are kept. -/
def outside : (inside : Bool) → List Char → List Char
  | _, [] => []
  | false, c :: rest => c :: outside (c == '"') rest
  | true, '\\' :: _ :: rest => outside true rest
  | true, c :: rest => outside (c != '"') rest

/-- Whether a text holds no white space but in strings. -/
def Unspaced (text : List Char) : Prop :=
  ∀ c ∈ outside false text, isBlank c = false

theorem outside_inner {c : Char} (hquote : c ≠ '"') (hbackslash : c ≠ '\\') (rest : List Char) :
    outside true (c :: rest) = outside true rest := by
  have houtside : outside true (c :: rest) = outside (c != '"') rest := by
    simp [outside, hbackslash]
  rw [houtside, bne_iff_ne.2 hquote]

theorem outside_hexUnit {digits : List Char} {n : Nat} (h : HexUnit digits n) (rest : List Char) :
    outside true ('\\' :: 'u' :: digits ++ rest) = outside true rest := by
  have hdigit : ∀ {d : Char} {n : Nat}, Hex.value? d = some n → d ≠ '"' ∧ d ≠ '\\' := by
    intro d n h
    constructor
    · rintro rfl
      cases h
    · rintro rfl
      cases h
  obtain ⟨ha, hb, hc, hd⟩ := h
  have ha := hdigit ha
  have hb := hdigit hb
  have hc := hdigit hc
  have hd := hdigit hd
  simp only [List.cons_append, List.nil_append, outside]
  rw [outside_inner ha.1 ha.2, outside_inner hb.1 hb.2, outside_inner hc.1 hc.2, outside_inner hd.1 hd.2]

/-- The text of a character does not end its string. -/
theorem outside_spelledChar {c : Char} {text : List Char} (h : SpelledChar c text) (rest : List Char) :
    outside true (text ++ rest) = outside true rest := by
  cases h with
  | plain hquote hbackslash => exact outside_inner hquote hbackslash rest
  | short => rfl
  | unit h => exact outside_hexUnit h rest
  | pair _ _ _ h h' => rw [List.append_assoc, outside_hexUnit h, outside_hexUnit h']

theorem outside_quoted (s : String) (rest : List Char) :
    outside false (quoted s ++ rest) = '"' :: outside false rest := by
  have hchars : ∀ chars : List Char,
      outside true (chars.flatMap escape ++ '"' :: rest) = outside false rest := by
    intro chars
    induction chars with
    | nil => rfl
    | cons c chars ih =>
      rw [List.flatMap_cons, List.append_assoc, outside_spelledChar (spelledChar_escape c), ih]
  have htext : quoted s ++ rest = '"' :: (s.toList.flatMap escape ++ '"' :: rest) := by
    simp [quoted]
  rw [htext, outside]
  exact congrArg ('"' :: ·) (hchars s.toList)

theorem unspaced_cons {c : Char} {rest : List Char} (hc : isBlank c = false) (hquote : c ≠ '"')
    (h : Unspaced rest) : Unspaced (c :: rest) := by
  have houtside : outside false (c :: rest) = c :: outside false rest := by
    rw [outside, beq_false_of_ne hquote]
  rw [Unspaced, houtside]
  exact List.forall_mem_cons.2 ⟨hc, h⟩

theorem unspaced_quoted (s : String) {rest : List Char} (h : Unspaced rest) :
    Unspaced (quoted s ++ rest) := by
  rw [Unspaced, outside_quoted]
  exact List.forall_mem_cons.2 ⟨by decide, h⟩

theorem unspaced_append (text : List Char) {rest : List Char} (htext : ∀ c ∈ text, isBlank c = false ∧ c ≠ '"')
    (h : Unspaced rest) : Unspaced (text ++ rest) := by
  induction text with
  | nil => exact h
  | cons c text ih =>
    obtain ⟨hc, htext⟩ := List.forall_mem_cons.1 htext
    exact unspaced_cons hc.1 hc.2 (ih htext)

theorem unspaced_word (text : List Char) (htext : text.all (fun c => !isBlank c && c != '"') = true)
    {rest : List Char} (h : Unspaced rest) : Unspaced (text ++ rest) := by
  refine unspaced_append text (fun c hc => ?_) h
  simpa using List.all_eq_true.1 htext c hc

theorem unspaced_digitsOf (n : Nat) {rest : List Char} (h : Unspaced rest) :
    Unspaced (digitsOf n ++ rest) := by
  refine unspaced_append _ (fun c hc => ?_) h
  have hdigit := isDigit_of_mem_digitsOf hc
  -- No range of blanks reaches into the code points of digits.
  constructor
  · simp only [Char.isDigit, Bool.and_eq_true, decide_eq_true_eq, ge_iff_le, UInt32.le_iff_toNat_le] at hdigit
    have hleast : 48 ≤ c.toNat := hdigit.1
    have hgreatest : c.toNat ≤ 57 := hdigit.2
    simp [isBlank, blankRanges]
    omega
  · rintro rfl
    cases hdigit

mutual

/-- The compact text of a value has no white space outside strings. -/
theorem unspaced_compactChars {v : Json} (hv : v.isIntegral = true) {rest : List Char}
    (h : Unspaced rest) : Unspaced (compactChars v ++ rest) := by
  cases v with
  | null => exact unspaced_word "null".toList rfl h
  | bool b =>
    cases b with
    | true => exact unspaced_word "true".toList rfl h
    | false => exact unspaced_word "false".toList rfl h
  | int n =>
    cases n with
    | ofNat n => exact unspaced_digitsOf n h
    | negSucc n => exact unspaced_cons (by decide) (by decide) (unspaced_digitsOf (n + 1) h)
  | float x => cases hv
  | str s => exact unspaced_quoted s h
  | arr items =>
    simp only [compactChars, List.cons_append, List.append_assoc]
    exact unspaced_cons (by decide) (by decide)
      (unspaced_compactItems hv (unspaced_cons (by decide) (by decide) h))
  | obj members =>
    simp only [compactChars, List.cons_append, List.append_assoc]
    exact unspaced_cons (by decide) (by decide)
      (unspaced_compactMembers hv (unspaced_cons (by decide) (by decide) h))
  | void => cases hv

theorem unspaced_compactItems {items : List Json} (hv : isIntegralAll items = true) {rest : List Char}
    (h : Unspaced rest) : Unspaced (compactItems items ++ rest) := by
  match items with
  | [] => exact h
  | [v] => exact unspaced_compactChars (isIntegralAll_cons.1 hv).1 h
  | v :: w :: more =>
    obtain ⟨hv, hmore⟩ := isIntegralAll_cons.1 hv
    rw [compactItems, List.append_assoc]
    exact unspaced_compactChars hv
      (unspaced_cons (by decide) (by decide) (unspaced_compactItems hmore h))

theorem unspaced_compactMembers {members : List (String × Json)}
    (hv : isIntegralMembers members = true) {rest : List Char} (h : Unspaced rest) :
    Unspaced (compactMembers members ++ rest) := by
  match members with
  | [] => exact h
  | [(k, v)] =>
    rw [compactMembers, List.append_assoc]
    exact unspaced_quoted k (unspaced_cons (by decide) (by decide)
      (unspaced_compactChars (isIntegralMembers_cons.1 hv).1 h))
  | (k, v) :: m :: more =>
    obtain ⟨hv, hmore⟩ := isIntegralMembers_cons.1 hv
    simp only [compactMembers, List.cons_append, List.append_assoc]
    exact unspaced_quoted k (unspaced_cons (by decide) (by decide) (unspaced_compactChars hv
      (unspaced_cons (by decide) (by decide) (unspaced_compactMembers hmore h))))

end

/-! ## Likeness -/

/-- Whether two values say the same: they have the same items, and each key reads the same, in whatever order the
members stand. -/
inductive Alike : Json → Json → Prop where
  | refl (v : Json) : Alike v v
  | arr {items items' : List Json} (hlength : items.length = items'.length)
      (h : ∀ (i : Nat) v w, items[i]? = some v → items'[i]? = some w → Alike v w) :
      Alike (.arr items) (.arr items')
  | obj {members members' : List (String × Json)}
      (hkeys : ∀ key, (get? (.obj members) key).isSome = (get? (.obj members') key).isSome)
      (h : ∀ key v w, get? (.obj members) key = some v → get? (.obj members') key = some w → Alike v w) :
      Alike (.obj members) (.obj members')

theorem get?_obj (members : List (String × Json)) (key : String) :
    get? (.obj members) key = KeyMap.get? members.reverse key := by
  rw [get?]
  generalize members.reverse = members
  induction members with
  | nil => rfl
  | cons m rest ih =>
    obtain ⟨k, v⟩ := m
    by_cases hk : key = k
    · subst hk
      rw [KeyMap.get?_cons_self, List.find?_cons_of_pos (by simp)]
      rfl
    · rw [KeyMap.get?_cons_of_ne hk, List.find?_cons_of_neg (by simpa using Ne.symm hk), ih]

/-- Objects whose members are the same in another order are alike. -/
theorem alike_of_perm {members members' : List (String × Json)} (hnodup : (members.map (·.1)).Nodup)
    (h : members.Perm members') : Alike (.obj members) (.obj members') := by
  have hread : ∀ key, get? (.obj members) key = get? (.obj members') key := by
    intro key
    rw [get?_obj, get?_obj]
    refine KeyMap.get?_perm ?_ ?_ key
    · exact (List.reverse_perm _).trans (h.trans (List.reverse_perm _).symm)
    · rw [List.map_reverse]
      exact (List.reverse_perm _).nodup_iff.2 hnodup
  refine .obj (fun key => by rw [hread]) ?_
  intro key v w hv hw
  rw [hread, hw] at hv
  cases hv
  exact .refl v

theorem normalizeAll_eq_map (items : List Json) : normalizeAll items = items.map normalize := by
  induction items with
  | nil => rfl
  | cons v rest ih => rw [normalizeAll, List.map_cons, ih]

theorem normalizeMembers_reverse (members : List (String × Json)) :
    (normalizeMembers members).reverse = normalizeMembers members.reverse := by
  have hmap : ∀ members, normalizeMembers members = members.map fun m => (m.1, m.2.normalize) := by
    intro members
    induction members with
    | nil => rfl
    | cons m rest ih => rw [normalizeMembers, List.map_cons, ih]
  rw [hmap, hmap, List.map_reverse]

/-- What a key of an object reads in its normal form. -/
theorem get?_normalize (members : List (String × Json)) (key : String) :
    KeyMap.get? (sortMembers (normalizeMembers members)) key = (get? (.obj members) key).map normalize := by
  rw [sortMembers, KeyMap.get?_ofList_eq_reverse, normalizeMembers_reverse, get?_normalizeMembers, get?_obj]

/-- Values that are alike have one normal form. -/
theorem normalize_eq_of_alike {v w : Json} (h : Alike v w) : v.normalize = w.normalize := by
  induction h with
  | refl v => rfl
  | @arr items items' hlength _ ih =>
    rw [normalize, normalize, normalizeAll_eq_map, normalizeAll_eq_map]
    refine congrArg Json.arr (List.ext_getElem (by rw [List.length_map, List.length_map, hlength]) ?_)
    intro i hi hi'
    rw [List.length_map] at hi hi'
    rw [List.getElem_map, List.getElem_map]
    exact ih i _ _ (List.getElem?_eq_getElem hi) (List.getElem?_eq_getElem hi')
  | @obj members members' hkeys _ ih =>
    rw [normalize, normalize]
    -- The keys of both rise, so they are the same as soon as every key reads the same.
    refine congrArg Json.obj (KeyMap.eq_of_get?_eq (KeyMap.sorted_ofList _) (KeyMap.sorted_ofList _) fun key => ?_)
    rw [get?_normalize, get?_normalize]
    have hkey := hkeys key
    cases hv : get? (.obj members) key with
    | none =>
      rw [hv] at hkey
      rw [Option.isSome_none, Eq.comm, Option.isSome_eq_false_iff, Option.isNone_iff_eq_none] at hkey
      rw [hkey]
    | some v =>
      rw [hv] at hkey
      obtain ⟨w, hw⟩ := Option.isSome_iff_exists.1 hkey.symm
      rw [hw, Option.map_some, Option.map_some, ih key v w hv hw]

/-! ## Canonical text -/

/-- A value without doubles: its integers have 64 bits, the keys of each object rise, and its arrays and objects are not
nested deeper than can be read. -/
structure Plain (v : Json) : Prop where
  ordered : v.isOrdered = true
  integral : v.isIntegral = true
  fits : v.fits = true
  shallow : v.depth ≤ depthLimit

theorem Plain.parse_canonical {v : Json} (h : Plain v) : parse v.canonical = some v := by
  rw [Json.parse_canonical h.integral h.fits h.shallow, normalize_of_isOrdered h.ordered]

theorem Plain.canonical_eq_compact {v : Json} (h : Plain v) : v.canonical = v.compact := by
  rw [canonical, normalize_of_isOrdered h.ordered]

/-- In canonical text, the members of a value are read in their order. -/
theorem Plain.readTree_canonical {v : Json} (h : Plain v) : readTree v.canonical = some v := by
  rw [h.canonical_eq_compact]
  exact readTree_of_denotes (denotes_compact h.integral h.fits) h.shallow

theorem Plain.unspaced_canonical {v : Json} (h : Plain v) : Unspaced v.canonical.toList := by
  have hnil : Unspaced [] := fun _ hc => nomatch hc
  have hunspaced := unspaced_compactChars h.integral hnil
  rw [List.append_nil] at hunspaced
  rwa [h.canonical_eq_compact, compact, String.toList_ofList]

/-- Texts that denote values that say the same are read as one value. -/
theorem parse_eq_of_alike {v w : Json} {t u : String} (ht : Denotes v t) (hu : Denotes w u)
    (hv : v.depth ≤ depthLimit) (hw : w.depth ≤ depthLimit) (h : Alike v w) :
    parse t = some v.normalize ∧ parse u = some v.normalize := by
  refine ⟨parse_of_denotes ht hv, ?_⟩
  rw [normalize_eq_of_alike h]
  exact parse_of_denotes hu hw

theorem canonical_normalize (v : Json) : v.normalize.canonical = v.canonical := by
  rw [canonical, canonical, normalize_of_isOrdered (isOrdered_normalize v)]

/-- Canonical text stands for its value. A plain value is read back from it, so that it tells plain values apart and is
written again for what is read; the members of every object in it are in the order of the bytes of their keys, and it
has no white space outside strings. And any two texts that denote values saying the same have one canonical text,
whatever the order of their members, their white space and their escapes are. -/
theorem canonical_faithful :
    (∀ v : Json, Plain v →
      parse v.canonical = some v ∧
      (parse v.canonical).map canonical = some v.canonical ∧
      readTree v.canonical = some v ∧
      (∀ members, Part (.obj members) v →
        members.Pairwise fun m n => Utf8.encode m.1.toList < Utf8.encode n.1.toList) ∧
      Unspaced v.canonical.toList) ∧
    (∀ v w : Json, Plain v → Plain w → v.canonical = w.canonical → v = w) ∧
    ∀ (v w : Json) (t u : String), Denotes v t → Denotes w u → v.depth ≤ depthLimit →
      w.depth ≤ depthLimit → Alike v w →
      (parse t).map canonical = some v.canonical ∧ (parse u).map canonical = some v.canonical := by
  refine ⟨fun v hv => ⟨hv.parse_canonical, ?_, hv.readTree_canonical,
    fun members h => pairwise_of_isOrdered hv.ordered h, hv.unspaced_canonical⟩, ?_, ?_⟩
  · rw [hv.parse_canonical, Option.map_some]
  · -- Both are what is read from their text.
    intro v w hv hw h
    have hread := hv.parse_canonical
    rw [h, hw.parse_canonical] at hread
    exact (Option.some.inj hread).symm
  · intro v w t u ht hu hv hw h
    obtain ⟨ht, hu⟩ := parse_eq_of_alike ht hu hv hw h
    rw [ht, hu, Option.map_some, canonical_normalize]
    exact ⟨rfl, rfl⟩

/-- White space may stand before any token, and at the end. -/
theorem Spells.space {tokens : List Token} {c : Char} {text : List Char} (hc : isSpace c = true)
    (h : Spells tokens text) : Spells tokens (c :: text) := by
  cases h with
  | nil hblank => exact .nil (List.forall_mem_cons.2 ⟨hc, hblank⟩)
  | @cons token tokens blank text rest hblank hlexeme hrest =>
    have hmore : Blank (c :: blank) := List.forall_mem_cons.2 ⟨hc, hblank⟩
    exact .cons hmore hlexeme hrest

/-- A value, and a text for it with its members in the other order, with white space and with escapes. -/
theorem canonical_faithful_escaped :
    Plain (.obj [("a", .int 1), ("b", .str "\n")]) ∧
    parse "\x7b\"a\":1,\"b\":\"\\n\"\x7d" = some (.obj [("a", .int 1), ("b", .str "\n")]) ∧
    (parse "\x7b \"b\":\"\\u000A\",\"\\u0061\" :1\x7d").map canonical =
      some "\x7b\"a\":1,\"b\":\"\\n\"\x7d" := by
  have hplain : Plain (.obj [("a", .int 1), ("b", .str "\n")]) :=
    ⟨by decide, by decide, by decide, by decide⟩
  have htext : canonical (.obj [("a", .int 1), ("b", .str "\n")]) = "\x7b\"a\":1,\"b\":\"\\n\"\x7d" := by
    decide
  have hwritten : Denotes (.obj [("a", .int 1), ("b", .str "\n")]) "\x7b\"a\":1,\"b\":\"\\n\"\x7d" := by
    rw [← htext, hplain.canonical_eq_compact]
    exact denotes_compact hplain.integral hplain.fits
  have hescaped : Denotes (.obj [("b", .str "\n"), ("a", .int 1)])
      "\x7b \"b\":\"\\u000A\",\"\\u0061\" :1\x7d" := by
    have hb : Lexeme (.str (some "b")) "\"b\"".toList :=
      .str (.cons (.plain (by decide) (by decide) (by decide)) .nil)
    have hfeed : HexUnit ['0', '0', '0', 'A'] '\n'.toNat :=
      .mk (i := 0) (j := 0) (k := 0) (l := 10) rfl rfl rfl rfl
    have hn : Lexeme (.str (some "\n")) "\"\\u000A\"".toList := .str (.cons (.unit hfeed) .nil)
    have hletter : HexUnit ['0', '0', '6', '1'] 'a'.toNat :=
      .mk (i := 0) (j := 0) (k := 6) (l := 1) rfl rfl rfl rfl
    have ha : Lexeme (.str (some "a")) "\"\\u0061\"".toList := .str (.cons (.unit hletter) .nil)
    have hone : Lexeme (.scalar (.int 1)) (intText 1) :=
      .number (ofChars?_intText (by decide) (by decide)) (by simp)
    exact .cons_char .openObj (.space rfl (.cons_lexeme hb (.cons_char .colon (.cons_lexeme hn
      (.cons_char .comma (.cons_lexeme ha (.space rfl (.cons_char .colon (.cons_lexeme hone
        (.cons_char .closeObj (.nil blank_nil)))))))))))
  have hsame := canonical_faithful.2.2 _ _ _ _ hwritten hescaped (by decide) (by decide)
    (alike_of_perm (by decide) (.swap _ _ _))
  rw [htext] at hsame
  refine ⟨hplain, ?_, hsame.2⟩
  rw [← htext]
  exact (canonical_faithful.1 _ hplain).1

end Playbook.Json
