import Playbook.Json.Decode
import Playbook.Proofs.Json.Printed

/-!
# `Proofs.Json.Members` — objects with named members, and what is read back from them

A record is written as an object with a member for each of its fields that is there. As it was written and once sorted, it gives
every field of the record just what was written for it, and nothing to the fields that were left out.

## Contents
- **Members.** What objects with optional members read under a key, and which properties they take from their values.
- **Slots.** `slotOf`; `slots_of_nodup`: what an object gives to the fields of a record, and `slots_normalize`: what its normal form
  gives to them; `slots_cutOff`: what is left of that below some level; `fits_of_slot`.
- **Tags.** `tagged_of_nodup`, `tagged_normalize`: the tag of a tagged object, and what is left without it; `fits_of_tagged`.
- **Fields.** What the readers of fields make of such slots.
-/

namespace Playbook.Json

variable {α : Type}

/-! ## Members -/

theorem get?_present (name : String) (f : α → Json) (a : Option α) (key : String) :
    KeyMap.get? (present name f a) key = if key = name then a.map f else none := by
  cases a with
  | none => simp [present, KeyMap.get?]
  | some a => simp [present, KeyMap.get?]

theorem keys_present (name : String) (f : α → Json) (a : Option α) :
    ((present name f a).map (·.1)).Sublist [name] := by
  cases a with
  | none => exact List.nil_sublist _
  | some a => exact List.Sublist.refl _

/-- What is said of a member that may be left out is said of its value. -/
theorem forall_mem_present {P : Json → Prop} {name : String} {f : α → Json} {a : Option α} :
    (∀ m ∈ present name f a, P m.2) ↔ ∀ x ∈ a, P (f x) := by
  cases a with
  | none => simp [present]
  | some x => simp [present]

theorem normalizeAll_map (f : α → Json) (items : List α) :
    normalizeAll (items.map f) = items.map fun a => (f a).normalize := by
  induction items with
  | nil => rfl
  | cons a rest ih => rw [List.map_cons, normalizeAll, ih, List.map_cons]

theorem isIntegralMembers_append {ms ns : List (String × Json)} :
    isIntegralMembers (ms ++ ns) = true ↔
      isIntegralMembers ms = true ∧ isIntegralMembers ns = true := by
  simp only [isIntegralMembers_iff, List.forall_mem_append]

theorem isIntegralMembers_present {name : String} {f : α → Json} {a : Option α}
    (h : ∀ x ∈ a, (f x).isIntegral = true) : isIntegralMembers (present name f a) = true := by
  cases a with
  | none => rfl
  | some x => exact isIntegralMembers_cons.2 ⟨h x rfl, rfl⟩

theorem isIntegralAll_map {f : α → Json} (h : ∀ a, (f a).isIntegral = true) (items : List α) :
    isIntegralAll (items.map f) = true := by
  refine isIntegralAll_iff.2 fun v hv => ?_
  obtain ⟨a, _, rfl⟩ := List.mem_map.1 hv
  exact h a

theorem fitsMembers_append {ms ns : List (String × Json)} :
    fitsMembers (ms ++ ns) = true ↔ fitsMembers ms = true ∧ fitsMembers ns = true := by
  simp only [fitsMembers_iff, List.forall_mem_append]

theorem fitsMembers_present {name : String} {f : α → Json} {a : Option α}
    (h : ∀ x ∈ a, (f x).fits = true) : fitsMembers (present name f a) = true := by
  cases a with
  | none => rfl
  | some x => exact fitsMembers_cons.2 ⟨h x rfl, rfl⟩

theorem isOrderedMembers_append {ms ns : List (String × Json)} :
    isOrderedMembers (ms ++ ns) = true ↔ isOrderedMembers ms = true ∧ isOrderedMembers ns = true := by
  simp only [isOrderedMembers_iff, List.forall_mem_append]

theorem isOrderedMembers_present {name : String} {f : α → Json} {a : Option α}
    (h : ∀ x ∈ a, (f x).isOrdered = true) : isOrderedMembers (present name f a) = true :=
  isOrderedMembers_iff.2 (forall_mem_present (P := fun v => v.isOrdered = true) |>.2 h)

theorem depthMembers_append {ms ns : List (String × Json)} {n : Nat} :
    depthMembers (ms ++ ns) ≤ n ↔ depthMembers ms ≤ n ∧ depthMembers ns ≤ n := by
  simp only [depthMembers_le_iff, List.forall_mem_append]

theorem depthMembers_present {name : String} {f : α → Json} {a : Option α} {n : Nat} (h : ∀ x ∈ a, (f x).depth ≤ n) :
    depthMembers (present name f a) ≤ n :=
  depthMembers_le_iff.2 (forall_mem_present (P := fun v => v.depth ≤ n) |>.2 h)

/-- An unsigned number of 64 bits fits. -/
theorem fits_nat {n : Nat} (h : n < UInt64.size) : (Json.nat n).fits = true := by
  have hmin : Int64.minValue.toInt ≤ 0 := by decide
  rw [nat, fits, Bool.and_eq_true, decide_eq_true_eq, decide_eq_true_eq]
  omega

/-! ## Slots -/

/-- What a field is given by an object that reads this under its name. -/
def slotOf : Option Json → Slot
  | none => .absent
  | some v => .given v

theorem filter_eq_of_nodup {members : List (String × Json)} (h : (members.map (·.1)).Nodup)
    (field : String) :
    members.filter (·.1 == field) = (KeyMap.get? members field).toList.map fun v => (field, v) := by
  induction members with
  | nil => rfl
  | cons m rest ih =>
    obtain ⟨k, v⟩ := m
    rw [List.map_cons, List.nodup_cons] at h
    by_cases hk : field = k
    · subst hk
      rw [List.filter_cons_of_pos (by simp), ih h.2, KeyMap.get?_eq_none h.1, KeyMap.get?_cons_self]
      rfl
    · rw [List.filter_cons_of_neg (by simpa using Ne.symm hk), ih h.2, KeyMap.get?_cons_of_ne hk]

/-- An object with different keys gives a field what it reads under the field's name. -/
theorem slotOfMembers_of_nodup {members : List (String × Json)} (h : (members.map (·.1)).Nodup)
    (field : String) : slotOfMembers members field = some (slotOf (KeyMap.get? members field)) := by
  rw [slotOfMembers, filter_eq_of_nodup h]
  cases KeyMap.get? members field <;> rfl

/-- The keys of a sorted object are different. -/
theorem nodup_of_sorted {members : KeyMap Json} (h : members.Sorted) : (members.map (·.1)).Nodup := by
  refine List.Pairwise.imp ?_ h
  rintro key _ hlt rfl
  exact String.lt_irrefl key hlt

theorem nodup_sortMembers (members : List (String × Json)) :
    ((sortMembers members).map (·.1)).Nodup :=
  nodup_of_sorted (KeyMap.sorted_ofList members)

/-- What the normal form of an object reads under a key. -/
theorem get?_sortMembers {members : List (String × Json)} (h : (members.map (·.1)).Nodup) (key : String) :
    KeyMap.get? (sortMembers (normalizeMembers members)) key = (KeyMap.get? members key).map normalize := by
  rw [sortMembers, KeyMap.get?_ofList key (by rw [map_fst_normalizeMembers]; exact h),
    get?_normalizeMembers]

theorem mapM_eq_some_map {β : Type} {f : α → Option β} {g : α → β} {items : List α}
    (h : ∀ a ∈ items, f a = some (g a)) : items.mapM f = some (items.map g) := by
  induction items with
  | nil => rfl
  | cons a rest ih =>
    obtain ⟨ha, hrest⟩ := List.forall_mem_cons.1 h
    rw [List.mapM_cons, ha, ih hrest]
    rfl

theorem mapM_eq_none {β : Type} {f : α → Option β} {items : List α} {a : α} (ha : a ∈ items) (h : f a = none) :
    items.mapM f = none := by
  induction items with
  | nil => cases ha
  | cons first rest ih =>
    rw [List.mapM_cons]
    rcases List.mem_cons.1 ha with rfl | hrest
    · rw [h]
      rfl
    · rw [ih hrest]
      cases f first <;> rfl

/-- What an object with different keys gives to the fields of a record. -/
theorem slots_of_nodup {members : List (String × Json)} (h : (members.map (·.1)).Nodup) (fields : List String) :
    slots fields (.obj members) = some (fields.map fun field => slotOf (KeyMap.get? members field)) :=
  mapM_eq_some_map fun field _ => slotOfMembers_of_nodup h field

/-- What the normal form of an object gives to the fields of a record. -/
theorem slots_normalize {members : List (String × Json)} (h : (members.map (·.1)).Nodup)
    (fields : List String) :
    slots fields (Json.obj members).normalize =
      some (fields.map fun field => slotOf ((KeyMap.get? members field).map normalize)) := by
  rw [normalize, slots_of_nodup (nodup_sortMembers _)]
  simp only [get?_sortMembers h]

/-- What is left of the normal form of an object gives to the fields of a record what is left of what was written for them. -/
theorem slots_cutOff {members : List (String × Json)} (h : (members.map (·.1)).Nodup) (fields : List String)
    (levels : Nat) :
    slots fields ((Json.obj members).normalize.cutOff (levels + 1)) =
      some (fields.map fun field =>
        slotOf (((KeyMap.get? members field).map normalize).map (·.cutOff levels))) := by
  have hleft : (Json.obj members).normalize.cutOff (levels + 1) =
      .obj (cutOffMembers (sortMembers (normalizeMembers members)) levels) := rfl
  have hkeys : ((cutOffMembers (sortMembers (normalizeMembers members)) levels).map (·.1)).Nodup := by
    rw [map_fst_cutOffMembers]
    exact nodup_sortMembers _
  rw [hleft, slots_of_nodup hkeys]
  simp only [get?_cutOffMembers, get?_sortMembers h]

/-- What an object or an array of one item gives to a field fits if they do. -/
theorem fits_of_slot {field : String} {v x : Json} (hv : v.fits = true) (h : slots [field] v = some [.given x]) :
    x.fits = true := by
  cases v with
  | arr items =>
    cases items with
    | nil => cases h
    | cons w rest =>
      cases rest with
      | nil =>
        cases h
        exact (fitsAll_cons.1 hv).1
      | cons w' rest => cases h
  | obj members =>
    have hslot : slotOfMembers members field = some (.given x) := by
      simpa [slots, List.mapM_cons, List.mapM_nil, Option.bind_eq_some_iff] using h
    unfold slotOfMembers at hslot
    split at hslot
    · cases hslot
    · rename_i m hfilter
      cases hslot
      have hm : m ∈ members := (List.mem_filter.1 (hfilter ▸ List.mem_cons_self)).1
      exact fitsMembers_iff.1 hv m hm
    · cases hslot
  | _ => cases h

/-! ## Tags -/

mutual

theorem readable_of_isIntegral {v : Json} (h : v.isIntegral = true) : v.readable = true := by
  cases v with
  | arr items => exact readableAll_of_isIntegral h
  | obj members => exact readableMembers_of_isIntegral h
  | void => cases h
  | _ => rfl

theorem readableAll_of_isIntegral {items : List Json} (h : isIntegralAll items = true) :
    readableAll items = true := by
  cases items with
  | nil => rfl
  | cons v rest =>
    obtain ⟨hv, hrest⟩ := isIntegralAll_cons.1 h
    rw [readableAll, readable_of_isIntegral hv, readableAll_of_isIntegral hrest]
    rfl

theorem readableMembers_of_isIntegral {members : List (String × Json)}
    (h : isIntegralMembers members = true) : readableMembers members = true := by
  cases members with
  | nil => rfl
  | cons m rest =>
    obtain ⟨k, v⟩ := m
    obtain ⟨hv, hrest⟩ := isIntegralMembers_cons.1 h
    rw [readableMembers, readable_of_isIntegral hv, readableMembers_of_isIntegral hrest]
    rfl

end

/-- A tagged object tells its kind, and what is left of it are its other members. -/
theorem tagged_of_nodup (kind : String) {tag : String} {members : List (String × Json)}
    (kinds : List String) (inside : Bool) (h : (tag :: members.map (·.1)).Nodup)
    (hv : readableMembers members = true) :
    tagged tag kinds inside (.obj ((tag, .str kind) :: members)) = some (kind, .obj members) := by
  have htag : ∀ m ∈ members, m.1 ≠ tag := by
    intro m hm heq
    exact (List.nodup_cons.1 h).1 (heq ▸ List.mem_map_of_mem hm)
  have hown : ((tag, Json.str kind) :: members).filter (·.1 == tag) = [(tag, .str kind)] := by
    rw [List.filter_cons_of_pos (by simp), List.filter_eq_nil_iff.2]
    exact fun m hm => by simpa using htag m hm
  have hothers : ((tag, Json.str kind) :: members).filter (·.1 != tag) = members := by
    rw [List.filter_cons_of_neg (by simp), List.filter_eq_self]
    exact fun m hm => by simpa using htag m hm
  have hreadable : (Json.obj ((tag, .str kind) :: members)).readable = true := hv
  rw [tagged, if_pos hreadable]
  simp only [hown, hothers]
  rfl

/-- The normal form of a tagged object tells its kind, and what is left of it gives the fields of the kind's record
what was written for them. -/
theorem tagged_normalize (kind : String) {tag : String} {members : List (String × Json)}
    (kinds : List String) (inside : Bool) (h : ((tag :: members.map (·.1))).Nodup) (hv : isIntegralMembers members = true) :
    ∃ v, tagged tag kinds inside (Json.obj ((tag, .str kind) :: members)).normalize = some (kind, v) ∧
      ∀ fields, tag ∉ fields →
        slots fields v = some (fields.map fun field => slotOf ((KeyMap.get? members field).map normalize)) := by
  have hintegral : (Json.obj ((tag, .str kind) :: members)).isIntegral = true :=
    isIntegralMembers_cons (k := tag) (v := .str kind) |>.2 ⟨rfl, hv⟩
  have hkeys : (((tag, Json.str kind) :: members).map (·.1)).Nodup := h
  have hread := get?_sortMembers hkeys
  have hnodup := nodup_sortMembers (normalizeMembers ((tag, .str kind) :: members))
  have hreadable := readable_of_isIntegral (isIntegral_normalize hintegral)
  have hnormal : (Json.obj ((tag, .str kind) :: members)).normalize =
      .obj (sortMembers (normalizeMembers ((tag, .str kind) :: members))) := rfl
  rw [hnormal] at hreadable ⊢
  generalize sortMembers (normalizeMembers ((tag, .str kind) :: members)) = sorted at hread hnodup hreadable
  -- One member has the tag for its key, and to drop it changes nothing for the fields.
  have htag : sorted.filter (·.1 == tag) = [(tag, .str kind)] := by
    rw [filter_eq_of_nodup hnodup, hread, KeyMap.get?_cons_self]
    rfl
  refine ⟨.obj (sorted.filter (·.1 != tag)), ?_, fun fields hfields => ?_⟩
  · rw [tagged, if_pos hreadable]
    simp only [htag]
    rfl
  · refine mapM_eq_some_map fun field hfield => ?_
    have hne : field ≠ tag := fun heq => hfields (heq ▸ hfield)
    have hfilter : (sorted.filter (·.1 != tag)).filter (·.1 == field) = sorted.filter (·.1 == field) := by
      rw [List.filter_filter]
      refine List.filter_congr fun m _ => ?_
      by_cases hm : m.1 = field
      · simp [hm, hne]
      · simp [hm]
    have hslot : slotOfMembers (sorted.filter (·.1 != tag)) field = slotOfMembers sorted field := by
      rw [slotOfMembers, slotOfMembers, hfilter]
    rw [hslot, slotOfMembers_of_nodup hnodup, hread, KeyMap.get?_cons_of_ne hne]

/-- What is left of a value without its tag fits if the value does. -/
theorem fits_of_tagged {tag kind : String} {kinds : List String} {inside : Bool} {v w : Json} (hv : v.fits = true)
    (h : tagged tag kinds inside v = some (kind, w)) : w.fits = true := by
  unfold tagged at h
  split at h
  · split at h
    · obtain ⟨_, _, heq⟩ := Option.map_eq_some_iff.1 h
      cases heq
      exact (fitsAll_cons.1 hv).2
    · split at h
      · obtain ⟨_, _, heq⟩ := Option.map_eq_some_iff.1 h
        cases heq
        exact fitsMembers_iff.2 fun m hm => fitsMembers_iff.1 hv m (List.mem_filter.1 hm).1
      · cases h
    · cases h
  · cases h

/-! ## Fields -/

/-- An optional field is read back, whether it was written or left out, if its value is not written as `null`. -/
theorem optional_written {f : Json → Option α} {g : α → Json} {a : Option α} (hf : ∀ x ∈ a, f (g x) = some x)
    (hg : ∀ x ∈ a, g x ≠ .null) : optional f (slotOf (a.map g)) = some a := by
  cases a with
  | none => rfl
  | some x =>
    have hnull := hg x rfl
    rw [Option.map_some, slotOf, optional]
    · rw [hf x rfl]
      rfl
    · exact hnull

theorem optional_str (text : Option String) : optional asString (slotOf (text.map .str)) = some text :=
  optional_written (fun _ _ => rfl) fun _ _ h => nomatch h

/-- An optional field is read back from its value in normal form, if that is not written as `null`. -/
theorem optional_present {f : Json → Option α} {g : α → Json} {a : Option α}
    (hf : ∀ x ∈ a, f (g x).normalize = some x) (hg : ∀ x ∈ a, (g x).normalize ≠ .null) :
    optional f (slotOf ((a.map g).map normalize)) = some a := by
  rw [Option.map_map]
  exact optional_written hf hg

theorem optional_asString (text : Option String) :
    optional asString (slotOf ((text.map .str).map normalize)) = some text :=
  optional_present (fun _ _ => rfl) fun _ _ h => nomatch h

theorem asNat_nat {bound n : Nat} (h : n < bound) : asNat bound (.nat n) = some n := by
  have hrange : (0 ≤ (n : Int) && (n : Int) < (bound : Int)) = true := by
    rw [Bool.and_eq_true, decide_eq_true_eq, decide_eq_true_eq]
    omega
  rw [nat, asNat, if_pos hrange]
  rfl

theorem asUInt64_nat (n : UInt64) : asUInt64 (.nat n.toNat) = some n := by
  rw [asUInt64, asNat_nat n.toNat_lt, Option.map_some, UInt64.ofNat_toNat]

theorem asUInt32_nat (n : UInt32) : asUInt32 (.nat n.toNat) = some n := by
  rw [asUInt32, asNat_nat n.toNat_lt, Option.map_some, UInt32.ofNat_toNat]

/-- A field that is given is read by its reader, whether it may be left out or not. -/
theorem required_written (f : Json → Option α) (v : Json) : required f (slotOf (some v)) = f v := rfl

theorem withDefault_written (default : α) (f : Json → Option α) (v : Json) :
    withDefault default f (slotOf (some v)) = f v := rfl

/-- A field that is given is read back from its value in normal form. -/
theorem required_read {f : Json → Option α} {v : Json} {a : α} (h : f v.normalize = some a) :
    required f (slotOf ((some v).map normalize)) = some a := h

theorem withDefault_read {f : Json → Option α} {v : Json} {a : α} (default : α) (h : f v.normalize = some a) :
    withDefault default f (slotOf ((some v).map normalize)) = some a := h

theorem required_str (text : String) :
    required asString (slotOf ((some (.str text)).map normalize)) = some text := rfl

theorem required_uint64 (n : UInt64) :
    required asUInt64 (slotOf ((some (.nat n.toNat)).map normalize)) = some n :=
  required_read (asUInt64_nat n)

theorem required_uint32 (n : UInt32) :
    required asUInt32 (slotOf ((some (.nat n.toNat)).map normalize)) = some n :=
  required_read (asUInt32_nat n)

theorem withDefault_uint64 (default n : UInt64) :
    withDefault default asUInt64 (slotOf ((some (.nat n.toNat)).map normalize)) = some n :=
  withDefault_read default (asUInt64_nat n)

/-- Items are read back from their array. -/
theorem listOf_written {f : Json → Option α} {g : α → Json} {items : List α} (h : ∀ a ∈ items, f (g a) = some a) :
    listOf f (.arr (items.map g)) = some items := by
  rw [listOf, List.mapM_map]
  have hread := mapM_eq_some_map (f := f ∘ g) (g := id) h
  rwa [List.map_id] at hread

theorem listOf_str (texts : List String) : listOf asString (.arr (texts.map .str)) = some texts :=
  listOf_written fun _ _ => rfl

/-- Items are read back from an array in normal form. -/
theorem listOf_normalize {f : Json → Option α} {g : α → Json} {items : List α}
    (h : ∀ a ∈ items, f (g a).normalize = some a) :
    listOf f (Json.arr (items.map g)).normalize = some items := by
  rw [show (Json.arr (items.map g)).normalize = .arr (normalizeAll (items.map g)) from rfl,
    normalizeAll_map]
  exact listOf_written h

/-- A map in order is read back from its object. -/
theorem mapOf_written {f : Json → Option α} {g : α → Json} {m : KeyMap α} (hm : m.Sorted)
    (h : ∀ e ∈ m, f (g e.2) = some e.2) : mapOf f (.obj (m.map fun e => (e.1, g e.2))) = some m := by
  have hread : (m.map fun e => (e.1, g e.2)).mapM (fun e => (f e.2).map (e.1, ·)) = some m := by
    rw [List.mapM_map]
    have hentries := mapM_eq_some_map (f := fun e : String × α => (f (g e.2)).map (e.1, ·)) (g := id)
      fun e (he : e ∈ m) => by rw [h e he]; rfl
    rwa [List.map_id] at hentries
  rw [mapOf, hread, Option.map_some, KeyMap.ofList_of_sorted hm]

/-- A value in normal form without doubles is read as it is. -/
theorem anyValue_normalize {v : Json} (hordered : v.isOrdered = true) (hv : v.isIntegral = true) :
    anyValue v.normalize = some v := by
  rw [normalize_of_isOrdered hordered, anyValue, if_pos (readable_of_isIntegral hv),
    normalize_of_isOrdered hordered]

end Playbook.Json
