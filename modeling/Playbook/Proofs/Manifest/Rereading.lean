import Playbook.Proofs.Json.Indented
import Playbook.Proofs.Json.Range
import Playbook.Proofs.Manifest.Tamper

/-!
# `Proofs.Manifest.Rereading` — a manifest is read back from its text

The text of a manifest is read as the manifest, with every string, every optional field and every free part as it was. What has to
be known for that of the free parts holds of all that is read from text: their members stand in order, their integers have 64 bits,
and a free part that may be left out is not `null`.

## Contents
- **Free parts.** `anyValue_of_isOrdered`; `fits_slots`, `fits_of_anyValue`: what is read for a field fits.
- **Legible manifests.** `Legible`; `legible_create`, `Legible.sealWith`.
- **Patched manifests.** `Occurs`, `Patched`: each field is one of a manifest that was read; `Patched.legible`.
- **Reading.** `ManifestFile.ofJson?_toJson`, `ofJson?_toJson`, `whole_toJson`; `parse_text`.
-/

namespace Playbook

open Digest (Scheme)
open Json (present Slot slotOf required optional withDefault asString asUInt64 listOf mapOf anyValue)

/-! ## Free parts -/

namespace Json

variable {v w : Json}

/-- A value in normal form without doubles is read as it is. -/
theorem anyValue_of_isOrdered (hordered : v.isOrdered = true) (hv : v.isIntegral = true) : anyValue v = some v := by
  have hread := anyValue_normalize hordered hv
  rwa [normalize_of_isOrdered hordered] at hread

theorem normalize_eq_null_iff : v.normalize = .null ↔ v = .null := by
  cases v <;> simp [normalize]

theorem fits_of_anyValue (h : anyValue v = some w) (hv : v.fits = true) : w.fits = true := by
  rw [anyValue] at h
  split at h
  · cases h
    exact fits_normalize hv
  · cases h

/-- What an array gives to the fields of a record are its items. -/
theorem mem_slotsOfItems {fields : List String} {items : List Json} {given : List Slot}
    (h : slotsOfItems fields items = some given) (hw : .given w ∈ given) : w ∈ items := by
  induction fields generalizing items given with
  | nil =>
    cases items with
    | nil =>
      cases h
      cases hw
    | cons v rest => cases h
  | cons field fields ih =>
    cases items with
    | nil =>
      obtain ⟨given, hgiven, rfl⟩ := Option.map_eq_some_iff.1 h
      rcases List.mem_cons.1 hw with hw | hw
      · cases hw
      · exact ih hgiven hw
    | cons v rest =>
      obtain ⟨given, hgiven, rfl⟩ := Option.map_eq_some_iff.1 h
      rcases List.mem_cons.1 hw with hw | hw
      · cases hw
        exact List.mem_cons_self
      · exact List.mem_cons_of_mem _ (ih hgiven hw)

/-- What an object gives to a field is the value of one of its members. -/
theorem mem_slotOfMembers {members : List (String × Json)} {field : String}
    (h : slotOfMembers members field = some (.given w)) : ∃ m ∈ members, m.2 = w := by
  unfold slotOfMembers at h
  split at h
  · cases h
  · rename_i m hfilter
    cases h
    exact ⟨m, (List.mem_filter.1 (hfilter ▸ List.mem_singleton_self m)).1, rfl⟩
  · cases h

theorem exists_of_mem_mapM {α β : Type} {f : α → Option β} {items : List α} {results : List β} {b : β}
    (h : items.mapM f = some results) (hb : b ∈ results) : ∃ a ∈ items, f a = some b := by
  induction items generalizing results with
  | nil =>
    cases h
    cases hb
  | cons a rest ih =>
    rw [List.mapM_cons] at h
    obtain ⟨first, hfirst, h⟩ := Option.bind_eq_some_iff.1 h
    obtain ⟨others, hothers, h⟩ := Option.bind_eq_some_iff.1 h
    cases h
    rcases List.mem_cons.1 hb with rfl | hb
    · exact ⟨a, List.mem_cons_self, hfirst⟩
    · obtain ⟨a', ha', hread⟩ := ih hothers hb
      exact ⟨a', List.mem_cons_of_mem _ ha', hread⟩

/-- What a value gives to the fields of a record fits if the value does. -/
theorem fits_slots {fields : List String} {given : List Slot} (h : slots fields v = some given) (hv : v.fits = true)
    (hw : .given w ∈ given) : w.fits = true := by
  unfold slots at h
  split at h
  · exact fitsAll_iff.1 hv w (mem_slotsOfItems h hw)
  · obtain ⟨field, _, hslot⟩ := exists_of_mem_mapM h hw
    obtain ⟨m, hm, rfl⟩ := mem_slotOfMembers hslot
    exact fitsMembers_iff.1 hv m hm
  · cases h

/-- What is read for a free part that may be left out fits, and is not `null`. -/
theorem fits_of_optional {slot : Slot} {a : Option Json} (h : optional anyValue slot = some a)
    (hslot : ∀ w, slot = .given w → w.fits = true) : ∀ v ∈ a, v.fits = true ∧ v ≠ .null := by
  unfold optional at h
  split at h
  · cases h
    nofun
  · rename_i v hnull
    obtain ⟨w, hread, rfl⟩ := Option.map_eq_some_iff.1 h
    intro v' hv'
    cases hv'
    refine ⟨fits_of_anyValue hread (hslot v rfl), fun heq => ?_⟩
    rw [anyValue] at hread
    split at hread
    · rw [heq, Option.some.injEq, normalize_eq_null_iff] at hread
      exact hnull hread
    · cases hread
  · cases h
    nofun

end Json

namespace Manifest

/-! ## Legible manifests -/

/-- What a manifest needs to be read back from its text. -/
structure Legible (m : Manifest) : Prop where
  ordered : m.Ordered
  integral : m.Integral
  limits : m.limits.fits = true
  tools : ∀ v ∈ m.tools, v.fits = true ∧ v ≠ .null
  mcpServers : ∀ v ∈ m.mcpServers, v.fits = true ∧ v ≠ .null

theorem legible_create (scheme : Scheme) (runId source : String) : (create scheme runId source).Legible where
  ordered := ⟨List.Pairwise.nil, rfl, nofun, nofun⟩
  integral := ⟨rfl, nofun, nofun⟩
  limits := rfl
  tools := nofun
  mcpServers := nofun

/-- Digest and signature make no difference. -/
theorem Legible.sealWith {m : Manifest} (h : m.Legible) (scheme : Scheme) (secret : String) :
    (m.sealWith scheme secret).Legible where
  ordered := ⟨h.ordered.env, h.ordered.limits, h.ordered.tools, h.ordered.mcpServers⟩
  integral := ⟨h.integral.limits, h.integral.tools, h.integral.mcpServers⟩
  limits := h.limits
  tools := h.tools
  mcpServers := h.mcpServers

/-! ## Patched manifests -/

/-- A field has a value in some manifest that was read. -/
def Occurs {α : Type} (field : Manifest → α) (a : α) : Prop :=
  ∃ text n, parse text = .ok n ∧ field n = a

/-- Each field of a manifest has a value that it has in some manifest that was read. The fields that are not named here hold nothing
but strings and sizes, all of which can be read. -/
structure Patched (m : Manifest) : Prop where
  env : Occurs Manifest.env m.env
  limits : Occurs Manifest.limits m.limits
  tools : Occurs Manifest.tools m.tools
  mcpServers : Occurs Manifest.mcpServers m.mcpServers

theorem patched_of_parse {text : String} {m : Manifest} (h : parse text = .ok m) : m.Patched :=
  ⟨⟨text, m, h, rfl⟩, ⟨text, m, h, rfl⟩, ⟨text, m, h, rfl⟩, ⟨text, m, h, rfl⟩⟩

/-- A patched manifest without doubles is legible. -/
theorem Patched.legible {m : Manifest} (h : m.Patched) (hintegral : m.Integral) : m.Legible := by
  obtain ⟨⟨_, nenv, henv, henvEq⟩, ⟨_, nlimits, hlimits, hlimitsEq⟩, ⟨_, ntools, htools, htoolsEq⟩,
    ⟨_, nservers, hservers, hserversEq⟩⟩ := h
  refine ⟨⟨?_, ?_, ?_, ?_⟩, hintegral, ?_, ?_, ?_⟩
  · exact henvEq ▸ (ordered_of_parse henv).env
  · exact hlimitsEq ▸ (ordered_of_parse hlimits).limits
  · exact htoolsEq ▸ (ordered_of_parse htools).tools
  · exact hserversEq ▸ (ordered_of_parse hservers).mcpServers
  · obtain ⟨v, given, _, slot, _, _, hread, hslots, ⟨_, hmem, _, _⟩, _, hlimits, _, _⟩ := slots_of_parse hlimits
    rw [← hlimitsEq]
    unfold withDefault at hlimits
    split at hlimits
    · exact Json.fits_of_anyValue hlimits (Json.fits_slots hslots (Json.fits_readTree hread) hmem)
    · rw [← Option.some.inj hlimits]
      rfl
  · obtain ⟨v, given, _, _, slot, _, hread, hslots, ⟨_, _, hmem, _⟩, _, _, htools, _⟩ := slots_of_parse htools
    rw [← htoolsEq]
    refine Json.fits_of_optional htools fun w hw => ?_
    exact Json.fits_slots hslots (Json.fits_readTree hread) (hw ▸ hmem)
  · obtain ⟨v, given, _, _, _, slot, hread, hslots, ⟨_, _, _, hmem⟩, _, _, _, hservers⟩ := slots_of_parse hservers
    rw [← hserversEq]
    refine Json.fits_of_optional hservers fun w hw => ?_
    exact Json.fits_slots hslots (Json.fits_readTree hread) (hw ▸ hmem)

end Manifest

/-! ## Reading -/

namespace ManifestFile

theorem whole_toJson (f : ManifestFile) : f.toJson.Whole := by
  refine Json.whole_obj.2 (List.forall_mem_append.2 ⟨List.forall_mem_append.2 ⟨?_, ?_⟩, ?_⟩)
  · simp
  · exact Json.forall_mem_present.2 fun n _ => ⟨rfl, Json.fits_nat n.toNat_lt_size⟩
  · exact Json.forall_mem_present.2 fun s _ => Json.whole_str s

/-- A file is read back from its object. -/
theorem ofJson?_toJson (f : ManifestFile) : ofJson? f.toJson = some f := by
  have hsize : optional asUInt64 (slotOf (f.size.map fun n => .nat n.toNat)) = some f.size :=
    Json.optional_written (fun n _ => Json.asUInt64_nat n) fun _ _ hnull => nomatch hnull
  rw [ofJson?, toJson, Json.slots_of_nodup f.keys_nodup]
  simp only [List.map_cons, List.map_nil, KeyMap.get?_append, Json.get?_present, KeyMap.get?, String.reduceEq,
    if_true, if_false, Option.none_or, Option.or_none, hsize, Json.optional_str]
  rfl

end ManifestFile

namespace Manifest

variable {m : Manifest}

theorem keys_nodup (m : Manifest) : ((m.secured ++ present "manifestHash" .str m.manifestHash ++
    present "manifestSig" .str m.manifestSig).map (·.1)).Nodup := by
  rw [secured, List.map_append, List.map_append, List.map_append, List.map_append, List.map_append]
  refine List.Nodup.sublist ((((((List.Sublist.refl _).append (Json.keys_present _ _ _)).append
    (Json.keys_present _ _ _)).append (Json.keys_present _ _ _)).append (Json.keys_present _ _ _)).append
    (Json.keys_present _ _ _)) ?_
  show fields.Nodup
  decide

theorem whole_toJson (h : m.Legible) : m.toJson.Whole := by
  have htext : ∀ (name : String) (text : Option String), ∀ member ∈ present name .str text, member.2.Whole :=
    fun name text => Json.forall_mem_present.2 fun s _ => Json.whole_str s
  have htools : ∀ member ∈ present "tools" id m.tools, member.2.Whole :=
    Json.forall_mem_present.2 fun v hv => ⟨h.integral.tools v hv, (h.tools v hv).1⟩
  have hservers : ∀ member ∈ present "mcpServers" id m.mcpServers, member.2.Whole :=
    Json.forall_mem_present.2 fun v hv => ⟨h.integral.mcpServers v hv, (h.mcpServers v hv).1⟩
  have hlimits : m.limits.Whole := ⟨h.integral.limits, h.limits⟩
  have hstrings : ∀ texts : List String, (Json.arr (texts.map .str)).Whole :=
    fun texts => Json.whole_arr.2 (List.forall_mem_map.2 fun s _ => Json.whole_str s)
  have hfiles : (Json.arr (m.files.map (·.toJson))).Whole :=
    Json.whole_arr.2 (List.forall_mem_map.2 fun f _ => f.whole_toJson)
  have henv : (Json.obj (m.env.map fun e => (e.1, .str e.2))).Whole :=
    Json.whole_obj.2 (List.forall_mem_map.2 fun e _ => Json.whole_str e.2)
  refine Json.whole_obj.2 ?_
  simp only [secured, List.forall_mem_append, List.forall_mem_cons, Json.whole_str, hstrings, hfiles, henv, hlimits,
    true_and]
  exact ⟨⟨⟨⟨⟨List.forall_mem_nil _, htools⟩, hservers⟩, htext _ _⟩, htext _ _⟩, htext _ _⟩

/-- A legible manifest is read back from its object. -/
theorem ofJson?_toJson (h : m.Legible) : ofJson? m.toJson = some m := by
  have hlimits := Json.anyValue_of_isOrdered h.ordered.limits h.integral.limits
  have htools : optional anyValue (slotOf (m.tools.map id)) = some m.tools :=
    Json.optional_written (fun v hv => Json.anyValue_of_isOrdered (h.ordered.tools v hv) (h.integral.tools v hv))
      fun v hv => (h.tools v hv).2
  have hservers : optional anyValue (slotOf (m.mcpServers.map id)) = some m.mcpServers :=
    Json.optional_written
      (fun v hv => Json.anyValue_of_isOrdered (h.ordered.mcpServers v hv) (h.integral.mcpServers v hv))
      fun v hv => (h.mcpServers v hv).2
  have hfiles : listOf ManifestFile.ofJson? (.arr (m.files.map (·.toJson))) = some m.files :=
    Json.listOf_written fun f _ => f.ofJson?_toJson
  have henv : mapOf asString (.obj (m.env.map fun e => (e.1, .str e.2))) = some m.env :=
    Json.mapOf_written h.ordered.env fun _ _ => rfl
  have hslots := Json.slots_of_nodup m.keys_nodup fields
  simp only [fields, secured, List.map_cons, List.map_nil, KeyMap.get?_append, Json.get?_present, KeyMap.get?,
    String.reduceEq, if_true, if_false, Option.none_or, Option.or_none] at hslots
  rw [ofJson?, toJson, secured, fields, hslots]
  simp only [Json.required_written, Json.withDefault_written, Json.listOf_str, Json.optional_str, hlimits, htools,
    hservers, hfiles, henv]
  rfl

/-- A manifest is read back from its text, also with white space behind it. -/
theorem parse_text (h : m.Legible) (hdepth : m.toJson.depth ≤ Json.depthLimit) {after : List Char}
    (hafter : Json.Blank after) : parse (m.text ++ String.ofList after) = .ok m := by
  rw [parse, text, Json.readTree_indented (whole_toJson h) hdepth hafter, Option.bind_some, ofJson?_toJson h]

/-- A manifest of a program and nothing else is not deep, sealed or not. -/
theorem depth_create (scheme : Scheme) (runId source : String) : (create scheme runId source).toJson.depth = 2 := rfl

theorem depth_sealWith_create (scheme : Scheme) (runId source secret : String) :
    ((create scheme runId source).sealWith scheme secret).toJson.depth = 2 := rfl

/-- A manifest that was made for a program is patched: it can be read itself. -/
theorem patched_create (scheme : Scheme) (runId source : String) : (create scheme runId source).Patched := by
  have hdepth : (create scheme runId source).toJson.depth ≤ Json.depthLimit := by
    rw [depth_create]
    decide
  exact patched_of_parse (parse_text (legible_create scheme runId source) hdepth Json.blank_nil)

end Manifest

end Playbook
