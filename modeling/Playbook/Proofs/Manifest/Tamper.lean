import Playbook.Proofs.Json.Members
import Playbook.Proofs.Manifest.Verdict

/-!
# `Proofs.Manifest.Tamper` — a change to a sealed manifest shows

The digest of a manifest covers the canonical text of its secured fields, and that text tells every one of them. So whoever
changes a sealed manifest and leaves digest and signature as they are has to find two texts with one digest; and a secret that
is not the one of the seal has to give the same signature.

## Contents
- **Members.** `items_eq_of_normalize_eq`, `env_eq_of_normalize_eq`: lists and maps told by their normal forms.
- **Manifests.** `Ordered`, which holds of every manifest that is read (`slots_of_parse`, `ordered_of_parse`); `Integral`;
  `SameContent`.
- **What the digest covers.** `sealedText`, `sameContent_of_sealedText_eq`.
- **Seals.** `carries_sealWith`, and the verdicts on sealed manifests.
- **Statement.** `TamperEvident`, and `tamper_evident`.
-/

namespace Playbook

open Digest (Scheme)
open Json (present)

/-! ## Members -/

namespace Json

variable {α : Type}

/-- Items that are told by their normal forms are told by the normal form of their array. -/
theorem items_eq_of_normalize_eq {f : α → Json} {as bs : List α}
    (hf : ∀ a b, (f a).normalize = (f b).normalize → a = b)
    (h : (Json.arr (as.map f)).normalize = (Json.arr (bs.map f)).normalize) : as = bs := by
  rw [normalize, normalize, normalizeAll_map, normalizeAll_map] at h
  exact (List.map_inj_right hf).1 (Json.arr.inj h)

/-- Strings in order under their keys are told by the normal form of their object. -/
theorem env_eq_of_normalize_eq {ms ns : KeyMap String} (hm : ms.Sorted) (hn : ns.Sorted)
    (h : (Json.obj (ms.map fun e => (e.1, .str e.2))).normalize =
      (Json.obj (ns.map fun e => (e.1, .str e.2))).normalize) : ms = ns := by
  have hordered : ∀ es : KeyMap String, es.Sorted →
      (Json.obj (es.map fun e => (e.1, .str e.2))).isOrdered = true := by
    intro es hes
    rw [isOrdered, Bool.and_eq_true, decide_eq_true_eq]
    refine ⟨?_, isOrderedMembers_iff.2 fun m hmem => ?_⟩
    · rw [KeyMap.Sorted, List.map_map]
      exact hes
    · obtain ⟨e, _, rfl⟩ := List.mem_map.1 hmem
      rfl
  rw [normalize_of_isOrdered (hordered ms hm), normalize_of_isOrdered (hordered ns hn)] at h
  refine (List.map_inj_right fun e e' he => ?_).1 (Json.obj.inj h)
  simpa [Prod.ext_iff] using he

end Json

namespace ManifestFile

theorem keys_nodup (f : ManifestFile) :
    (([("path", .str f.path), ("sha256", .str f.sha256)] ++
      present "size" (fun n => .nat n.toNat) f.size ++
      present "contentRef" .str f.contentRef : List (String × Json)).map (·.1)).Nodup := by
  rw [List.map_append, List.map_append]
  refine List.Nodup.sublist (((List.Sublist.refl _).append (Json.keys_present _ _ _)).append
    (Json.keys_present _ _ _)) ?_
  show ["path", "sha256", "size", "contentRef"].Nodup
  decide

/-- Files with one normal form are the same. -/
theorem eq_of_normalize_eq {f g : ManifestFile} (h : f.toJson.normalize = g.toJson.normalize) :
    f = g := by
  have hget := Json.get?_eq_of_normalize_eq f.keys_nodup g.keys_nodup h
  simp only [KeyMap.get?_append, Json.get?_present, KeyMap.get?] at hget
  have hpath : f.path = g.path := by
    simpa [Json.normalize] using hget "path"
  have hsha256 : f.sha256 = g.sha256 := by
    simpa [Json.normalize] using hget "sha256"
  have hsize : f.size = g.size := by
    have hmap := hget "size"
    simp only [String.reduceEq, if_false, if_true, Option.none_or, Option.or_none,
      Option.map_map] at hmap
    refine (Option.map_inj_right fun a b hab => ?_).1 hmap
    exact UInt64.toNat_inj.1 (Int.ofNat_inj.1 (Json.int.inj hab))
  have hcontentRef : f.contentRef = g.contentRef := by
    have hmap := hget "contentRef"
    simp only [String.reduceEq, if_false, if_true, Option.none_or, Option.map_map] at hmap
    exact (Option.map_inj_right fun a b hab => Json.str.inj hab).1 hmap
  cases f
  cases g
  simp_all

theorem isIntegral_toJson (f : ManifestFile) : f.toJson.isIntegral = true := by
  refine Json.isIntegralMembers_append.2 ⟨Json.isIntegralMembers_append.2 ⟨rfl, ?_⟩, ?_⟩
  · exact Json.isIntegralMembers_present fun _ _ => rfl
  · exact Json.isIntegralMembers_present fun _ _ => rfl

end ManifestFile

namespace Manifest

/-! ## Manifests -/

/-- The maps in a manifest stand in order, those in its free parts too. -/
structure Ordered (m : Manifest) : Prop where
  env : KeyMap.Sorted m.env
  limits : m.limits.isOrdered = true
  tools : ∀ v ∈ m.tools, v.isOrdered = true
  mcpServers : ∀ v ∈ m.mcpServers, v.isOrdered = true

/-- All numbers in the free parts of a manifest are integers. -/
structure Integral (m : Manifest) : Prop where
  limits : m.limits.isIntegral = true
  tools : ∀ v ∈ m.tools, v.isIntegral = true
  mcpServers : ∀ v ∈ m.mcpServers, v.isIntegral = true

/-- Two manifests say the same, digest and signature aside. -/
structure SameContent (m n : Manifest) : Prop where
  runId : m.runId = n.runId
  programHash : m.programHash = n.programHash
  programText : m.programText = n.programText
  toolAllowlist : m.toolAllowlist = n.toolAllowlist
  capabilities : m.capabilities = n.capabilities
  files : m.files = n.files
  env : m.env = n.env
  limits : m.limits = n.limits
  tools : m.tools = n.tools
  mcpServers : m.mcpServers = n.mcpServers
  permissionMode : m.permissionMode = n.permissionMode

theorem isOrdered_of_anyValue {v w : Json} (h : Json.anyValue v = some w) : w.isOrdered = true := by
  rw [Json.anyValue] at h
  split at h
  · cases h
    exact Json.isOrdered_normalize v
  · cases h

theorem isOrdered_of_optional {slot : Json.Slot} {a : Option Json}
    (h : Json.optional Json.anyValue slot = some a) : ∀ v ∈ a, v.isOrdered = true := by
  unfold Json.optional at h
  split at h
  · cases h
    intro v hv
    cases hv
  · intro v hv
    obtain ⟨w, hw, rfl⟩ := Option.map_eq_some_iff.1 h
    cases hv
    exact isOrdered_of_anyValue hw
  · cases h
    intro v hv
    cases hv

theorem sorted_of_mapOf {α : Type} {f : Json → Option α} {v : Json} {m : KeyMap α}
    (h : Json.mapOf f v = some m) : m.Sorted := by
  unfold Json.mapOf at h
  split at h
  · obtain ⟨entries, _, rfl⟩ := Option.map_eq_some_iff.1 h
    exact KeyMap.sorted_ofList entries
  · cases h

/-- Where the maps and the free parts of a manifest that has been read come from: each was given in a slot of the text's value. -/
theorem slots_of_parse {text : String} {m : Manifest} (h : parse text = .ok m) :
    ∃ (v : Json) (given : List Json.Slot) (env limits tools mcpServers : Json.Slot),
      Json.readTree text = some v ∧ Json.slots fields v = some given ∧
      (env ∈ given ∧ limits ∈ given ∧ tools ∈ given ∧ mcpServers ∈ given) ∧
      Json.withDefault [] (Json.mapOf Json.asString) env = some m.env ∧
      Json.withDefault .null Json.anyValue limits = some m.limits ∧
      Json.optional Json.anyValue tools = some m.tools ∧
      Json.optional Json.anyValue mcpServers = some m.mcpServers := by
  unfold parse at h
  split at h
  · rename_i m' hread
    cases h
    obtain ⟨v, hv, hread⟩ := Option.bind_eq_some_iff.1 hread
    unfold ofJson? at hread
    split at hread
    · rename_i hslots
      -- Six fields that hold no maps come before the environment, and three come last.
      iterate 6 obtain ⟨_, -, hread⟩ := Option.bind_eq_some_iff.1 hread
      obtain ⟨env, henv, hread⟩ := Option.bind_eq_some_iff.1 hread
      obtain ⟨limits, hlimits, hread⟩ := Option.bind_eq_some_iff.1 hread
      obtain ⟨tools, htools, hread⟩ := Option.bind_eq_some_iff.1 hread
      obtain ⟨mcpServers, hmcpServers, hread⟩ := Option.bind_eq_some_iff.1 hread
      iterate 3 obtain ⟨_, -, hread⟩ := Option.bind_eq_some_iff.1 hread
      cases hread
      exact ⟨v, _, _, _, _, _, hv, hslots, by simp, henv, hlimits, htools, hmcpServers⟩
    · cases hread
  · cases h

/-- The maps in a manifest that has been read stand in order. -/
theorem ordered_of_parse {text : String} {m : Manifest} (h : parse text = .ok m) : m.Ordered := by
  obtain ⟨_, _, _, _, _, _, _, _, _, henv, hlimits, htools, hmcpServers⟩ := slots_of_parse h
  refine ⟨?_, ?_, isOrdered_of_optional htools, isOrdered_of_optional hmcpServers⟩
  · unfold Json.withDefault at henv
    split at henv
    · exact sorted_of_mapOf henv
    · rw [← Option.some.inj henv]
      exact List.Pairwise.nil
  · unfold Json.withDefault at hlimits
    split at hlimits
    · exact isOrdered_of_anyValue hlimits
    · rw [← Option.some.inj hlimits]
      rfl

/-! ## What the digest covers -/

/-- The text that the digest of a manifest is taken of. -/
def sealedText (m : Manifest) : String :=
  (Json.obj m.secured).canonical

theorem keys_secured_nodup (m : Manifest) : (m.secured.map (·.1)).Nodup := by
  rw [secured, List.map_append, List.map_append, List.map_append]
  refine List.Nodup.sublist ((((List.Sublist.refl _).append (Json.keys_present _ _ _)).append
    (Json.keys_present _ _ _)).append (Json.keys_present _ _ _)) ?_
  show ["runId", "programHash", "programText", "toolAllowlist", "capabilities", "files", "env",
   "limits", "tools", "mcpServers", "permissionMode"].Nodup
  decide

theorem Integral.secured {m : Manifest} (h : m.Integral) :
    (Json.obj m.secured).isIntegral = true := by
  have hstrings (strings : List String) : (Json.arr (strings.map .str)).isIntegral = true :=
    Json.isIntegralAll_map (fun _ => rfl) strings
  have hfiles : (Json.arr (m.files.map (·.toJson))).isIntegral = true :=
    Json.isIntegralAll_map ManifestFile.isIntegral_toJson m.files
  have henv : (Json.obj (m.env.map fun e => (e.1, .str e.2))).isIntegral = true := by
    refine Json.isIntegralMembers_iff.2 fun member hmember => ?_
    obtain ⟨e, _, rfl⟩ := List.mem_map.1 hmember
    rfl
  have hfixed : Json.isIntegralMembers
      [("runId", .str m.runId), ("programHash", .str m.programHash),
       ("programText", .str m.programText), ("toolAllowlist", .arr (m.toolAllowlist.map .str)),
       ("capabilities", .arr (m.capabilities.map .str)),
       ("files", .arr (m.files.map (·.toJson))),
       ("env", .obj (m.env.map fun e => (e.1, .str e.2))), ("limits", m.limits)] = true := by
    simp only [Json.isIntegralMembers_cons, hstrings, hfiles, henv, h.limits]
    exact ⟨rfl, rfl, rfl, trivial, trivial, trivial, trivial, trivial, rfl⟩
  refine Json.isIntegralMembers_append.2 ⟨Json.isIntegralMembers_append.2
    ⟨Json.isIntegralMembers_append.2 ⟨hfixed, ?_⟩, ?_⟩, ?_⟩
  · exact Json.isIntegralMembers_present h.tools
  · exact Json.isIntegralMembers_present h.mcpServers
  · exact Json.isIntegralMembers_present fun _ _ => rfl

theorem option_eq_of_map_normalize_eq {a b : Option Json} (ha : ∀ v ∈ a, v.isOrdered = true)
    (hb : ∀ v ∈ b, v.isOrdered = true) (h : a.map Json.normalize = b.map Json.normalize) :
    a = b := by
  have hsame : ∀ o : Option Json, (∀ v ∈ o, v.isOrdered = true) → o.map Json.normalize = o := by
    intro o ho
    cases o with
    | none => rfl
    | some v => exact congrArg some (Json.normalize_of_isOrdered (ho v rfl))
  rw [← hsame a ha, h, hsame b hb]

/-- The text that the digest is taken of tells every secured field. -/
theorem sameContent_of_sealedText_eq {m n : Manifest} (hm : m.Ordered) (hn : n.Ordered)
    (hmi : m.Integral) (hni : n.Integral) (h : m.sealedText = n.sealedText) :
    m.SameContent n := by
  have hnormal := Json.normalize_eq_of_canonical_eq hmi.secured hni.secured h
  have hget := Json.get?_eq_of_normalize_eq m.keys_secured_nodup n.keys_secured_nodup hnormal
  simp only [Manifest.secured, KeyMap.get?_append, Json.get?_present, KeyMap.get?] at hget
  have hstring (a b : String) (hab : (Json.str a).normalize = (Json.str b).normalize) : a = b :=
    Json.str.inj hab
  refine
    { runId := hstring _ _ (by simpa using hget "runId")
      programHash := hstring _ _ (by simpa using hget "programHash")
      programText := hstring _ _ (by simpa using hget "programText")
      toolAllowlist := Json.items_eq_of_normalize_eq hstring (by simpa using hget "toolAllowlist")
      capabilities := Json.items_eq_of_normalize_eq hstring (by simpa using hget "capabilities")
      files := Json.items_eq_of_normalize_eq (fun _ _ => ManifestFile.eq_of_normalize_eq)
        (by simpa using hget "files")
      env := Json.env_eq_of_normalize_eq hm.env hn.env (by simpa using hget "env")
      limits := ?_
      tools := option_eq_of_map_normalize_eq hm.tools hn.tools (by simpa using hget "tools")
      mcpServers :=
        option_eq_of_map_normalize_eq hm.mcpServers hn.mcpServers (by simpa using hget "mcpServers")
      permissionMode := ?_ }
  · have hlimits : m.limits.normalize = n.limits.normalize := by
      simpa using hget "limits"
    rw [Json.normalize_of_isOrdered hm.limits, Json.normalize_of_isOrdered hn.limits] at hlimits
    exact hlimits
  · have hmode := hget "permissionMode"
    simp only [String.reduceEq, if_false, if_true, Option.none_or, Option.map_map] at hmode
    exact (Option.map_inj_right hstring).1 hmode

/-! ## Seals -/

/-- A sealed manifest carries the digest of its secured fields and the signature of that digest. -/
theorem carries_sealWith {scheme : Scheme} (hwide : scheme.Wide) (m : Manifest) (secret : String) :
    (m.sealWith scheme secret).Carries (m.contentHash scheme)
      (scheme.sign secret (m.contentHash scheme)) :=
  ⟨carried_eq_some_iff.2 ⟨rfl, hwide.hash_ne_empty _⟩,
    carried_eq_some_iff.2 ⟨rfl, hwide.sign_ne_empty _ _⟩⟩

/-- Sealing changes nothing that the digest covers. -/
theorem contentHash_sealWith (scheme : Scheme) (m : Manifest) (secret : String) :
    (m.sealWith scheme secret).contentHash scheme = m.contentHash scheme := rfl

/-- Texts with one digest in hexadecimal digits have one digest. -/
theorem digest_eq_of_hash_eq {scheme : Scheme} {text text' : String}
    (h : scheme.hash text = scheme.hash text') :
    scheme.digest (Scheme.bytesOf text) = scheme.digest (Scheme.bytesOf text') := by
  have hdigits := String.ofList_injective h
  have hbytes := congrArg Text.Hex.decode hdigits
  rw [Text.Hex.decode_encode, Text.Hex.decode_encode] at hbytes
  exact Option.some.inj hbytes

/-- A sealed manifest that is checked with its own secret can only fail for its program. -/
theorem verify_sealWith {scheme : Scheme} (hwide : scheme.Wide) (m : Manifest)
    (secret token : String) :
    (m.sealWith scheme secret).verify scheme ⟨secret, token⟩ =
      if scheme.hash m.programText ≠ m.programHash then
        Failure.raise (.programHashMismatch m.runId m.programHash (scheme.hash m.programText))
      else .ok () := by
  have hsigned : scheme.verify secret (m.contentHash scheme)
      (scheme.sign secret (m.contentHash scheme)) = true := Scheme.verify_sign_iff.2 rfl
  rw [(carries_sealWith hwide m secret).verify_eq, contentHash_sealWith, if_neg fun hne => hne rfl,
    if_neg fun hne => hne hsigned]
  rfl

/-- With another secret it fails for its signature, unless both secrets give the same one. -/
theorem verify_sealWith_other {scheme : Scheme} (hwide : scheme.Wide) (m : Manifest)
    (secret : String) (other : Security) :
    (m.sealWith scheme secret).verify scheme other =
        Failure.raise (.signatureMismatch m.runId) ∨
      scheme.keyed (Scheme.bytesOf other.sharedSecret) (Scheme.bytesOf (m.contentHash scheme)) =
        scheme.keyed (Scheme.bytesOf secret) (Scheme.bytesOf (m.contentHash scheme)) := by
  by_cases hother : scheme.verify other.sharedSecret (m.contentHash scheme)
      (scheme.sign secret (m.contentHash scheme)) = true
  · exact .inr (Scheme.verify_sign_iff.1 hother).symm
  · refine .inl ?_
    rw [(carries_sealWith hwide m secret).verify_eq, contentHash_sealWith,
      if_neg fun hne => hne rfl, if_pos hother]
    rfl

/-- A manifest that carries the seal of another one fails for its digest, unless both have the same one. -/
theorem verify_of_seal {scheme : Scheme} (hwide : scheme.Wide) {m n : Manifest} {secret : String}
    (hhash : n.manifestHash = (m.sealWith scheme secret).manifestHash)
    (hsignature : n.manifestSig = (m.sealWith scheme secret).manifestSig) (security : Security) :
    n.verify scheme security =
        Failure.raise (.hashMismatch n.runId (m.contentHash scheme) (n.contentHash scheme)) ∨
      scheme.digest (Scheme.bytesOf n.sealedText) =
        scheme.digest (Scheme.bytesOf m.sealedText) := by
  have hsealed := carries_sealWith hwide m secret
  have hcarries : n.Carries (m.contentHash scheme)
      (scheme.sign secret (m.contentHash scheme)) := by
    constructor
    · rw [hhash]
      exact hsealed.hash
    · rw [hsignature]
      exact hsealed.signature
  by_cases hsame : n.contentHash scheme = m.contentHash scheme
  · exact .inr (digest_eq_of_hash_eq hsame)
  · refine .inl ?_
    rw [hcarries.verify_eq, if_pos hsame]

/-! ## Statement -/

/-- What the seal of a manifest is good for. -/
structure TamperEvident (scheme : Scheme) (m : Manifest) (secret : String) : Prop where
  /-- With its secret a sealed manifest is accepted if and only if its program has the digest that it says. -/
  accepted (token : String) :
    (m.sealWith scheme secret).verify scheme ⟨secret, token⟩ = .ok () ↔
      m.programHash = scheme.hash m.programText
  /-- Otherwise it is refused for that. -/
  otherProgram (token : String) : m.programHash ≠ scheme.hash m.programText →
    (m.sealWith scheme secret).verify scheme ⟨secret, token⟩ =
      Failure.raise (.programHashMismatch m.runId m.programHash (scheme.hash m.programText))
  /-- A manifest with the same digest and signature that says anything else has another text, and is refused for that unless both
      texts have the same digest. -/
  changed (n : Manifest) (security : Security) : n.Ordered → n.Integral →
    n.manifestHash = (m.sealWith scheme secret).manifestHash →
    n.manifestSig = (m.sealWith scheme secret).manifestSig → ¬n.SameContent m →
      n.sealedText ≠ m.sealedText ∧
        (n.verify scheme security =
            Failure.raise
              (.hashMismatch n.runId (m.contentHash scheme) (n.contentHash scheme)) ∨
          scheme.digest (Scheme.bytesOf n.sealedText) =
            scheme.digest (Scheme.bytesOf m.sealedText))
  /-- With another secret it is refused for its signature, unless both secrets give the same one. -/
  otherSecret (other : Security) :
    (m.sealWith scheme secret).verify scheme other =
        Failure.raise (.signatureMismatch m.runId) ∨
      scheme.keyed (Scheme.bytesOf other.sharedSecret) (Scheme.bytesOf (m.contentHash scheme)) =
        scheme.keyed (Scheme.bytesOf secret) (Scheme.bytesOf (m.contentHash scheme))

/-- **A change to a sealed manifest shows.** -/
theorem tamper_evident (scheme : Scheme) (hwide : scheme.Wide) (m : Manifest) (hordered : m.Ordered)
    (hintegral : m.Integral) (secret : String) : TamperEvident scheme m secret where
  accepted token := by
    rw [verify_sealWith hwide]
    by_cases hprogram : scheme.hash m.programText = m.programHash
    · rw [if_neg fun hne => hne hprogram]
      exact ⟨fun _ => hprogram.symm, fun _ => rfl⟩
    · rw [if_pos hprogram]
      refine ⟨fun hok => ?_, fun hsame => absurd hsame.symm hprogram⟩
      cases hok
  otherProgram token hprogram := by
    rw [verify_sealWith hwide, if_pos (Ne.symm hprogram)]
  changed n security hn hni hhash hsignature hother := by
    refine ⟨fun htext => ?_, verify_of_seal hwide hhash hsignature security⟩
    exact hother (sameContent_of_sealedText_eq hn hordered hni hintegral htext)
  otherSecret other := verify_sealWith_other hwide m secret other

/-- A manifest that says something in every part. -/
def release : Manifest where
  runId := "run-1"
  programHash := Scheme.standard.hash "session \"Hi\"\n"
  programText := "session \"Hi\"\n"
  toolAllowlist := ["Read", "Edit"]
  capabilities := ["fs.read"]
  files := [⟨"notes.md", "00", some 5, none⟩]
  env := [("LANG", "C"), ("TZ", "UTC")]
  limits := .obj [("maxTurns", .int 20), ("tags", .arr [.str "a\"b", .null])]
  tools := some .null
  mcpServers := none
  permissionMode := some ""
  manifestHash := none
  manifestSig := none

/-- A mode that is left out is told from an empty one. -/
theorem tamper_evident_release :
    Scheme.standard.Wide ∧ release.Ordered ∧ release.Integral ∧
      TamperEvident .standard release "secret" ∧
      (release.sealWith .standard "secret").verify .standard ⟨"secret", ""⟩ = .ok () ∧
      { release with permissionMode := none }.sealedText ≠ release.sealedText := by
  have hordered : release.Ordered := ⟨by decide, by decide, by decide, by decide⟩
  have hintegral : release.Integral := ⟨by decide, by decide, by decide⟩
  have hevident := tamper_evident .standard Scheme.wide_standard release hordered hintegral "secret"
  have hchanged := hevident.changed
    { release.sealWith .standard "secret" with permissionMode := none } ⟨"secret", ""⟩
    ⟨hordered.env, hordered.limits, hordered.tools, hordered.mcpServers⟩
    ⟨hintegral.limits, hintegral.tools, hintegral.mcpServers⟩ rfl rfl
    fun hsame => Option.some_ne_none _ hsame.permissionMode.symm
  exact ⟨Scheme.wide_standard, hordered, hintegral, hevident, (hevident.accepted "").2 rfl,
    hchanged.1⟩

end Manifest

end Playbook
