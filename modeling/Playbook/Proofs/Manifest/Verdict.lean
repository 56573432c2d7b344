import Playbook.Manifest
import Playbook.Proofs.Text.Trim

/-!
# `Proofs.Manifest.Verdict` — what becomes of a manifest that is checked

A manifest is checked for five things, one after another; the first that is missing or wrong is what it is refused for. `Verdict`
lists the six cases with the failures that go with them, and `verdict` says that a check always ends in one of them.

## Contents
- **Signatures.** `Scheme.Wide`; `Scheme.verify_iff`, `Scheme.verify_sign_iff`.
- **Seals.** `Carries`: the digest and the signature that a manifest carries.
- **Verdicts.** `Verdict`; `Carries.verify_eq`, `verdict`.
-/

namespace Playbook

open Digest (Scheme)

/-! ## Signatures -/

namespace Digest.Scheme

variable {scheme : Scheme}

/-- The digests and signatures of a scheme have 32 bytes each. -/
structure Wide (scheme : Scheme) : Prop where
  digest : ∀ message, (scheme.digest message).length = 32
  keyed : ∀ key message, (scheme.keyed key message).length = 32

/-- A signature is accepted if it denotes the keyed digest of the text. -/
theorem verify_iff {secret text signature : String} :
    scheme.verify secret text signature = true ↔
      Text.Hex.decode (Text.trim signature.toList) =
        some (scheme.keyed (bytesOf secret) (bytesOf text)) := by
  rw [Scheme.verify, beq_iff_eq]

/-- A signature is accepted under another secret only if both give the same one. -/
theorem verify_sign_iff {secret other text : String} :
    scheme.verify other text (scheme.sign secret text) = true ↔
      scheme.keyed (bytesOf secret) (bytesOf text) =
        scheme.keyed (bytesOf other) (bytesOf text) := by
  rw [verify_iff, Scheme.sign, String.toList_ofList, Text.trim_encode, Text.Hex.decode_encode,
    Option.some.injEq]

theorem ofList_encode_ne_empty {bytes : List UInt8} (h : bytes.length = 32) :
    String.ofList (Text.Hex.encode bytes) ≠ "" := by
  intro hempty
  have hchars := congrArg String.toList hempty
  rw [String.toList_ofList] at hchars
  cases bytes with
  | nil => cases h
  | cons b rest => cases hchars

theorem Wide.hash_ne_empty (h : scheme.Wide) (text : String) : scheme.hash text ≠ "" :=
  ofList_encode_ne_empty (h.digest _)

theorem Wide.sign_ne_empty (h : scheme.Wide) (secret text : String) :
    scheme.sign secret text ≠ "" :=
  ofList_encode_ne_empty (h.keyed _ _)

theorem wide_standard : Scheme.standard.Wide :=
  ⟨Sha256.length_digest, fun _ _ => Sha256.length_digest _⟩

end Digest.Scheme

namespace Manifest

variable {scheme : Scheme} {m : Manifest} {security : Security}

/-! ## Seals -/

/-- The digest and the signature that a manifest carries. -/
structure Carries (m : Manifest) (hash signature : String) : Prop where
  hash : carried m.manifestHash = some hash
  signature : carried m.manifestSig = some signature

theorem carried_eq_some_iff {text : Option String} {s : String} :
    carried text = some s ↔ text = some s ∧ s ≠ "" := by
  cases text with
  | none => simp [carried]
  | some t =>
    by_cases ht : t = ""
    · simp only [carried, if_pos ht, Option.some.injEq]
      constructor
      · intro h
        cases h
      · rintro ⟨rfl, hne⟩
        exact absurd ht hne
    · simp only [carried, if_neg ht, Option.some.injEq]
      constructor
      · rintro rfl
        exact ⟨rfl, ht⟩
      · exact And.left

/-! ## Verdicts -/

/-- What the check of a manifest can end in. -/
inductive Verdict (scheme : Scheme) (m : Manifest) (security : Security) :
    Except Failure Unit → Prop where
  /-- It carries no digest. -/
  | hashMissing (missing : carried m.manifestHash = none) :
      Verdict scheme m security (Failure.raise (.hashMissing m.runId))
  /-- It carries no signature. -/
  | signatureMissing {hash : String} (hash_eq : carried m.manifestHash = some hash)
      (missing : carried m.manifestSig = none) :
      Verdict scheme m security (Failure.raise (.signatureMissing m.runId))
  /-- The digest is not that of the secured fields. -/
  | hashMismatch {hash signature : String} (carries : m.Carries hash signature)
      (differs : m.contentHash scheme ≠ hash) :
      Verdict scheme m security
        (Failure.raise (.hashMismatch m.runId hash (m.contentHash scheme)))
  /-- The signature is not that of the digest. -/
  | signatureMismatch {hash signature : String} (carries : m.Carries hash signature)
      (hashed : m.contentHash scheme = hash)
      (forged : scheme.verify security.sharedSecret hash signature ≠ true) :
      Verdict scheme m security (Failure.raise (.signatureMismatch m.runId))
  /-- The program does not have the digest that the manifest says. -/
  | programHashMismatch {hash signature : String} (carries : m.Carries hash signature)
      (hashed : m.contentHash scheme = hash)
      (signed : scheme.verify security.sharedSecret hash signature = true)
      (differs : scheme.hash m.programText ≠ m.programHash) :
      Verdict scheme m security
        (Failure.raise
          (.programHashMismatch m.runId m.programHash (scheme.hash m.programText)))
  /-- Nothing is wrong with it. -/
  | good {hash signature : String} (carries : m.Carries hash signature)
      (hashed : m.contentHash scheme = hash)
      (signed : scheme.verify security.sharedSecret hash signature = true)
      (program : scheme.hash m.programText = m.programHash) : Verdict scheme m security (.ok ())

/-- The check of a manifest that carries digest and signature. -/
theorem Carries.verify_eq {hash signature : String} (h : m.Carries hash signature) :
    m.verify scheme security =
      if m.contentHash scheme ≠ hash then
        Failure.raise (.hashMismatch m.runId hash (m.contentHash scheme))
      else if scheme.verify security.sharedSecret hash signature ≠ true then
        Failure.raise (.signatureMismatch m.runId)
      else if scheme.hash m.programText ≠ m.programHash then
        Failure.raise
          (.programHashMismatch m.runId m.programHash (scheme.hash m.programText))
      else .ok () := by
  unfold verify
  rw [h.hash, h.signature]
  simp only [Bool.not_eq_true', ne_eq, Bool.not_eq_true]

/-- The check of a manifest ends in one of the verdicts. -/
theorem verdict (scheme : Scheme) (m : Manifest) (security : Security) :
    Verdict scheme m security (m.verify scheme security) := by
  cases hhash : carried m.manifestHash with
  | none =>
    unfold verify
    rw [hhash]
    exact .hashMissing hhash
  | some hash =>
    cases hsignature : carried m.manifestSig with
    | none =>
      unfold verify
      rw [hhash, hsignature]
      exact .signatureMissing hhash hsignature
    | some signature =>
      have hcarries : m.Carries hash signature := ⟨hhash, hsignature⟩
      rw [hcarries.verify_eq]
      by_cases hhashed : m.contentHash scheme = hash
      · rw [if_neg fun hne => hne hhashed]
        by_cases hsigned : scheme.verify security.sharedSecret hash signature = true
        · rw [if_neg fun hne => hne hsigned]
          by_cases hprogram : scheme.hash m.programText = m.programHash
          · rw [if_neg fun hne => hne hprogram]
            exact .good hcarries hhashed hsigned hprogram
          · rw [if_pos hprogram]
            exact .programHashMismatch hcarries hhashed hsigned hprogram
        · rw [if_pos hsigned]
          exact .signatureMismatch hcarries hhashed hsigned
      · rw [if_pos hhashed]
        exact .hashMismatch hcarries hhashed

end Manifest

end Playbook
