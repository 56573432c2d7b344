import Playbook.Proofs.CommandLine.Commands
import Playbook.Proofs.Manifest.Rereading

/-!
# `Proofs.CommandLine.Sealing` — a seal survives the file that it is written to

A sealed manifest that was written to a file is read from it as the same manifest. So whoever has the secret accepts the file and
runs the very program that was sealed, and whoever has another one refuses it for its signature, unless both secrets give the same
one. Whether the seal command writes the file or shows the text makes no difference.

## Contents
- **Checking.** `run_verify_ok`, `run_verify_error`: what the check of a file says.
- **Sealing.** `run_sealProgram_shown`, `run_sealProgram_written`, `run_sealProgram_unwritten`.
- **Sealed manifests.** `parse_sealed`, `verify_sealed`, `prepare_sealed`.
- **Statement.** `SealedAt`; `Manifest.seal_survives`.
-/

namespace Playbook

open CommandLine (Workplace Complaint)
open Digest (Scheme)

namespace CommandLine.Workplace

variable {w : Workplace} {s : Settings} {t t' : FileTree} {file source text runId out : String} {p : Program} {m : Manifest}

/-! ## Checking -/

/-- A manifest in a file is accepted if nothing is wrong with it. -/
theorem run_verify_ok (hsecret : s.security.sharedSecret ≠ "") (hread : t.readText (w.pathname file) = .ok text)
    (hparse : Manifest.parse text = .ok m) (hverify : m.verify w.scheme ⟨s.security.sharedSecret, ""⟩ = .ok ()) :
    (w.verify s file).run.run t = (.ok ⟨file ++ ": manifest ok (run " ++ m.runId ++ ")" ++ "\n", true⟩, t) := by
  have hcheck : (orComplain .failed (m.verify w.scheme ⟨s.security.sharedSecret, ""⟩) : Work Unit).run.run t =
      (.ok (), t) := by
    rw [hverify]
    rfl
  rw [verify, Work.run_bind_ok (run_needSecret hsecret), Work.run_bind_ok (run_readManifest hread hparse),
    Work.run_bind_ok hcheck, text_lines]
  rfl

/-- If something is wrong with it, that is complained of. -/
theorem run_verify_error {e : Failure} (hsecret : s.security.sharedSecret ≠ "")
    (hread : t.readText (w.pathname file) = .ok text) (hparse : Manifest.parse text = .ok m)
    (hverify : m.verify w.scheme ⟨s.security.sharedSecret, ""⟩ = .error e) :
    (w.verify s file).run.run t = (.error (.failed e), t) := by
  have hcheck : (orComplain .failed (m.verify w.scheme ⟨s.security.sharedSecret, ""⟩) : Work Unit).run.run t =
      (.error (.failed e), t) := by
    rw [hverify]
    rfl
  rw [verify, Work.run_bind_ok (run_needSecret hsecret), Work.run_bind_ok (run_readManifest hread hparse),
    Work.run_bind_error hcheck]

/-! ## Sealing -/

/-- The manifest that the seal command makes of a source. -/
def sealed (w : Workplace) (s : Settings) (runId source : String) : Manifest :=
  (Manifest.create w.scheme runId source).sealWith w.scheme s.security.sharedSecret

/-- Without a file to write to, the text of the manifest is shown. -/
theorem run_sealProgram_shown (hsecret : s.security.sharedSecret ≠ "")
    (hread : t.readText (w.pathname file) = .ok source) (hparse : Program.parse source = .ok p) :
    (w.sealProgram s file runId none).run.run t = (.ok ⟨(w.sealed s runId source).text ++ "\n", true⟩, t) := by
  rw [sealProgram, Work.run_bind_ok (run_needSecret hsecret), Work.run_bind_ok (run_readProgram hread hparse),
    ← text_lines]
  rfl

/-- A file that can be written gets the text of the manifest. -/
theorem run_sealProgram_written (hsecret : s.security.sharedSecret ≠ "")
    (hread : t.readText (w.pathname file) = .ok source) (hparse : Program.parse source = .ok p)
    (hwrite : t.writeText (w.pathname out) (w.sealed s runId source).text = (t', .ok ())) :
    (w.sealProgram s file runId (some out)).run.run t =
      (.ok ⟨"sealed " ++ runId ++ " -> " ++ out ++ "\n", true⟩, t') := by
  have hfile : (w.writeFile out (w.sealed s runId source).text).run.run t = (.ok (), t') := by
    show ((t.writeText (w.pathname out) _).2.mapError (Complaint.unwritable out),
      (t.writeText (w.pathname out) _).1) = _
    rw [hwrite]
    rfl
  rw [sealProgram, Work.run_bind_ok (run_needSecret hsecret), Work.run_bind_ok (run_readProgram hread hparse)]
  refine (Work.run_bind_ok hfile _).trans ?_
  rw [text_lines]
  rfl

/-- One that cannot be written is complained of, and nothing has changed. -/
theorem run_sealProgram_unwritten {problem : FileProblem} (hsecret : s.security.sharedSecret ≠ "")
    (hread : t.readText (w.pathname file) = .ok source) (hparse : Program.parse source = .ok p)
    (hwrite : t.writeText (w.pathname out) (w.sealed s runId source).text = (t', .error problem)) :
    (w.sealProgram s file runId (some out)).run.run t = (.error (.unwritable out problem), t) := by
  have hfile : (w.writeFile out (w.sealed s runId source).text).run.run t =
      (.error (.unwritable out problem), t') := by
    show ((t.writeText (w.pathname out) _).2.mapError (Complaint.unwritable out),
      (t.writeText (w.pathname out) _).1) = _
    rw [hwrite]
    rfl
  rw [sealProgram, Work.run_bind_ok (run_needSecret hsecret), Work.run_bind_ok (run_readProgram hread hparse)]
  refine (Work.run_bind_error hfile _).trans ?_
  rw [FileTree.writeText_error hwrite]

/-! ## Sealed manifests -/

theorem parse_sealed (w : Workplace) (s : Settings) (runId source : String) {after : List Char}
    (hafter : Json.Blank after) :
    Manifest.parse ((w.sealed s runId source).text ++ String.ofList after) = .ok (w.sealed s runId source) := by
  refine Manifest.parse_text (.sealWith (Manifest.legible_create _ _ _) _ _) ?_ hafter
  rw [Manifest.depth_sealWith_create]
  decide

/-- The secret of the seal is accepted: the manifest says the digest of its own program. -/
theorem verify_sealed (hwide : w.scheme.Wide) (s : Settings) (runId source token : String) :
    (w.sealed s runId source).verify w.scheme ⟨s.security.sharedSecret, token⟩ = .ok () := by
  rw [sealed, Manifest.verify_sealWith hwide]
  exact if_neg fun hne => hne rfl

theorem prepare_sealed (hwide : w.scheme.Wide) (hparse : Program.parse source = .ok p) (s : Settings) (runId : String)
    {c : LaunchConfig} (hc : c.security.sharedSecret = s.security.sharedSecret) :
    c.prepare w.scheme (w.sealed s runId source) = .ok p := by
  have hverify : (w.sealed s runId source).verify w.scheme c.security = .ok () := by
    rw [← verify_sealed hwide s runId source c.security.ingestToken, ← hc]
  rw [LaunchConfig.prepare, hverify]
  exact hparse

/-- Another secret is refused, unless it gives the same signature. -/
theorem verify_sealed_other (hwide : w.scheme.Wide) (s : Settings) (runId source : String) (other : Security) :
    (w.sealed s runId source).verify w.scheme other = Failure.raise (.signatureMismatch runId) ∨
      w.scheme.keyed (Scheme.bytesOf other.sharedSecret)
          (Scheme.bytesOf ((w.sealed s runId source).contentHash w.scheme)) =
        w.scheme.keyed (Scheme.bytesOf s.security.sharedSecret)
          (Scheme.bytesOf ((w.sealed s runId source).contentHash w.scheme)) :=
  Manifest.verify_sealWith_other hwide (Manifest.create w.scheme runId source) s.security.sharedSecret other

/-! ## Statement -/

/-- What there is to be said of a file that a sealed manifest of a program was written to. -/
structure SealedAt (w : Workplace) (secret : String) (m : Manifest) (p : Program) (file : String) (t : FileTree) :
    Prop where
  /-- The file is read as that manifest. -/
  read : (w.readManifest file).run.run t = (.ok m, t)
  /-- With the secret of the seal it is accepted. -/
  accepted (s : Settings) : s.security.sharedSecret = secret →
    (w.verify s file).run.run t = (.ok ⟨file ++ ": manifest ok (run " ++ m.runId ++ ")" ++ "\n", true⟩, t)
  /-- A run with that secret begins with the program. -/
  prepared (c : LaunchConfig) : c.security.sharedSecret = secret → c.prepare w.scheme m = .ok p
  /-- With another secret it is refused for its signature, unless both secrets give the same one. -/
  refused (s : Settings) : s.security.sharedSecret ≠ "" →
    (w.verify s file).run.run t = (.error (.failed (Failure.Cause.signatureMismatch m.runId).failure), t) ∨
      w.scheme.keyed (Scheme.bytesOf s.security.sharedSecret) (Scheme.bytesOf (m.contentHash w.scheme)) =
        w.scheme.keyed (Scheme.bytesOf secret) (Scheme.bytesOf (m.contentHash w.scheme))
  /-- A run with another secret, which may be empty, refuses it for its signature, unless both secrets give the same one. -/
  unprepared (c : LaunchConfig) :
    c.prepare w.scheme m = Failure.raise (.signatureMismatch m.runId) ∨
      w.scheme.keyed (Scheme.bytesOf c.security.sharedSecret) (Scheme.bytesOf (m.contentHash w.scheme)) =
        w.scheme.keyed (Scheme.bytesOf secret) (Scheme.bytesOf (m.contentHash w.scheme))

/-- A file that holds the text of a sealed manifest is as good as the manifest. -/
theorem sealedAt_of_readText (hwide : w.scheme.Wide) (hsecret : s.security.sharedSecret ≠ "")
    (hparse : Program.parse source = .ok p)
    (hread : t.readText (w.pathname out) = .ok (w.sealed s runId source).text) :
    w.SealedAt s.security.sharedSecret (w.sealed s runId source) p out t := by
  have hmanifest : Manifest.parse (w.sealed s runId source).text = .ok (w.sealed s runId source) := by
    have htext := parse_sealed w s runId source Json.blank_nil
    rwa [String.ofList_nil, String.append_empty] at htext
  refine ⟨run_readManifest hread hmanifest, ?_, ?_, ?_, ?_⟩
  · intro s' hs'
    refine run_verify_ok (by rwa [hs']) hread hmanifest ?_
    rw [hs']
    exact verify_sealed hwide s runId source ""
  · intro c hc
    exact prepare_sealed hwide hparse s runId hc
  · intro s' hs'
    refine (verify_sealed_other hwide s runId source ⟨s'.security.sharedSecret, ""⟩).imp (fun hverify => ?_) id
    exact run_verify_error hs' hread hmanifest hverify
  · intro c
    refine (verify_sealed_other hwide s runId source c.security).imp (fun hverify => ?_) id
    rw [LaunchConfig.prepare, hverify]
    rfl

end CommandLine.Workplace

/-- **A seal survives the file that it is written to**, as every manifest does, whatever it holds. -/
theorem Manifest.seal_survives :
    (∀ m : Manifest, m.Patched → m.Integral → m.toJson.depth ≤ Json.depthLimit → ∀ after, Json.Blank after →
      Manifest.parse (m.text ++ String.ofList after) = .ok m ∧
        ∀ scheme security,
          (Manifest.parse (m.text ++ String.ofList after) >>= fun n => n.verify scheme security) =
            m.verify scheme security) ∧
    (∀ scheme runId source, (Manifest.create scheme runId source).Patched) ∧
    (∀ text m, Manifest.parse text = .ok m → m.Patched) ∧
    ∀ (w : Workplace) (s : Settings) (t : FileTree) (file source runId : String) (p : Program),
      w.scheme.Wide → s.security.sharedSecret ≠ "" → t.readText (w.pathname file) = .ok source →
        Program.parse source = .ok p →
          (∃ shown, (w.sealProgram s file runId none).run.run t = (.ok ⟨shown, true⟩, t) ∧
            Manifest.parse shown = .ok (w.sealed s runId source)) ∧
          ∀ out,
            (∃ problem, (w.sealProgram s file runId (some out)).run.run t =
              (.error (.unwritable out problem), t)) ∨
            ∃ t', (w.sealProgram s file runId (some out)).run.run t =
                (.ok ⟨"sealed " ++ runId ++ " -> " ++ out ++ "\n", true⟩, t') ∧
              w.SealedAt s.security.sharedSecret (w.sealed s runId source) p out t' := by
  refine ⟨fun m hpatched hintegral hdepth after hafter => ?_, patched_create, fun _ _ => patched_of_parse, ?_⟩
  · have hparse := parse_text (hpatched.legible hintegral) hdepth hafter
    refine ⟨hparse, fun scheme security => ?_⟩
    rw [hparse]
    rfl
  · intro w s t file source runId p hwide hsecret hread hparse
    have hline : Json.Blank ['\n'] := List.forall_mem_singleton.2 rfl
    refine ⟨⟨_, Workplace.run_sealProgram_shown hsecret hread hparse, Workplace.parse_sealed w s runId source hline⟩,
      fun out => ?_⟩
    cases hwrite : t.writeText (w.pathname out) (w.sealed s runId source).text with
    | mk t' r =>
      cases r with
      | error problem => exact .inl ⟨problem, Workplace.run_sealProgram_unwritten hsecret hread hparse hwrite⟩
      | ok _ =>
        refine .inr ⟨t', Workplace.run_sealProgram_written hsecret hread hparse hwrite, ?_⟩
        exact Workplace.sealedAt_of_readText hwide hsecret hparse (FileTree.readText_writeText hwrite)

/-- A manifest with free parts. -/
def Manifest.draft : Manifest :=
  { Manifest.create .standard "r" "" with
    env := [("A", ""), ("B", "\x00")]
    limits := .obj [("a", .arr [.int 18446744073709551615, .null]), ("b", .int (-2))]
    tools := some (.arr [.obj []])
    permissionMode := some "" }

/-- A sealed manifest that was given some of them, and other files. -/
def Manifest.edited : Manifest :=
  { (Manifest.create .standard "r" "").sealWith .standard "secret" with
    files := [⟨"ü\n", "", some 0, none⟩, ⟨"\\", "00", none, some ""⟩]
    limits := Manifest.draft.limits
    tools := Manifest.draft.tools }

theorem Manifest.legible_draft : Manifest.draft.Legible where
  ordered := ⟨by decide, by decide, by decide, by decide⟩
  integral := ⟨by decide, by decide, by decide⟩
  limits := by decide
  tools := by
    intro v hv
    cases hv
    exact ⟨rfl, nofun⟩
  mcpServers := nofun

theorem Manifest.patched_edited : Manifest.edited.Patched := by
  have hread := patched_of_parse (parse_text legible_draft (by decide) Json.blank_nil)
  have hcreate := patched_create .standard "r" ""
  exact ⟨hcreate.env, hread.limits, hread.tools, hcreate.mcpServers⟩

/-- Settings with a secret. -/
def Settings.withSecret (secret : String) : Settings :=
  { Settings.standard with security := ⟨secret, ""⟩ }

theorem Manifest.seal_survives_edited :
    Manifest.edited.Patched ∧ Manifest.parse (Manifest.edited.text ++ String.ofList ['\n']) = .ok .edited ∧
      ∃ t', (Workplace.bare.sealProgram (.withSecret "secret") "flow" "run/1" (some "./sealed.json")).run.run
            (.single "flow" Program.shortSource) = (.ok ⟨"sealed run/1 -> ./sealed.json\n", true⟩, t') ∧
        Workplace.bare.SealedAt "secret" (Workplace.bare.sealed (.withSecret "secret") "run/1" Program.shortSource)
          ⟨[], [("a", ⟨"a", none, none, some "true"⟩)], [.loop 2 [.resume ⟨some "a", "One"⟩]]⟩ "./sealed.json" t' := by
  have hintegral : Manifest.edited.Integral := ⟨by decide, by decide, by decide⟩
  have hline : Json.Blank ['\n'] := List.forall_mem_singleton.2 rfl
  have hsource : (FileTree.single "flow" Program.shortSource).readText (Workplace.bare.pathname "flow") =
      .ok Program.shortSource := FileTree.readText_eq_ok ["flow"] rfl rfl
  have hparse : Program.parse Program.shortSource =
      .ok ⟨[], [("a", ⟨"a", none, none, some "true"⟩)], [.loop 2 [.resume ⟨some "a", "One"⟩]]⟩ := rfl
  have hsecret : (Settings.withSecret "secret").security.sharedSecret ≠ "" := by decide
  obtain ⟨hread, _, _, hseal⟩ := Manifest.seal_survives
  refine ⟨Manifest.patched_edited, (hread _ Manifest.patched_edited hintegral (by decide) _ hline).1, ?_⟩
  obtain ⟨_, hwritten⟩ :=
    hseal .bare (.withSecret "secret") _ "flow" _ "run/1" _ Scheme.wide_standard hsecret hsource hparse
  rcases hwritten "./sealed.json" with ⟨problem, hcomplaint⟩ | hdone
  · -- There is room for the file, whatever is to be written.
    have hwrite := FileTree.writeText_eq_write (t := .single "flow" Program.shortSource)
      (p := Workplace.bare.pathname "./sealed.json") ["sealed.json"] rfl rfl
      (Workplace.bare.sealed (.withSecret "secret") "run/1" Program.shortSource).text
    rw [Workplace.run_sealProgram_written hsecret hsource hparse hwrite] at hcomplaint
    cases hcomplaint
  · exact hdone

end Playbook
