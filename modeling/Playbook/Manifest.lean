import Playbook.Digest.Seal
import Playbook.Failure.Cause
import Playbook.Json.Printer
import Playbook.Run.Context

/-!
# `Playbook.Manifest` — sealed manifests

A manifest holds a program and all that its run may use. Sealing it writes the digest of its secured
fields into it, and the signature of that digest under a shared secret. A run begins only after the
manifest has been verified.

## Contents
- **The type.** `ManifestFile`, `Manifest`, `Manifest.create`.
- **JSON.** `Manifest.toJson`, `Manifest.ofJson?`, `Manifest.parse`, `Manifest.text`.
- **Seal.** `Manifest.secured` is what the digest covers; `contentHash`, `sealWith`, `verify`.
-/

namespace Playbook

open Json (present slots required optional withDefault asString asUInt64 listOf mapOf anyValue)
open Digest (Scheme)

/-- A file that a run may read. -/
structure ManifestFile where
  path : String
  /-- The digest of its content. -/
  sha256 : String
  /-- Its length in bytes. -/
  size : Option UInt64
  /-- Where its content is stored. -/
  contentRef : Option String
  deriving DecidableEq, Repr

/-- A program and all that its run may use. -/
structure Manifest where
  runId : String
  /-- The digest of the program text. -/
  programHash : String
  programText : String
  toolAllowlist : List String
  capabilities : List String
  files : List ManifestFile
  /-- The environment. -/
  env : KeyMap String
  /-- Limits of the run, as JSON in normal form. -/
  limits : Json
  tools : Option Json
  mcpServers : Option Json
  permissionMode : Option String
  /-- The digest of the secured fields, once sealed. -/
  manifestHash : Option String
  /-- The signature of that digest, once sealed. -/
  manifestSig : Option String
  deriving Repr, BEq

/-! ## JSON -/

/-- A file as an object. -/
def ManifestFile.toJson (f : ManifestFile) : Json :=
  .obj ([("path", .str f.path), ("sha256", .str f.sha256)] ++
    present "size" (fun n => .nat n.toNat) f.size ++ present "contentRef" .str f.contentRef)

/-- A file from an object. -/
def ManifestFile.ofJson? (v : Json) : Option ManifestFile :=
  match slots ["path", "sha256", "size", "contentRef"] v with
  | some [path, sha256, size, contentRef] => do
    return { path := ← required asString path
             sha256 := ← required asString sha256
             size := ← optional asUInt64 size
             contentRef := ← optional asString contentRef }
  | _ => none

namespace Manifest

/-- A manifest of a program and nothing else, not sealed. -/
def create (scheme : Scheme) (runId programText : String) : Manifest where
  runId
  programHash := scheme.hash programText
  programText
  toolAllowlist := []
  capabilities := []
  files := []
  env := []
  limits := .null
  tools := none
  mcpServers := none
  permissionMode := none
  manifestHash := none
  manifestSig := none

/-- The members that the digest covers. -/
def secured (m : Manifest) : List (String × Json) :=
  [("runId", .str m.runId), ("programHash", .str m.programHash),
   ("programText", .str m.programText), ("toolAllowlist", .arr (m.toolAllowlist.map .str)),
   ("capabilities", .arr (m.capabilities.map .str)), ("files", .arr (m.files.map (·.toJson))),
   ("env", .obj (m.env.map fun e => (e.1, .str e.2))), ("limits", m.limits)] ++
  present "tools" id m.tools ++ present "mcpServers" id m.mcpServers ++
  present "permissionMode" .str m.permissionMode

/-- A manifest as an object. -/
def toJson (m : Manifest) : Json :=
  .obj (m.secured ++ present "manifestHash" .str m.manifestHash ++
    present "manifestSig" .str m.manifestSig)

/-- The fields of a manifest, in order. -/
def fields : List String :=
  ["runId", "programHash", "programText", "toolAllowlist", "capabilities", "files", "env",
   "limits", "tools", "mcpServers", "permissionMode", "manifestHash", "manifestSig"]

/-- A manifest from an object. -/
def ofJson? (v : Json) : Option Manifest :=
  match slots fields v with
  | some [runId, programHash, programText, toolAllowlist, capabilities, files, env, limits, tools,
      mcpServers, permissionMode, manifestHash, manifestSig] => do
    return { runId := ← required asString runId
             programHash := ← required asString programHash
             programText := ← required asString programText
             toolAllowlist := ← withDefault [] (listOf asString) toolAllowlist
             capabilities := ← withDefault [] (listOf asString) capabilities
             files := ← withDefault [] (listOf ManifestFile.ofJson?) files
             env := ← withDefault [] (mapOf asString) env
             limits := ← withDefault .null anyValue limits
             tools := ← optional anyValue tools
             mcpServers := ← optional anyValue mcpServers
             permissionMode := ← optional asString permissionMode
             manifestHash := ← optional asString manifestHash
             manifestSig := ← optional asString manifestSig }
  | _ => none

/-- Read a manifest. -/
def parse (text : String) : Except Failure Manifest :=
  match (Json.readTree text).bind ofJson? with
  | some m => .ok m
  | none => Failure.raise (.serialization "invalid manifest")

/-- The text of a manifest. -/
def text (m : Manifest) : String :=
  m.toJson.indented

/-! ## Seal -/

/-- The digest of the secured fields. -/
def contentHash (scheme : Scheme) (m : Manifest) : String :=
  scheme.hash (Json.canonical (.obj m.secured))

/-- Write digest and signature into a manifest. -/
def sealWith (scheme : Scheme) (m : Manifest) (secret : String) : Manifest :=
  let hash := m.contentHash scheme
  { m with manifestHash := some hash, manifestSig := some (scheme.sign secret hash) }

/-- A text that is given and not empty. -/
def carried : Option String → Option String
  | some s => if s = "" then none else some s
  | none => none

/-- Check a manifest: it carries digest and signature, the digest is that of the secured fields, the
    signature is that of the digest, and the program has the digest that the manifest says. The first
    check that fails is raised. -/
def verify (scheme : Scheme) (m : Manifest) (security : Security) : Except Failure Unit :=
  match carried m.manifestHash, carried m.manifestSig with
  | none, _ => Failure.raise (.hashMissing m.runId)
  | some _, none => Failure.raise (.signatureMissing m.runId)
  | some hash, some signature =>
    -- The digest is checked before the signature, and the program's own digest last.
    let computed := m.contentHash scheme
    let programHash := scheme.hash m.programText
    if computed ≠ hash then Failure.raise (.hashMismatch m.runId hash computed)
    else if !scheme.verify security.sharedSecret hash signature then
      Failure.raise (.signatureMismatch m.runId)
    else if programHash ≠ m.programHash then
      Failure.raise (.programHashMismatch m.runId m.programHash programHash)
    else .ok ()

end Manifest

end Playbook
