import Playbook.Failure.Basic

/-!
# `Playbook.Failure.Cause` — the causes that the library knows, and their wording

`Cause` lists what the library itself can find wrong. `Cause.failure` gives each its kind, message,
operation and facts; no other place words them.

## Contents
- **Causes.** `Cause`, `FileFault`.
- **Wording.** `Cause.failure`.
-/

namespace Playbook

namespace Failure

/-- The ways in which an operation on a file can fail. -/
inductive FileFault where
  | notFound
  | permissionDenied
  | other
  deriving DecidableEq, Repr

/-- What the library can find wrong. -/
inductive Cause where
  | unexpected (text : String)
  | unsupported (text : String)
  | canceled (text : String)
  /-- A program line that cannot be read. -/
  | unreadableLine (line : Nat) (what : String)
  /-- The same, raised by whoever reads lines without being the parser. -/
  | lineFailed (line : Nat) (what : String)
  | badIndent (line expected found : Nat)
  | unknownVariable (name : String)
  | unknownAgent (name : String)
  | adapter (name reason : String)
  | streamConsumed (sessionId : Option String)
  | hashMissing (runId : String)
  | signatureMissing (runId : String)
  | hashMismatch (runId expected found : String)
  | signatureMismatch (runId : String)
  | programHashMismatch (runId expected found : String)
  | delivery (text : String)
  | storage (text : String)
  | serialization (text : String)
  | file (fault : FileFault) (text : String)
  | io (text : String)
  | network (text : String)
  | config (text : String)
  deriving DecidableEq, Repr

/-- A failure found while a manifest was checked. -/
def ofManifest (kind : Kind) (message runId : String) : Failure :=
  ((ofKind kind message).withOperation "manifest::verify").withContext "run_id" runId

/-- A failure of a program line. -/
def ofLine (line : Nat) (what : String) : Failure :=
  (ofKind .parseFailed ("line " ++ toString line ++ ": " ++ what)).withContext "line"
    (toString line)

/-- The failure that a cause raises. -/
def Cause.failure : Cause → Failure
  | unexpected text => ofKind .unexpected text
  | unsupported text => ofKind .unsupported text
  | canceled text => ofKind .canceled text
  | unreadableLine line what => (ofLine line what).withOperation "parser::parse"
  | lineFailed line what => ofLine line what
  | badIndent line expected found =>
    (((ofLine line ("bad indent: expected " ++ toString expected ++ " spaces, found " ++
      toString found)).withOperation "parser::parse").withContext "expected"
      (toString expected)).withContext "found" (toString found)
  | unknownVariable name =>
    ((ofKind .unknownVariable ("unknown variable '" ++ name ++ "'")).withContext "name"
      name).withOperation "interpreter::eval"
  | unknownAgent name =>
    ((ofKind .unknownAgent ("agent '" ++ name ++ "' is not defined")).withOperation
      "interpreter::session").withContext "agent" name
  | adapter name reason => (ofKind .adapterFailed reason).withContext "adapter" name
  | streamConsumed sessionId =>
    (ofKind .streamConsumed "turn stream already taken").withContext "session_id"
      (sessionId.getD "-")
  | hashMissing runId => ofManifest .manifestHashMissing "manifest has no manifestHash" runId
  | signatureMissing runId =>
    ofManifest .manifestSignatureMissing "manifest has no manifestSig" runId
  | hashMismatch runId expected found =>
    ((ofManifest .manifestHashMismatch "manifest hash does not match its contents"
      runId).withContext "expected" expected).withContext "found" found
  | signatureMismatch runId =>
    ofManifest .manifestSignatureMismatch "manifest signature is invalid" runId
  | programHashMismatch runId expected found =>
    ((ofManifest .programHashMismatch "program hash does not match program text"
      runId).withContext "expected" expected).withContext "found" found
  | delivery text => ofKind .eventDeliveryFailed text
  | storage text => ofKind .storageFailed text
  | serialization text => ofKind .serializationFailed text
  | file fault text =>
    ((ofKind (match fault with
      | .notFound => .fileNotFound
      | .permissionDenied => .permissionDenied
      | .other => .ioFailed) text).withOperation "io").withSource text
  | io text => ofKind .ioFailed text
  | network text => ofKind .networkFailed text
  | config text => ofKind .configInvalid text

end Failure

/-- The failure that a cause raises. -/
def Failure.raise {α : Type} (cause : Failure.Cause) : Except Failure α :=
  .error cause.failure

end Playbook
