import Playbook.Json.Decode

/-!
# `Playbook.Run.Context` — what identifies a run, and what it keeps secret

## Contents
- **Identity.** `RunContext` goes on every event of a run.
- **Secrets.** `Security`; its `description` shows none of them.
-/

namespace Playbook

open Json (slots required withDefault asString)

/-- What identifies a run. -/
structure RunContext where
  /-- The run. -/
  runId : String
  /-- The digest of the program that it runs. -/
  programHash : String
  /-- For whom it runs. -/
  principalId : String
  deriving DecidableEq, Repr

/-- A context from an object. -/
def RunContext.ofJson? (v : Json) : Option RunContext :=
  match slots ["runId", "programHash", "principalId"] v with
  | some [runId, programHash, principalId] => do
    return { runId := ← required asString runId
             programHash := ← required asString programHash
             principalId := ← required asString principalId }
  | _ => none

/-- What a run shares with those who trust it. -/
structure Security where
  /-- The key of manifest and batch signatures. -/
  sharedSecret : String
  /-- The token that goes with every batch, empty for none. -/
  ingestToken : String
  deriving DecidableEq, Repr

namespace Security

/-- Security from an object. -/
def ofJson? (v : Json) : Option Security :=
  match slots ["shared_secret", "ingest_token"] v with
  | some [sharedSecret, ingestToken] => do
    return { sharedSecret := ← required asString sharedSecret
             ingestToken := ← withDefault "" asString ingestToken }
  | _ => none

/-- Security as an object. -/
def toJson (s : Security) : Json :=
  .obj [("shared_secret", .str s.sharedSecret), ("ingest_token", .str s.ingestToken)]

/-- How security is shown to a reader: the same text whatever it holds. -/
def description (_ : Security) : String :=
  "SecurityConfig \x7b shared_secret: \"<redacted>\", ingest_token: \"<redacted>\" \x7d"

end Security

end Playbook
