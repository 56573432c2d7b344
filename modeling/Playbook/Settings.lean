import Playbook.Messages.Config
import Playbook.Outbox.Config
import Playbook.Run.Context
import Playbook.Toml.Document

/-!
# `Playbook.Settings` — settings of the command line

Settings are kept in a TOML file. All of them may be left out, and what the file says beside them is not looked at.

## Contents
- **The type.** `Settings`, `Settings.standard`.
- **Reading.** `Settings.ofJson?`, `Settings.parse`.
-/

namespace Playbook

open Json (slots withDefault optional asString)

/-- What commands work with unless they are told otherwise. -/
structure Settings where
  /-- For whom runs are held. -/
  principalId : String
  /-- The address of the collector that events are sent to. -/
  collectorUrl : Option String
  /-- The directory of texts and records. -/
  storeDir : String
  /-- What manifests and batches are signed with. -/
  security : Security
  /-- How events are batched. -/
  outbox : Outbox.Config
  /-- How the Messages service is asked. -/
  messages : Messages.Config
  deriving DecidableEq, Repr

namespace Settings

/-- The usual settings: no secret, and no collector. -/
def standard : Settings where
  principalId := "local"
  collectorUrl := none
  storeDir := ".procflow"
  security := ⟨"", ""⟩
  outbox := .standard
  messages := .standard

/-- Read a record of a number of fields. One that is written as an array may hold more than these. -/
def record {α : Type} (size : Nat) (f : Json → Option α) : Json → Option α
  | .arr items => f (.arr (items.take size))
  | v => f v

/-- Settings from an object; what is left out is as in `standard`. -/
def ofJson? (v : Json) : Option Settings :=
  match slots ["principal_id", "collector_url", "store_dir", "security", "buffer", "messages"] v with
  | some [principalId, collectorUrl, storeDir, security, outbox, messages] => do
    return { principalId := ← withDefault standard.principalId asString principalId
             collectorUrl := ← optional asString collectorUrl
             storeDir := ← withDefault standard.storeDir asString storeDir
             security := ← withDefault standard.security (record 2 Security.ofJson?) security
             outbox := ← withDefault standard.outbox (record 4 Outbox.Config.ofJson?) outbox
             messages := ← withDefault standard.messages (record 6 Messages.Config.ofJson?) messages }
  | _ => none

/-- Settings from the text of a file. -/
def parse (text : String) : Option Settings :=
  (Toml.parse text).bind ofJson?

end Settings

end Playbook
