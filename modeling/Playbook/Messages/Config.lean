import Playbook.Failure.Cause
import Playbook.Json.Decode

/-!
# `Playbook.Messages.Config` — settings of the Messages backend

## Contents
- **Settings.** `Messages.Config` and its default.
- **Keys.** `Config.checked` refuses settings without a key.
- **Models.** `Config.model` maps the short names that programs use to the names that the service knows.
- **JSON.** `Config.ofJson?`; `Config.toJson` leaves the key out.
-/

namespace Playbook.Messages

open Json (slots withDefault optional asString asNat)

/-- Settings of the Messages backend. -/
structure Config where
  /-- The key that every request carries. -/
  apiKey : Option String
  /-- The address that requests go to. -/
  baseUrl : String
  /-- The model of agents that ask for none. -/
  defaultModel : String
  /-- The most tokens that a reply may have. -/
  maxTokens : Nat
  /-- How many seconds a request may take. -/
  timeoutSecs : Nat
  /-- The version of the service's interface. -/
  apiVersion : String
  deriving DecidableEq, Repr

namespace Config

/-- The usual settings, without a key. -/
def standard : Config where
  apiKey := none
  baseUrl := "https://api.anthropic.com/v1"
  defaultModel := "claude-sonnet-4-20250514"
  maxTokens := 4096
  timeoutSecs := 300
  apiVersion := "2023-06-01"

/-- Short names of models. -/
def aliases : List (String × String) :=
  [("sonnet", "claude-sonnet-4-20250514"), ("opus", "claude-opus-4-20250514"),
   ("haiku", "claude-3-5-haiku-20241022")]

/-- The model to ask the service for. -/
def model (c : Config) : Option String → String
  | none => c.defaultModel
  | some name => ((aliases.find? (·.1 == name)).map (·.2)).getD name

/-- The settings, if they have a key. -/
def checked (c : Config) : Except Failure Config :=
  if c.apiKey.getD "" = "" then Failure.raise (.config "messages adapter needs an api key")
  else .ok c

/-- Settings from an object; what is left out is as in `standard`. -/
def ofJson? (v : Json) : Option Config :=
  match slots ["api_key", "base_url", "default_model", "max_tokens", "timeout_secs",
      "api_version"] v with
  | some [apiKey, baseUrl, defaultModel, maxTokens, timeoutSecs, apiVersion] => do
    return { apiKey := ← optional asString apiKey
             baseUrl := ← withDefault standard.baseUrl asString baseUrl
             defaultModel := ← withDefault standard.defaultModel asString defaultModel
             maxTokens := ← withDefault standard.maxTokens (asNat UInt64.size) maxTokens
             timeoutSecs := ← withDefault standard.timeoutSecs (asNat UInt64.size) timeoutSecs
             apiVersion := ← withDefault standard.apiVersion asString apiVersion }
  | _ => none

/-- Settings as an object, without the key. -/
def toJson (c : Config) : Json :=
  .obj [("base_url", .str c.baseUrl), ("default_model", .str c.defaultModel),
    ("max_tokens", .nat c.maxTokens), ("timeout_secs", .nat c.timeoutSecs),
    ("api_version", .str c.apiVersion)]

end Config

end Playbook.Messages
