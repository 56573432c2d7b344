import Playbook.Json.Decode
import Playbook.Text.Search
import Playbook.Text.Utf8

/-!
# `Playbook.Messages.StreamEvent` — what a service reports while it replies

A frame holds one stream event as JSON on a line that starts with `data: `. Frames without such a line, or with
something else on it, are passed over.

## Contents
- **Parts.** `BlockStart`, `Delta`, `StartUsage`.
- **Events.** `StreamEvent`, `StreamEvent.ofJson?`, `StreamEvent.ofFrame?`.
-/

namespace Playbook.Messages

open Json (slots required optional withDefault tagged asString asNat asUInt64 anyValue)

/-! ## Parts -/

/-- The usage that a message starts with. -/
structure StartUsage where
  inputTokens : UInt64
  outputTokens : UInt64
  cacheReadTokens : UInt64
  deriving DecidableEq, Repr

/-- The usage that a message starts with, from an object. -/
def StartUsage.ofJson? (v : Json) : Option StartUsage :=
  match slots ["input_tokens", "output_tokens", "cache_read_input_tokens"] v with
  | some [input, output, cacheRead] => do
    return { inputTokens := ← withDefault 0 asUInt64 input
             outputTokens := ← withDefault 0 asUInt64 output
             cacheReadTokens := ← withDefault 0 asUInt64 cacheRead }
  | _ => none

/-- How a block of a reply starts. -/
inductive BlockStart where
  | text (text : String)
  | thinking (thinking : String)
  /-- A tool is used, with an input that may be given later. -/
  | toolUse (name : String) (input : Json)
  | other
  deriving Repr, BEq

/-- How a block starts, from a tagged object. -/
def BlockStart.ofJson? (v : Json) : Option BlockStart :=
  match tagged "type" ["text", "thinking", "tool_use", "other"] true v with
  | some ("text", v) =>
    match slots ["text"] v with
    | some [slot] => (withDefault "" asString slot).map .text
    | _ => none
  | some ("thinking", v) =>
    match slots ["thinking"] v with
    | some [slot] => (withDefault "" asString slot).map .thinking
    | _ => none
  | some ("tool_use", v) =>
    match slots ["name", "input"] v with
    | some [name, input] => do
      return .toolUse (← required asString name) (← withDefault .null anyValue input)
    | _ => none
  | some (_, v) => (slots [] v).map fun _ => .other
  | none => none

/-- A piece of a block. -/
inductive Delta where
  | text (text : String)
  | toolInput (json : String)
  | thinking (thinking : String)
  | other
  deriving Repr, BEq

/-- A piece of a block, from a tagged object. -/
def Delta.ofJson? (v : Json) : Option Delta :=
  match tagged "type" ["text_delta", "input_json_delta", "thinking_delta", "other"] true v with
  | some ("text_delta", v) =>
    match slots ["text"] v with
    | some [slot] => (required asString slot).map .text
    | _ => none
  | some ("input_json_delta", v) =>
    match slots ["partial_json"] v with
    | some [json] => (required asString json).map .toolInput
    | _ => none
  | some ("thinking_delta", v) =>
    match slots ["thinking"] v with
    | some [slot] => (required asString slot).map .thinking
    | _ => none
  | some (_, v) => (slots [] v).map fun _ => .other
  | none => none

/-! ## Events -/

/-- One report of the service. -/
inductive StreamEvent where
  | messageStart (id : String) (usage : Option StartUsage)
  | blockStart (index : Nat) (block : BlockStart)
  | blockDelta (index : Nat) (delta : Delta)
  | blockStop (index : Nat)
  | messageDelta (outputTokens : Option UInt64)
  | error (kind message : String)
  /-- Anything that needs no answer. -/
  | other
  deriving Repr, BEq

namespace StreamEvent

/-- The index of a block. -/
def asIndex : Json → Option Nat :=
  asNat UInt64.size

/-- The message that starts, from an object. -/
def startOfJson? (v : Json) : Option StreamEvent :=
  match slots ["id", "usage"] v with
  | some [id, usage] => do
    return .messageStart (← required asString id) (← optional StartUsage.ofJson? usage)
  | _ => none

/-- The tokens written so far, from an object. -/
def outputOfJson? (v : Json) : Option UInt64 :=
  match slots ["output_tokens"] v with
  | some [output] => withDefault 0 asUInt64 output
  | _ => none

/-- An error of the service, from an object. -/
def errorOfJson? (v : Json) : Option StreamEvent :=
  match slots ["type", "message"] v with
  | some [kind, message] => do
    return .error (← withDefault "" asString kind) (← withDefault "" asString message)
  | _ => none

/-- The record of one kind of report. -/
def ofRecord? (kind : String) (v : Json) : Option StreamEvent :=
  match kind with
  | "message_start" =>
    match slots ["message"] v with
    | some [message] => required startOfJson? message
    | _ => none
  | "content_block_start" =>
    match slots ["index", "content_block"] v with
    | some [index, block] => do
      return .blockStart (← required asIndex index) (← required BlockStart.ofJson? block)
    | _ => none
  | "content_block_delta" =>
    match slots ["index", "delta"] v with
    | some [index, delta] => do
      return .blockDelta (← required asIndex index) (← required Delta.ofJson? delta)
    | _ => none
  | "content_block_stop" =>
    match slots ["index"] v with
    | some [index] => (required asIndex index).map .blockStop
    | _ => none
  | "message_delta" =>
    match slots ["usage"] v with
    | some [usage] => (optional outputOfJson? usage).map .messageDelta
    | _ => none
  | "error" =>
    match slots ["error"] v with
    | some [slot] => required errorOfJson? slot
    | _ => none
  | _ => (slots [] v).map fun _ => .other

/-- The kinds of reports. -/
def kinds : List String :=
  ["message_start", "content_block_start", "content_block_delta", "content_block_stop",
   "message_delta", "message_stop", "ping", "error", "unknown"]

/-- A report from a tagged object. -/
def ofJson? (v : Json) : Option StreamEvent :=
  (tagged "type" kinds false v).bind fun t => ofRecord? t.1 t.2

/-- The first line of a frame that holds data. -/
def dataLine? (frame : List UInt8) : Option (List Char) :=
  (Text.lines (Text.Utf8.decodeLossy frame)).findSome? (Text.stripPrefix "data: ".toList)

/-- The report in a frame. -/
def ofFrame? (frame : List UInt8) : Option StreamEvent := do
  let line ← dataLine? frame
  let v ← Json.readTree (String.ofList line)
  ofJson? v

end StreamEvent

end Playbook.Messages
