import Playbook.Backend.Basic
import Playbook.Event.Marker
import Playbook.Event.ToolUse
import Playbook.Json.Reader
import Playbook.Messages.StreamEvent

/-!
# `Playbook.Messages.Reply` — a reply as it comes in

The pieces of a reply arrive as stream events. Text is handed on at once; thinking and the use of tools are
handed on as events when their block ends. All text together may hold inline events, which are read once the
reply is whole, and usage is reported last.

## Contents
- **The type.** `OpenBlock`, `Reply`.
- **Reading.** `Reply.apply` takes one stream event in, `Reply.applyAll` many, up to a failure.
- **The end.** `Reply.usage`, `Reply.closing`.
-/

namespace Playbook.Messages

/-! ## The type -/

/-- A block of a reply that has started and not ended. -/
inductive OpenBlock where
  | text
  | thinking (text : String)
  /-- The use of a tool: the pieces of its input so far, and the input to take if they are none or cannot
      be read. -/
  | toolUse (name json : String) (input : Json)
  deriving Repr, BEq

/-- What has come in of a reply. -/
structure Reply where
  messageId : Option String
  inputTokens : UInt64
  outputTokens : UInt64
  cacheReadTokens : UInt64
  /-- All of its text. -/
  text : String
  /-- The blocks that are open, by their indices. -/
  blocks : List (Nat × OpenBlock)
  deriving Repr, BEq

namespace Reply

/-- Nothing has come in. -/
def empty : Reply := ⟨none, 0, 0, 0, "", []⟩

/-- The open block with an index. -/
def block? (r : Reply) (index : Nat) : Option OpenBlock :=
  (r.blocks.find? (·.1 == index)).map (·.2)

/-- Forget the block with an index. -/
def without (r : Reply) (index : Nat) : Reply :=
  { r with blocks := r.blocks.filter (·.1 != index) }

/-- Put a block at an index. -/
def withBlock (r : Reply) (index : Nat) (block : OpenBlock) : Reply :=
  { r with blocks := (index, block) :: r.blocks.filter (·.1 != index) }

/-- Add to the text. -/
def addText (r : Reply) (text : String) : Reply :=
  { r with text := r.text ++ text }

/-! ## Reading -/

/-- A block starts. -/
def startBlock (r : Reply) (index : Nat) : BlockStart → Reply
  | .text text => (r.addText text).withBlock index .text
  | .thinking thinking => r.withBlock index (.thinking thinking)
  | .toolUse name input => r.withBlock index (.toolUse name "" input)
  | .other => r.withBlock index .text

/-- A piece of a block comes in. Text needs no open block; any other piece that does not fit its block is
    passed over. -/
def extendBlock (r : Reply) (index : Nat) (delta : Delta) : Reply × List Turn :=
  match delta, r.block? index with
  | .text text, _ => (r.addText text, [.ofText text])
  | .thinking more, some (.thinking text) => (r.withBlock index (.thinking (text ++ more)), [])
  | .toolInput more, some (.toolUse name json input) =>
    (r.withBlock index (.toolUse name (json ++ more) input), [])
  | _, _ => (r, [])

/-- The input of a tool: the pieces that came in, if they can be read. -/
def toolInput (json : String) (input : Json) : Json :=
  if json = "" then input else (Json.parse json).getD input

/-- What a block hands on when it ends. -/
def blockTurns : OpenBlock → List Turn
  | .text => []
  | .thinking text => if text = "" then [] else [.ofEvent (.thinking text)]
  | .toolUse name json input => (Event.ofToolUse name (toolInput json input)).map .ofEvent

/-- A block ends. -/
def stopBlock (r : Reply) (index : Nat) : Reply × List Turn :=
  match r.block? index with
  | none => (r, [])
  | some block => (r.without index, blockTurns block)

/-- The service has reported an error. -/
def serviceError (kind message : String) : Failure :=
  (Failure.Cause.adapter "messages" message).failure.withContext "error_type" kind

/-- Take one stream event in; gives what is handed on, or the failure that ends the reply. -/
def apply (r : Reply) : StreamEvent → Except Failure (Reply × List Turn)
  | .messageStart id usage =>
    let r := { r with messageId := some id }
    match usage with
    | none => .ok (r, [])
    | some u =>
      .ok ({ r with
        inputTokens := u.inputTokens
        outputTokens := u.outputTokens
        cacheReadTokens := u.cacheReadTokens }, [])
  | .blockStart index block => .ok (r.startBlock index block, [])
  | .blockDelta index delta => .ok (r.extendBlock index delta)
  | .blockStop index => .ok (r.stopBlock index)
  | .messageDelta (some outputTokens) => .ok ({ r with outputTokens }, [])
  | .messageDelta none => .ok (r, [])
  | .error kind message => .error (serviceError kind message)
  | .other => .ok (r, [])

/-- Take stream events in, up to a failure; gives the turns before it. -/
def applyAll (r : Reply) : List StreamEvent → List Turn × Except Failure Reply
  | [] => ([], .ok r)
  | e :: rest =>
    match r.apply e with
    | .error f => ([], .error f)
    | .ok (r, turns) =>
      let later := r.applyAll rest
      (turns ++ later.1, later.2)

/-! ## The end -/

/-- The usage of the reply, if its message is known. -/
def usage (r : Reply) : Option Usage :=
  r.messageId.map fun id => ⟨some id, r.inputTokens, r.outputTokens, r.cacheReadTokens⟩

/-- What is handed on when the reply is whole. -/
def closing (r : Reply) : List Turn :=
  (Event.inline r.text).map .ofEvent ++ (r.usage.map .ofUsage).toList

end Reply

end Playbook.Messages
