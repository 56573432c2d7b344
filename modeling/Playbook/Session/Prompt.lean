import Playbook.Program.Basic
import Playbook.Run.Scope

/-!
# `Playbook.Session.Prompt` — what an agent is asked

## Contents
- **Event protocol.** `eventProtocol` tells the agent how to report.
- **Prompt.** `renderPrompt` writes task, agent, bindings and event protocol, in this order. Bindings
  are named with their references; their texts are not shown.
-/

namespace Playbook

/-- How the agent reports. -/
def eventProtocol : String :=
  "Report progress by writing events inline, one JSON object per marker:\n" ++
  "<event>\x7b\"type\":\"step\",\"status\":\"started\",\"name\":\"...\"\x7d</event>\n" ++
  "Event types: log, step, todo, artifact, file, checkpoint, result_text.\n" ++
  "Binding contents are not included above; read them through their references.\n" ++
  "Wrap your final answer in result tags."

/-- The part of a prompt that tells the agent about itself; left out when there is nothing but
    blanks to tell. -/
def agentSection (a : Agent) : String :=
  match a.prompt with
  | none => ""
  | some prompt =>
    if Text.trim prompt.toList = [] then ""
    else "# Agent: " ++ a.name ++ "\n" ++ String.ofList (Text.trimEnd prompt.toList) ++ "\n\n"

/-- One line about a binding. -/
def bindingLine (b : Binding) : String :=
  "- " ++ b.name ++ " (" ++ b.kind.name ++ "): " ++ b.contentRef ++
    (match b.sha256 with
      | none => ""
      | some digest => " sha256=" ++ digest) ++
    (match b.size with
      | none => ""
      | some size => " size=" ++ toString size.toNat) ++ "\n"

/-- The prompt of a session. -/
def renderPrompt (title : String) (a : Agent) (bindings : List Binding) : String :=
  "# Task\n" ++ title ++ "\n\n" ++ agentSection a ++ "# Bindings\n" ++
    (if bindings.isEmpty then "(none)\n" else String.join (bindings.map bindingLine)) ++
    "\n# Event protocol\n" ++ eventProtocol ++ "\n"

end Playbook
