import Playbook.CommandLine.Outline
import Playbook.Store.Pathname

/-!
# `Playbook.CommandLine.Complaint` — why a command cannot do its work

## Contents
- **Causes.** `Complaint`.
- **Wording.** `Complaint.headline` says what went wrong and `Complaint.cause` why; `Complaint.text` is both.
-/

namespace Playbook.CommandLine

/-- Why a command cannot do its work. -/
inductive Complaint where
  | unreadable (file : String) (problem : FileTree.TextProblem)
  | unwritable (file : String) (problem : FileProblem)
  /-- A program that cannot be read. -/
  | noProgram (file : String) (failure : Failure)
  | badSettings
  | noSecret
  /-- An input that is not a name and a value. -/
  | badInput (item : String)
  | failed (failure : Failure)

namespace Complaint

/-- What went wrong. -/
def headline : Complaint → String
  | unreadable file _ => "failed to read " ++ file
  | unwritable file _ => "failed to write " ++ file
  | noProgram file _ => file ++ " does not parse"
  | badSettings => "invalid settings"
  | noSecret => "no shared secret: pass --secret, set PROCFLOW_SECRET or [security] shared_secret"
  | badInput item => "input '" ++ item ++ "' is not NAME=VALUE"
  | failed failure => failure.display

/-- Why it went wrong, where there is more to say. -/
def cause : Complaint → Option String
  | unreadable _ problem => some problem.message
  | unwritable _ problem => some problem.message
  | noProgram _ failure => some failure.display
  | _ => none

/-- What is written for a complaint. -/
def text (c : Complaint) : String :=
  "Error: " ++ c.headline ++
  (match c.cause with
    | some cause => "\n\nCaused by:\n    " ++ hanging "    " cause
    | none => "") ++ "\n"

end Complaint

end Playbook.CommandLine
