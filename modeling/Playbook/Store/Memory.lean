import Playbook.Store.Basic
import Playbook.Text.Search
import Playbook.Text.Utf8
import Playbook.Timestamp

/-!
# `Playbook.Store.Memory` — what persistent agents leave behind

An agent that persists leaves a record after each of its sessions. A later run finds in it which session
to take up again. The record is a text with one fact on each line; only the line with the session id is
read.

## Contents
- **Keys.** `memoryKey`.
- **Records.** `MemoryRecord` and its text.
- **Reading.** `sessionIdOf?`.
-/

namespace Playbook

open Text

/-- The key of the record that an agent leaves for a principal in a run. -/
def memoryKey (runId principalId agent : String) : String :=
  "memory/" ++ runId ++ "/" ++ principalId ++ "/" ++ agent ++ ".md"

/-- What a persistent agent leaves behind. -/
structure MemoryRecord where
  /-- The session to take up again. -/
  sessionId : String
  /-- For whom it was held. -/
  principalId : String
  /-- With whom it was held. -/
  agent : String
  /-- What it was about. -/
  lastTask : String
  /-- When the record was written. -/
  updatedAt : Timestamp

/-- What stands before the session id. -/
def sessionMark : List Char := "session_id:".toList

/-- The text of a record; the task is put on one line. -/
def MemoryRecord.text (r : MemoryRecord) : String :=
  String.ofList sessionMark ++ " " ++ r.sessionId ++ "\nprincipal: " ++ r.principalId ++
    "\nagent: " ++ r.agent ++ "\nlast_task: " ++
    String.ofList (r.lastTask.toList.map fun c => if c = '\n' then ' ' else c) ++
    "\nupdated_at: " ++ r.updatedAt.text ++ "\n"

/-- The session id on a line, if there is one. -/
def sessionIdOnLine? (line : List Char) : Option (List Char) :=
  match stripPrefix sessionMark (trim line) with
  | none => none
  | some rest => if trim rest = [] then none else some (trim rest)

/-- The session id of a record: the first that is not empty. -/
def sessionIdOf? (text : String) : Option String :=
  ((lines text.toList).findSome? sessionIdOnLine?).map String.ofList

/-- The session id of a record's bytes. -/
def sessionIdOfBytes? (bytes : List UInt8) : Option String :=
  sessionIdOf? (String.ofList (Utf8.decodeLossy bytes))

end Playbook
