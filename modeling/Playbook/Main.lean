import Playbook.CommandLine.Reach
import Std.Time.DateTime.Timestamp

/-!
# `Playbook.Main` — the program

The program copies the files that its order can look at into a tree, answers the order over that tree, writes what has
changed back, and prints the answer. Nobody answers requests: the network is out of reach.

## Contents
- **Files.** `written`, `nodeAt`, `snapshot`, `writeBack`.
- **Surroundings.** `workplace`.
- **Entry.** `main`.
-/

namespace Playbook

open CommandLine

/-! ## Files -/

/-- A path from the root, as text. -/
def written (path : FilePath) : String :=
  "/" ++ "/".intercalate path

/-- What the system answers when a directory is read as a file. -/
def isDirectoryCode : UInt32 := 21

/-- What stands at a path, without what stands below it. -/
def nodeAt (path : FilePath) : IO (Option FileNode) := do
  try
    return some (.file (← IO.FS.readBinFile (written path)).toList)
  catch e =>
    match e with
    | .inappropriateType _ code _ =>
      return if code = isDirectoryCode then some (.directory []) else none
    | _ => return none

/-- Copy what stands at paths into a tree. A directory comes before what stands in it. -/
def snapshot (t : FileTree) (paths : List FilePath) : IO FileTree := do
  let mut t := t
  for path in paths do
    if (t.node? path).isNone then
      if let some node ← nodeAt path then t := t.set path node
  return t

/-- Write what has changed in a tree. -/
def writeBack (before after : FileTree) : IO Unit := do
  for (path, node) in FileNode.nodesOf after do
    match node, before.node? path with
    | .directory _, some (.directory _) => pure ()
    | .directory _, _ => IO.FS.createDirAll (written path)
    | .file bytes, old =>
      if old != some (.file bytes) then
        IO.FS.writeBinFile (written path) (ByteArray.mk bytes.toArray)

/-! ## Surroundings -/

/-- The variables that stand in for options. -/
def variableNames : List String :=
  ((programForm :: commandForms).flatMap (·.rules)).filterMap (·.variable_)

/-- The surroundings of the program. -/
def workplace : IO Workplace := do
  let found ← variableNames.filterMapM fun name => do
    return (← IO.getEnv name).map (name, ·)
  let env : KeyMap String := .ofList found
  let here := toString (← IO.currentDir)
  let now := (← Std.Time.Timestamp.now).toMillisecondsSinceUnixEpoch.val.toNat
  let seed ← IO.getRandomBytes 16
  return {
    scheme := .standard
    here := (Pathname.names ⟨[], here⟩).filter (!Pathname.stays ·)
    env := env.get?
    time := fun ms => .ofMillis (now + ms)
    peer := Http.Peer.nobody
    newId := fun n => String.ofList (Text.Hex.encode seed.toList) ++ "-" ++ toString n }

/-- Answer an order over the files that it can look at. -/
def answerOver (w : Workplace) (args : List String) : IO Answer := do
  match Order.ofArguments w.env args with
  | .error _ => return (w.answer args .empty).1
  | .ok order =>
    let base ← snapshot .empty (starts w.here ++ w.namedPaths order)
    let store ← snapshot base (w.reach order base)
    let (answer, after) := w.answer args store
    writeBack store after
    return answer

end Playbook

/-! ## Entry -/

/-- Answer the arguments. -/
def main (args : List String) : IO UInt32 := do
  let answer ← Playbook.answerOver (← Playbook.workplace) args
  IO.print answer.out
  IO.eprint answer.err
  return UInt32.ofNat answer.code
