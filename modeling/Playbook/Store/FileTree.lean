import Playbook.KeyMap

/-!
# `Playbook.Store.FileTree` — files and directories

A file system is a tree: a directory holds nodes by their names, and a node is a file or again a directory. Operations on
a path fail as those of an operating system do, and say why in its words.

## Contents
- **Trees.** `FileNode` and `FileTree`; `node?` and `set` look at a path and change what stands there, and `files` lists
  what the tree holds.
- **Operations.** `find`, `makeDirs`, `write` and `read`, with the `FileProblem` for which one can fail.
- **Limits.** `refusal?` says which written paths are never looked up; `lookUp` and `change` heed it.
-/

namespace Playbook

/-! ## Trees -/

/-- A path, from the root of the tree. -/
abbrev FilePath := List String

/-- What stands at a path: a file, or a directory with what stands in it by names. -/
inductive FileNode where
  | file (bytes : List UInt8)
  | directory (entries : List (String × FileNode))
  deriving Repr, BEq

mutual

/-- A node and all that stands below it, with the paths from the node. -/
def FileNode.nodes : FileNode → List (FilePath × FileNode)
  | .file bytes => [([], .file bytes)]
  | .directory entries => ([], .directory entries) :: FileNode.nodesOf entries

/-- All that stands in a directory or below it, with the paths from the directory. -/
def FileNode.nodesOf : List (String × FileNode) → List (FilePath × FileNode)
  | [] => []
  | (name, node) :: rest => (node.nodes.map fun n => (name :: n.1, n.2)) ++ FileNode.nodesOf rest

end

/-- A root directory: what stands in it by names. -/
abbrev FileTree := KeyMap FileNode

namespace FileTree

/-- An empty directory. -/
def empty : FileTree := []

/-- What stands at a path. -/
def node? (t : FileTree) : FilePath → Option FileNode
  | [] => some (.directory t)
  | name :: rest =>
    match t.get? name, rest with
    | some node, [] => some node
    | some (.directory entries), rest => node? entries rest
    | _, _ => none

/-- What a directory of a tree holds; nothing if the name is not that of a directory. -/
def entriesOf (t : FileTree) (name : String) : FileTree :=
  match t.get? name with
  | some (.directory entries) => entries
  | _ => []

/-- Put a node at a path, and directories on the way to it where there are none. -/
def set (t : FileTree) (path : FilePath) (node : FileNode) : FileTree :=
  match path with
  | [] => t
  | [name] => t.insert name node
  | name :: rest => t.insert name (.directory (set (t.entriesOf name) rest node))

/-- The files with their paths. -/
def files (t : FileTree) : List (FilePath × List UInt8) :=
  (FileNode.nodesOf t).filterMap fun n =>
    match n.2 with
    | .file bytes => some (n.1, bytes)
    | .directory _ => none

/-- The files as a map from their paths, written with slashes. -/
def fileMap (t : FileTree) : KeyMap (List UInt8) :=
  .ofList (t.files.map fun f => ("/".intercalate f.1, f.2))

end FileTree

/-! ## Operations -/

/-- Why an operation on a path fails. -/
inductive FileProblem where
  | missing
  | exists_
  | notDirectory
  | isDirectory
  | nameTooLong
  | nameWithNul
  deriving DecidableEq, Repr

/-- How the operating system words a problem. -/
def FileProblem.message : FileProblem → String
  | missing => "No such file or directory (os error 2)"
  | exists_ => "File exists (os error 17)"
  | notDirectory => "Not a directory (os error 20)"
  | isDirectory => "Is a directory (os error 21)"
  | nameTooLong => "File name too long (os error 36)"
  | nameWithNul => "file name contained an unexpected NUL byte"

namespace FileTree

/-- The greatest length of a file name in bytes. -/
def nameLimit : Nat := 255

/-- Walk along a path to what it names. -/
def find (t : FileTree) : FilePath → Except FileProblem FileNode
  | [] => .ok (.directory t)
  | name :: rest =>
    if name.utf8ByteSize > nameLimit then .error .nameTooLong
    else
      match t.get? name, rest with
      | none, _ => .error .missing
      | some node, [] => .ok node
      | some (.directory entries), rest => find entries rest
      | some (.file _), _ :: _ => .error .notDirectory

/-- Make the directories of a path that are missing; gives the tree as far as it could be made. -/
def makeDirs (t : FileTree) : FilePath → FileTree × Except FileProblem Unit
  | [] => (t, .ok ())
  | name :: rest =>
    if name.utf8ByteSize > nameLimit then (t, .error .nameTooLong)
    else
      match t.get? name with
      -- A file stands in the way: as what was to be made, or on the way to it.
      | some (.file _) => (t, .error (if rest = [] then .exists_ else .notDirectory))
      | some (.directory entries) =>
        let (entries, r) := makeDirs entries rest
        (t.insert name (.directory entries), r)
      | none =>
        let (entries, r) := makeDirs [] rest
        (t.insert name (.directory entries), r)

/-- Write a file whose directory is there. -/
def write (t : FileTree) (path : FilePath) (bytes : List UInt8) :
    FileTree × Except FileProblem Unit :=
  match t.find path with
  | .ok (.directory _) => (t, .error .isDirectory)
  | .ok (.file _) => (t.set path (.file bytes), .ok ())
  -- The file itself may be missing, but not its directory.
  | .error .missing =>
    match t.find path.dropLast with
    | .ok (.directory _) => (t.set path (.file bytes), .ok ())
    | _ => (t, .error .missing)
  | .error e => (t, .error e)

/-- Read a file. -/
def read (t : FileTree) (path : FilePath) : Except FileProblem (List UInt8) :=
  match t.find path with
  | .ok (.file bytes) => .ok bytes
  | .ok (.directory _) => .error .isDirectory
  | .error e => .error e

/-! ## Limits -/

/-- The greatest length of a written path in bytes. -/
def pathLimit : Nat := 4095

/-- Why a path, as it is written, is not looked up at all: it has a NUL character, which would end it, or it is too
    long. Of the two the NUL character is told first. -/
def refusal? (written : String) : Option FileProblem :=
  if written.toList.contains (Char.ofNat 0) then some .nameWithNul
  else if written.utf8ByteSize > pathLimit then some .nameTooLong
  else none

/-- Give what is found by a path, unless the path as it is written is not looked up. -/
def lookUp {α : Type} (written : String) (found : Except FileProblem α) : Except FileProblem α :=
  match refusal? written with
  | some problem => .error problem
  | none => found

/-- Change a tree by a path, unless the path as it is written is not looked up. -/
def change {α : Type} (t : FileTree) (written : String)
    (f : FileTree → FileTree × Except FileProblem α) : FileTree × Except FileProblem α :=
  match refusal? written with
  | some problem => (t, .error problem)
  | none => f t

end FileTree

end Playbook
