import Playbook.Store.FileTree
import Playbook.Text.Blank
import Playbook.Text.Search
import Playbook.Text.Utf8

/-!
# `Playbook.Store.Pathname` — files by the paths that people write

A written path is followed name by name: an empty name and `.` stay where they are, `..` goes up, and what any other name
but the last stands for must be a directory. A path that does not start at the root starts in the current directory.

## Contents
- **Paths.** `Pathname`, `enter`, `locate`.
- **Files.** `readText`, `writeText`.
- **Directories.** `makePath`.
-/

namespace Playbook

/-- A path as it is written, and the directory in which it is written. -/
structure Pathname where
  here : FilePath
  text : String

namespace Pathname

/-- The names of the path. -/
def names (p : Pathname) : List String :=
  (Text.splitOn '/' p.text.toList).map String.ofList

/-- Where following the path starts. -/
def start (p : Pathname) : FilePath :=
  if Text.startsWith p.text.toList ['/'] then [] else p.here

/-- Whether a name does not lead anywhere. -/
def stays (name : String) : Bool :=
  name == "" || name == "."

end Pathname

namespace FileTree

/-- Follow names from a directory to a directory. -/
def enter (t : FileTree) (at_ : FilePath) : List String → Except FileProblem FilePath
  | [] => .ok at_
  | name :: rest =>
    if Pathname.stays name then enter t at_ rest
    else if name = ".." then enter t at_.dropLast rest
    else if name.utf8ByteSize > nameLimit then .error .nameTooLong
    else
      match t.node? (at_ ++ [name]) with
      | none => .error .missing
      | some (.file _) => .error .notDirectory
      | some (.directory _) => enter t (at_ ++ [name]) rest

/-- Where names lead from a directory. What the last name stands for need not be there. -/
def follow (t : FileTree) (at_ : FilePath) (names : List String) : Except FileProblem FilePath :=
  match names.getLast? with
  | none => .ok at_
  | some last =>
    if Pathname.stays last || last = ".." then t.enter at_ names
    else (t.enter at_ names.dropLast).map (· ++ [last])

/-- Where a written path leads. -/
def locate (t : FileTree) (p : Pathname) : Except FileProblem FilePath :=
  if p.text = "" then .error .missing
  else lookUp p.text (t.follow p.start p.names)

/-! ## Files -/

/-- Why a text could not be read from a file. -/
inductive TextProblem where
  | file (problem : FileProblem)
  | notText

/-- How a problem with a text is worded. -/
def TextProblem.message : TextProblem → String
  | file problem => problem.message
  | notText => "stream did not contain valid UTF-8"

/-- Read the text of a file. -/
def readText (t : FileTree) (p : Pathname) : Except TextProblem String := do
  let path ← (t.locate p).mapError .file
  let bytes ← (t.read path).mapError .file
  match Text.Utf8.decode bytes with
  | some text => .ok (String.ofList text)
  | none => .error .notText

/-- Why a path that ends in a slash cannot be written: what leads to it is not there, or else it is taken for that of a
    directory. -/
def slashProblem (t : FileTree) (p : Pathname) : FileProblem :=
  let stem : Pathname := ⟨p.here, String.ofList (Text.dropEndWhile (· == '/') p.text.toList)⟩
  match lookUp p.text (t.follow p.start stem.names) with
  | .error e => e
  | .ok _ => .isDirectory

/-- Write a text to a file whose directory is there. -/
def writeText (t : FileTree) (p : Pathname) (text : String) : FileTree × Except FileProblem Unit :=
  if Text.endsWith p.text.toList ['/'] then (t, .error (t.slashProblem p))
  else
    match t.locate p with
    | .error e => (t, .error e)
    | .ok path => t.write path (Text.Utf8.encode text.toList)

/-! ## Directories -/

/-- Follow names from a directory and make the directories that are missing; gives the tree as far as it could be made.

    The first directory to be made is asked for by the whole path, so that a file before it is one on the way. From then
    on, as `made` says, each name is asked for by itself, so that a file there exists already. -/
def makeFrom (t : FileTree) (at_ : FilePath) (made : Bool) :
    List String → FileTree × Except FileProblem FilePath
  | [] => (t, .ok at_)
  | name :: rest =>
    if Pathname.stays name then makeFrom t at_ made rest
    else if name = ".." then makeFrom t at_.dropLast made rest
    else if name.utf8ByteSize > nameLimit then (t, .error .nameTooLong)
    else
      match t.node? (at_ ++ [name]) with
      | some (.directory _) => makeFrom t (at_ ++ [name]) made rest
      | some (.file _) =>
        let asked := if rest.all Pathname.stays then rest.all (· == "") else made
        (t, .error (if asked then .exists_ else .notDirectory))
      | none =>
        -- A dot at the end stands for a directory that is there, so it makes none.
        if rest.all Pathname.stays && rest.contains "." then (t, .error .missing)
        else makeFrom (t.set (at_ ++ [name]) (.directory [])) (at_ ++ [name]) true rest

/-- Make the directory that a written path names, and those that lead to it. -/
def makePath (t : FileTree) (p : Pathname) : FileTree × Except FileProblem FilePath :=
  t.change p.text fun t => t.makeFrom p.start false p.names

end FileTree

end Playbook
