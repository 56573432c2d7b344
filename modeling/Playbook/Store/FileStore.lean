import Playbook.Store.Basic
import Playbook.Store.FileTree
import Playbook.Text.Search

/-!
# `Playbook.Store.FileStore` — stores in a directory

A key is cut into segments at its slashes; empty segments are dropped and characters that file names should not have are
replaced. Each segment must then be a plain name, so that a key can never name anything outside the store's own directory.

## Contents
- **Keys.** `safeSegment`, `pathOfKey`.
- **Store.** `FileStore` and its operations.
-/

namespace Playbook

open Digest (Scheme)

/-! ## Keys -/

/-- The characters that file names should not have. -/
def unsafeChars : List Char := ['\\', ':', '*', '?', '"', '<', '>', '|']

/-- A segment of a key with its unsafe characters replaced. -/
def safeSegment (segment : List Char) : List Char :=
  segment.map fun c => if unsafeChars.contains c then '_' else c

/-- The names of the path for a key. -/
def pathOfKey (key : String) : Except Failure FilePath :=
  let segments := ((Text.splitOn '/' key.toList).filter (!·.isEmpty)).map safeSegment
  if segments.any fun s => s = ['.'] || s = ['.', '.'] then
    .error ((Failure.Cause.storage ("invalid storage key '" ++ key ++ "'")).failure.withContext
      "key" key)
  else if segments.isEmpty then Failure.raise (.storage "empty storage key")
  else .ok (segments.map String.ofList)

/-! ## Store -/

/-- A store in a directory. -/
structure FileStore where
  /-- The directory's path in the tree. -/
  root : FilePath
  /-- How the directory is called in references and messages. -/
  shown : String

namespace FileStore

/-- How a path below the directory is called. -/
def show_ (s : FileStore) (path : FilePath) : String :=
  let stop := if s.shown = "" || Text.endsWith s.shown.toList ['/'] then "" else "/"
  if path = [] then s.shown else s.shown ++ stop ++ "/".intercalate path

/-- The failure of an operation on a file. -/
def failure (verb path : String) (problem : FileProblem) : Failure :=
  (Failure.Cause.io ("Failed to " ++ verb ++ " " ++ path ++ ": " ++ problem.message)).failure

/-- Write bytes under a key: make the directories that its path needs, then write the file. -/
def put (s : FileStore) (scheme : Scheme) (key : String) (bytes : List UInt8) (mime : String)
    (t : FileTree) : Except Failure StoredContent × FileTree :=
  match pathOfKey key with
  | .error e => (.error e, t)
  | .ok path =>
    let above := s.show_ path.dropLast
    match t.change above (·.makeDirs (s.root ++ path.dropLast)) with
    | (t, .error e) => (.error (failure "create" above e), t)
    | (t, .ok ()) =>
      match t.change (s.show_ path) (·.write (s.root ++ path) bytes) with
      | (t, .error e) => (.error (failure "write" (s.show_ path) e), t)
      | (t, .ok ()) => (.ok (.of scheme ("file://" ++ s.show_ path) bytes mime), t)

/-- Read the bytes under a key. -/
def get (s : FileStore) (key : String) (t : FileTree) : Except Failure (Option (List UInt8)) :=
  match pathOfKey key with
  | .error e => .error e
  | .ok path =>
    match FileTree.lookUp (s.show_ path) (t.read (s.root ++ path)) with
    | .ok bytes => .ok (some bytes)
    | .error .missing => .ok none
    | .error e => .error (failure "read" (s.show_ path) e)

/-- How long a call takes: a moment for making directories, one for writing and one for reading, in which
    other branches of a run go on. A key that names no path is refused at once. -/
def latency : StoreCall → Nat
  | .put key => if (pathOfKey key).isOk then 2 else 0
  | .get key => if (pathOfKey key).isOk then 1 else 0

/-- The operations. -/
def operations (s : FileStore) (scheme : Scheme) : ContentStore FileTree where
  put key bytes mime t := s.put scheme key bytes mime t
  get key t := (s.get key t, t)
  latency call _ := latency call

end FileStore

end Playbook
