import Playbook.Json.Basic

/-!
# `Playbook.Toml.Table` — tables while they are filled

A table of a TOML document may be opened by a header, by a header of a table inside it, or by a dotted key, and how it
was opened decides what may still be added to it. Values are closed: nothing can be added to an array or a table that is
written as a value.

## Contents
- **The type.** `Origin`, `Node`, `Table`.
- **Descending.** `Table.modify` changes the table at a path.
- **Adding.** `Table.put` puts a value under a dotted key; `Table.define` and `Table.append` are what the two kinds of
  header do.
- **Value.** `Table.toJson`.
-/

namespace Playbook.Toml

/-- What opened a table. -/
inductive Origin where
  /-- Its own header. -/
  | header
  /-- The header of a table inside it. -/
  | inner
  /-- A dotted key. -/
  | dotted
  deriving DecidableEq, Repr

/-- What stands under a key. -/
inductive Node where
  /-- A value, to which nothing can be added. -/
  | value (v : Json)
  | table (origin : Origin) (entries : List (String × Node))
  /-- Tables that share a header, the last of them first. -/
  | tables (last : List (String × Node)) (before : List (List (String × Node)))

/-- The entries of a table. -/
abbrev Table := KeyMap Node

namespace Table

/-! ## Descending -/

/-- Change the table at a path with `f`. A table that is missing on the way is opened with an origin;
    one with an origin that `passes` refuses is not entered. Of tables that share a header the last
    one is entered. -/
def modify (origin : Origin) (passes : Origin → Bool) (f : Table → Option Table) :
    List String → Table → Option Table
  | [], t => f t
  | key :: path, t =>
    match t.get? key with
    | none => (modify origin passes f path []).map fun u => t.insert key (.table origin u)
    | some (.table o u) =>
      if passes o then (modify origin passes f path u).map fun u => t.insert key (.table o u)
      else none
    | some (.tables u before) =>
      (modify origin passes f path u).map fun u => t.insert key (.tables u before)
    | some (.value _) => none

/-! ## Adding -/

/-- Add an entry under a key that is free. -/
def add (key : String) (node : Node) (t : Table) : Option Table :=
  match t.get? key with
  | none => some (t.insert key node)
  | some _ => none

/-- Put a value into a table inside this one that was opened by a dotted key, or is opened by this
    one. -/
def putInside (table key : String) (v : Json) (t : Table) : Option Table :=
  match t.get? table with
  | none => some (t.insert table (.table .dotted [(key, .value v)]))
  | some (.table .dotted u) =>
    (Table.add key (.value v) u).map fun u => t.insert table (.table .dotted u)
  | some _ => none

/-- Put a value under a key with dots. No table on the way may have a header of its own. -/
def put (path : List String) (key : String) (v : Json) (t : Table) : Option Table :=
  match path.reverse with
  | [] => t.add key (.value v)
  | table :: before => t.modify .dotted (· ≠ .header) (putInside table key v) before.reverse

/-- Give a table its header. It must not have one yet, nor be opened by a dotted key. -/
def define (path : List String) (key : String) (t : Table) : Option Table :=
  t.modify .inner (fun _ => true) (fun t =>
    match t.get? key with
    | none => some (t.insert key (.table .header []))
    | some (.table .inner u) => some (t.insert key (.table .header u))
    | some _ => none) path

/-- Add one more to the tables that share a header. -/
def append (path : List String) (key : String) (t : Table) : Option Table :=
  t.modify .inner (fun _ => true) (fun t =>
    match t.get? key with
    | none => some (t.insert key (.tables [] []))
    | some (.tables u before) => some (t.insert key (.tables [] (u :: before)))
    | some _ => none) path

/-- Put a value into the table that the last header named. -/
def putBelow (header path : List String) (key : String) (v : Json) (t : Table) : Option Table :=
  t.modify .header (fun _ => true) (put path key v) header

end Table

/-! ## Value -/

mutual

/-- The value of a node. -/
def Node.toJson : Node → Json
  | .value v => v
  | .table _ entries => .obj (entriesToJson entries)
  | .tables last before => .arr (tablesToJson before [.obj (entriesToJson last)])

/-- The members of a table. -/
def entriesToJson : List (String × Node) → List (String × Json)
  | [] => []
  | (key, node) :: rest => (key, node.toJson) :: entriesToJson rest

/-- The values of tables, the last of which stands first, before other values. -/
def tablesToJson : List (List (String × Node)) → List Json → List Json
  | [], after => after
  | entries :: before, after => tablesToJson before (.obj (entriesToJson entries) :: after)

end

/-- The value of a table. -/
def Table.toJson (t : Table) : Json :=
  .obj (entriesToJson t)

end Playbook.Toml
