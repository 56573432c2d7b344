import Playbook.CommandLine.Work
import Playbook.Store.Memory

/-!
# `Playbook.CommandLine.Reach` — the files that an order can look at

An order looks at the files that it names, and a run also at its store and at the records of the agents of its program.
Nothing else that stands in the tree can change the answer, apart from files that stand in the way of a write. Paths are
listed in an order in which a directory comes before what stands in it.

## Contents
- **Paths.** `starts`, `Pathname.passes`, `Pathname.place`.
- **Named files.** `Order.files`.
- **Records.** `Workplace.recordPaths`.
- **All.** `Workplace.reach`.
-/

namespace Playbook

/-! ## Paths -/

/-- The starts of a path, the path itself included. -/
def starts (path : FilePath) : List FilePath :=
  (List.range path.length).map fun n => path.take (n + 1)

namespace Pathname

/-- The places that following names from a place passes. -/
def passesFrom (at_ : FilePath) : List String → List FilePath
  | [] => []
  | name :: rest =>
    let next :=
      if Pathname.stays name then at_ else if name = ".." then at_.dropLast else at_ ++ [name]
    next :: passesFrom next rest

/-- The places that following a written path passes. -/
def passes (p : Pathname) : List FilePath :=
  passesFrom p.start p.names

/-- The place where following a written path ends. -/
def place (p : Pathname) : FilePath :=
  p.passes.getLast?.getD p.start

end Pathname

namespace CommandLine

/-! ## Named files -/

/-- The files that a command names. -/
def Command.files : Command → List String
  | .check file => [file]
  | .seal_ file _ out => file :: out.toList
  | .verify manifest => [manifest]
  | .run order => [order.manifest]

/-- The files that an order names. -/
def Order.files (o : Order) : List String :=
  o.config.toList ++ o.command.files

namespace Workplace

/-! ## Records -/

/-- The paths of a run's store and of the records of the agents of its program and of the default agent. -/
def recordPaths (w : Workplace) (s : Settings) (o : RunOrder) : Work (List FilePath) := do
  let s := override s o
  let manifest ← w.readManifest o.manifest
  let program ← orComplain .failed (Program.parse manifest.programText)
  let store := w.pathname s.storeDir
  let agents := defaultAgentName :: program.agents.map (·.2.name)
  let records := agents.filterMap fun agent =>
    (pathOfKey (memoryKey manifest.runId s.principalId agent)).toOption
  return store.passes ++ (records.flatMap starts).map (store.place ++ ·)

/-! ## All -/

/-- The paths of the files that an order names, and of what is on the way to them. -/
def namedPaths (w : Workplace) (o : Order) : List FilePath :=
  o.files.flatMap fun file => (w.pathname file).passes

/-- The paths of the store and the records that an order can look at, given the files that it names. -/
def reach (w : Workplace) (o : Order) (t : FileTree) : List FilePath :=
  let work : Work (List FilePath) := do
    let s ← w.settingsFor o
    match o.command with
    | .run order => w.recordPaths s order
    | _ => return []
  match (work.run.run t).1 with
  | .ok paths => paths
  | .error _ => []

end Workplace

end CommandLine

end Playbook
