import Playbook.Event.Basic

/-!
# `Playbook.Event.ToolUse` — events of tools

A backend reports which tool an agent used and with what input. Tools that work on files and to-do
lists become file and to-do events, any other tool a log line.

## Contents
- **Tools.** `Tool` says what a tool does, `Tool.named` which tool a name means.
- **Inputs.** `textOf` finds a path among the input's members.
- **Events.** `Event.ofToolUse`.
-/

namespace Playbook

/-- What a tool does. -/
inductive Tool where
  /-- It works on one file. -/
  | file (action : FileAction)
  /-- It takes a file elsewhere. -/
  | transfer (action : FileAction)
  /-- It writes the to-do list. -/
  | todos
  /-- It does something else. -/
  | other
  deriving DecidableEq

namespace Tool

/-- The tools that have events of their own, by their names. -/
def names : List (String × Tool) :=
  [("Read", .file .read), ("read_file", .file .read), ("Open", .file .opened),
   ("open_file", .file .opened), ("Write", .file .created), ("write_file", .file .created),
   ("create_file", .file .created), ("Edit", .file .edited), ("MultiEdit", .file .edited),
   ("edit_file", .file .edited), ("Delete", .file .deleted), ("delete_file", .file .deleted),
   ("Move", .transfer .moved), ("move_file", .transfer .moved), ("Copy", .transfer .copied),
   ("copy_file", .transfer .copied), ("Mkdir", .file .mkdir), ("create_directory", .file .mkdir),
   ("Rmdir", .file .rmdir), ("remove_directory", .file .rmdir), ("TodoWrite", .todos)]

/-- The tool that a name means. -/
def named (name : String) : Tool :=
  ((names.find? (·.1 == name)).map (·.2)).getD .other

end Tool

namespace Event

/-- A text among the members of an input. -/
def textAt (input : Json) (key : String) : Option String :=
  match input.get? key with
  | some (.str s) => some s
  | _ => none

/-- The text under the first key that has one. -/
def textOf (input : Json) (keys : List String) : Option String :=
  keys.findSome? (textAt input)

/-- The event of a tool that was not told which file to use. -/
def withoutPath (name : String) : Event :=
  .log .debug ("tool " ++ name ++ " without a path")

/-- The event of one item of a to-do list; an item without an id is called by its place, counted
    from one. -/
def ofTodo (place : Nat) (item : Json) : Event :=
  let action : TodoAction :=
    match textAt item "status" with
    | some "completed" => .complete
    | some "in_progress" => .update
    | _ => .add
  .todo action ((textAt item "id").getD (toString place)) (textAt item "content")

/-- The events of the items of a to-do list, the first of which has the given place. -/
def ofTodos (place : Nat) : List Json → List Event
  | [] => []
  | item :: rest => ofTodo place item :: ofTodos (place + 1) rest

/-- The events of one use of a tool. -/
def ofToolUse (name : String) (input : Json) : List Event :=
  match Tool.named name with
  | .file action =>
    match textOf input ["file_path", "path", "source"] with
    | some path => [.file action path none]
    | none => [withoutPath name]
  | .transfer action =>
    match textOf input ["source", "from", "path"] with
    | some path => [.file action path (textOf input ["destination", "to"])]
    | none => [withoutPath name]
  | .todos =>
    match input.get? "todos" with
    | some (.arr items) => ofTodos 1 items
    | _ => []
  | .other => [.log .info ("tool " ++ name)]

end Event

end Playbook
