import Playbook.Program.Basic
import Playbook.Json.Decode

/-!
# `Playbook.Program.Json` — programs as JSON

Statements and expressions are objects tagged with their kind under `stmt` and `expr`; a session call
puts its members beside the tag. What is absent is left out.

## Contents
- **Writing.** `Program.toJson` and the parts of it.
- **Reading.** `Program.ofJson?` and the parts of it. Statements are read down to the depth that JSON
  text may have.
-/

namespace Playbook

open Json (present slots required optional withDefault tagged asString asUInt32 listOf mapOf oneOf)

/-! ## Writing -/

/-- An agent as an object. -/
def Agent.toJson (a : Agent) : Json :=
  .obj (("name", .str a.name) :: present "model" .str a.model ++ present "prompt" .str a.prompt ++
    present "persist" .str a.persist)

/-- The members of a session call. -/
def SessionCall.members (c : SessionCall) : List (String × Json) :=
  present "agent" .str c.agent ++ [("title", .str c.title)]

/-- An expression as a tagged object. -/
def Expr.toJson : Expr → Json
  | .str value => .obj [("expr", .str "str"), ("value", .str value)]
  | .var name => .obj [("expr", .str "var"), ("name", .str name)]
  | .session call => .obj (("expr", .str "session") :: call.members)
  | .resume call => .obj (("expr", .str "resume") :: call.members)

mutual

/-- A statement as a tagged object. -/
def Stmt.toJson : Stmt → Json
  | .session call => .obj (("stmt", .str "session") :: call.members)
  | .resume call => .obj (("stmt", .str "resume") :: call.members)
  | .assign name value =>
    .obj [("stmt", .str "let"), ("name", .str name), ("value", value.toJson)]
  | .output name value =>
    .obj [("stmt", .str "output"), ("name", .str name), ("value", value.toJson)]
  | .attempt body catchName handler final =>
    .obj ([("stmt", .str "try"), ("body", .arr (Stmt.listToJson body))] ++
      present "catch_name" .str catchName ++ Stmt.blockMember "catch_body" handler ++
      Stmt.blockMember "finally_body" final)
  | .parallel policy branches =>
    .obj [("stmt", .str "parallel"), ("policy", .str policy.name),
      ("branches", .arr (Branch.listToJson branches))]
  | .loop count body =>
    .obj [("stmt", .str "repeat"), ("count", .nat count.toNat),
      ("body", .arr (Stmt.listToJson body))]
  | .comment text => .obj [("stmt", .str "comment"), ("text", .str text)]

/-- Statements as tagged objects. -/
def Stmt.listToJson : List Stmt → List Json
  | [] => []
  | s :: rest => s.toJson :: Stmt.listToJson rest

/-- A block as a member, left out when absent. -/
def Stmt.blockMember (key : String) : Option (List Stmt) → List (String × Json)
  | none => []
  | some block => [(key, .arr (Stmt.listToJson block))]

/-- A branch as an object. -/
def Branch.toJson : Branch → Json
  | .mk name stmt => .obj (present "name" .str name ++ [("stmt", stmt.toJson)])

/-- Branches as objects. -/
def Branch.listToJson : List Branch → List Json
  | [] => []
  | b :: rest => b.toJson :: Branch.listToJson rest

end

/-- A program as an object. -/
def Program.toJson (p : Program) : Json :=
  .obj [("header", .arr (p.header.map .str)),
    ("agents", .obj (p.agents.map fun a => (a.1, a.2.toJson))),
    ("statements", .arr (Stmt.listToJson p.statements))]

/-! ## Reading -/

/-- An agent from an object. -/
def Agent.ofJson? (v : Json) : Option Agent :=
  match slots ["name", "model", "prompt", "persist"] v with
  | some [name, model, prompt, persist] => do
    return { name := ← required asString name
             model := ← optional asString model
             prompt := ← optional asString prompt
             persist := ← optional asString persist }
  | _ => none

/-- A session call from its members. -/
def SessionCall.ofJson? (v : Json) : Option SessionCall :=
  match slots ["agent", "title"] v with
  | some [agent, title] => do
    return { agent := ← optional asString agent, title := ← required asString title }
  | _ => none

/-- A name and a value from their members. -/
def Expr.pair? {α β : Type} (fields : String × String) (f : Json → Option α)
    (g : Json → Option β) (v : Json) : Option (α × β) :=
  match slots [fields.1, fields.2] v with
  | some [a, b] => do return (← required f a, ← required g b)
  | _ => none

/-- The only field of a record. -/
def Expr.single? {α : Type} (field : String) (f : Json → Option α) (v : Json) : Option α :=
  match slots [field] v with
  | some [a] => required f a
  | _ => none

/-- The kinds of expressions. -/
def Expr.kinds : List String :=
  ["str", "var", "session", "resume"]

/-- An expression from a tagged object; it always stands inside a statement. -/
def Expr.ofJson? (v : Json) : Option Expr :=
  match tagged "expr" Expr.kinds true v with
  | some ("str", v) => (Expr.single? "value" asString v).map .str
  | some ("var", v) => (Expr.single? "name" asString v).map .var
  | some ("session", v) => (SessionCall.ofJson? v).map .session
  | some ("resume", v) => (SessionCall.ofJson? v).map .resume
  | _ => none

/-- The policies by their names. -/
def FailurePolicy.names : List (String × FailurePolicy) :=
  FailurePolicy.all.map fun p => (p.name, p)

/-- A branch, with its statement read by `stmt`. -/
def Branch.ofJson? (stmt : Json → Option Stmt) (v : Json) : Option Branch :=
  match slots ["name", "stmt"] v with
  | some [name, body] => do return .mk (← optional asString name) (← required stmt body)
  | _ => none

/-- The kinds of statements. -/
def Stmt.kinds : List String :=
  ["session", "resume", "let", "output", "try", "parallel", "repeat", "comment"]

/-- A statement from a tagged object, which may stand inside another one, with statements inside it
    down to a depth. -/
def Stmt.ofJsonWithin? (inside : Bool) : Nat → Json → Option Stmt
  | 0, _ => none
  | depth + 1, v =>
    let stmt := Stmt.ofJsonWithin? true depth
    match tagged "stmt" Stmt.kinds inside v with
    | some ("session", v) => (SessionCall.ofJson? v).map .session
    | some ("resume", v) => (SessionCall.ofJson? v).map .resume
    | some ("let", v) =>
      (Expr.pair? ("name", "value") asString Expr.ofJson? v).map fun p => .assign p.1 p.2
    | some ("output", v) =>
      (Expr.pair? ("name", "value") asString Expr.ofJson? v).map fun p => .output p.1 p.2
    | some ("try", v) =>
      match slots ["body", "catch_name", "catch_body", "finally_body"] v with
      | some [body, catchName, handler, final] => do
        return .attempt (← required (listOf stmt) body) (← optional asString catchName)
          (← optional (listOf stmt) handler) (← optional (listOf stmt) final)
      | _ => none
    | some ("parallel", v) =>
      match slots ["policy", "branches"] v with
      | some [policy, branches] => do
        return .parallel (← withDefault .failFast (oneOf FailurePolicy.names true) policy)
          (← required (listOf (Branch.ofJson? stmt)) branches)
      | _ => none
    | some ("repeat", v) =>
      (Expr.pair? ("count", "body") asUInt32 (listOf stmt) v).map fun p => .loop p.1 p.2
    | some ("comment", v) => (Expr.single? "text" asString v).map .comment
    | _ => none

/-- A statement from a tagged object. JSON text nests at most `depthLimit` levels, and each
    statement inside another takes at least one. -/
def Stmt.ofJson? (v : Json) : Option Stmt :=
  Stmt.ofJsonWithin? false Json.depthLimit v

/-- A program from an object; each part may be left out. -/
def Program.ofJson? (v : Json) : Option Program :=
  match slots ["header", "agents", "statements"] v with
  | some [header, agents, statements] => do
    return { header := ← withDefault [] (listOf asString) header
             agents := ← withDefault [] (mapOf Agent.ofJson?) agents
             statements := ← withDefault [] (listOf Stmt.ofJson?) statements }
  | _ => none

end Playbook
