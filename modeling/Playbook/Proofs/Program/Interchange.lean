import Playbook.Program.Json
import Playbook.Proofs.Json.Indented
import Playbook.Proofs.Json.Members

/-!
# `Proofs.Program.Interchange` — programs survive their JSON form

Whatever a program holds, its indented JSON text is read back as the same program, as long as the text does not nest too deeply.
Each kind of statement has one lemma, which says that the statement is restored if the parts of it are; the induction over
statements, blocks and branches puts them together.

## Contents
- **Restoring.** `Restored`: what is written for a value can be printed, and is read back within its own depth.
- **Calls, agents and expressions.** `SessionCall.ofJson?_members`, `Agent.ofJson?_toJson`, `Expr.ofJson?_toJson`.
- **Statements.** `Stmt.readsKinds` for the reader; `Stmt.Restores`, one lemma for each kind of statement, and `Stmt.restores`.
- **Programs.** `Program.whole_toJson`, `Program.ofJson?_toJson`, `Program.ofJson?_indented`.
-/

namespace Playbook

open Json (present slots slotOf required optional withDefault tagged asString asUInt32 listOf mapOf oneOf)

/-! ## Restoring -/

namespace Json

variable {α : Type}

/-- What is written for a value can be printed, and is read back by a reader that goes as deep as it is. -/
structure Restored (read : Nat → Json → Option α) (write : α → Json) (a : α) : Prop where
  whole : (write a).Whole
  read : ∀ n, (write a).depth ≤ n → read n (write a) = some a

/-- A list is restored if its items are. -/
theorem restored_list {read : Nat → Json → Option α} {write : α → Json} {items : List α}
    (h : ∀ a ∈ items, Restored read write a) :
    Restored (fun n => listOf (read n)) (fun items => .arr (items.map write)) items where
  whole := by
    refine whole_arr.2 fun v hv => ?_
    obtain ⟨a, ha, rfl⟩ := List.mem_map.1 hv
    exact (h a ha).whole
  read n hn := by
    refine listOf_written fun a ha => (h a ha).read n ?_
    have hitems := depthAll_le_iff.1 (Nat.le_of_succ_le hn)
    exact hitems _ (List.mem_map_of_mem ha)

end Json

/-! ## Calls, agents and expressions -/

namespace SessionCall

theorem keys_members (c : SessionCall) : (c.members.map (·.1)).Sublist ["agent", "title"] := by
  rw [members, List.map_append]
  exact (Json.keys_present "agent" .str c.agent).append (List.Sublist.refl _)

theorem whole_members (c : SessionCall) : ∀ m ∈ c.members, m.2.Whole := by
  refine List.forall_mem_append.2 ⟨Json.forall_mem_present.2 fun s _ => Json.whole_str s, ?_⟩
  exact List.forall_mem_singleton.2 (Json.whole_str c.title)

/-- A call is read back from its members. -/
theorem ofJson?_members (c : SessionCall) : ofJson? (.obj c.members) = some c := by
  have hkeys : (c.members.map (·.1)).Nodup := c.keys_members.nodup (by decide)
  rw [ofJson?, Json.slots_of_nodup hkeys]
  simp only [members, List.map_cons, List.map_nil, KeyMap.get?_append, Json.get?_present, KeyMap.get?,
    String.reduceEq, if_true, if_false, Option.none_or, Option.or_none, Json.optional_str]
  rfl

end SessionCall

namespace Agent

theorem whole_toJson (a : Agent) : a.toJson.Whole := by
  have htext : ∀ (name : String) (text : Option String), ∀ m ∈ present name .str text, m.2.Whole :=
    fun name text => Json.forall_mem_present.2 fun s _ => Json.whole_str s
  refine Json.whole_obj.2 (List.forall_mem_append.2 ⟨List.forall_mem_append.2 ⟨?_, htext _ _⟩, htext _ _⟩)
  exact List.forall_mem_cons.2 ⟨Json.whole_str a.name, htext _ _⟩

theorem keys_nodup (a : Agent) :
    ((("name", .str a.name) :: present "model" .str a.model ++ present "prompt" .str a.prompt ++
      present "persist" .str a.persist : List (String × Json)).map (·.1)).Nodup := by
  rw [List.map_append, List.map_append, List.map_cons]
  refine List.Nodup.sublist ((((Json.keys_present _ _ _).cons_cons "name").append (Json.keys_present _ _ _)).append
    (Json.keys_present _ _ _)) ?_
  show ["name", "model", "prompt", "persist"].Nodup
  decide

/-- An agent is read back from its object. -/
theorem ofJson?_toJson (a : Agent) : ofJson? a.toJson = some a := by
  rw [ofJson?, toJson, Json.slots_of_nodup a.keys_nodup]
  simp only [List.map_cons, List.map_nil, List.cons_append, KeyMap.get?_append, Json.get?_present, KeyMap.get?,
    String.reduceEq, if_true, if_false, Option.none_or, Option.or_none, Json.optional_str]
  rfl

end Agent

namespace Expr

/-- A pair of members is read back by their readers. -/
theorem pair?_obj {α β : Type} (fields : String × String) (hfields : fields.1 ≠ fields.2) {f : Json → Option α}
    {g : Json → Option β} {v w : Json} {a : α} {b : β} (hv : f v = some a) (hw : g w = some b) :
    pair? fields f g (.obj [(fields.1, v), (fields.2, w)]) = some (a, b) := by
  have hkeys : (([(fields.1, v), (fields.2, w)] : List (String × Json)).map (·.1)).Nodup := by
    simpa using hfields
  rw [pair?, Json.slots_of_nodup hkeys]
  simp only [List.map_cons, List.map_nil, KeyMap.get?, if_neg hfields.symm, if_true, slotOf, required, hv, hw]
  rfl

/-- A member that stands alone is read back by its reader. -/
theorem single?_obj {α : Type} {field : String} {f : Json → Option α} {v : Json} {a : α} (hv : f v = some a) :
    single? field f (.obj [(field, v)]) = some a := by
  rw [single?, Json.slots_of_nodup (by simp)]
  simp only [List.map_cons, List.map_nil, KeyMap.get?, if_true, slotOf, required, hv]

theorem whole_toJson (e : Expr) : e.toJson.Whole := by
  cases e with
  | str value => exact Json.whole_obj.2 (by simp)
  | var name => exact Json.whole_obj.2 (by simp)
  | session call => exact Json.whole_obj.2 (List.forall_mem_cons.2 ⟨Json.whole_str _, call.whole_members⟩)
  | resume call => exact Json.whole_obj.2 (List.forall_mem_cons.2 ⟨Json.whole_str _, call.whole_members⟩)

/-- The record of a kind of expression, from a tagged object. -/
theorem tagged_toJson (kind : String) (members : List (String × Json)) (hkeys : ("expr" :: members.map (·.1)).Nodup)
    (hmembers : ∀ m ∈ members, m.2.Whole) :
    tagged "expr" kinds true (.obj (("expr", .str kind) :: members)) = some (kind, .obj members) :=
  Json.tagged_of_nodup kind kinds true hkeys
    (Json.readableMembers_of_isIntegral (Json.whole_obj.2 hmembers).integral)

/-- An expression is read back from its tagged object. -/
theorem ofJson?_toJson (e : Expr) : ofJson? e.toJson = some e := by
  have hcall : ∀ c : SessionCall, ("expr" :: c.members.map (·.1)).Nodup :=
    fun c => (c.keys_members.cons_cons "expr").nodup (by decide)
  cases e with
  | str value =>
    rw [ofJson?, toJson, tagged_toJson "str" [("value", .str value)] (by simp) (by simp)]
    show (single? "value" asString (.obj [("value", .str value)])).map Expr.str = _
    rw [single?_obj (a := value) rfl]
    rfl
  | var name =>
    rw [ofJson?, toJson, tagged_toJson "var" [("name", .str name)] (by simp) (by simp)]
    show (single? "name" asString (.obj [("name", .str name)])).map Expr.var = _
    rw [single?_obj (a := name) rfl]
    rfl
  | session call =>
    rw [ofJson?, toJson, tagged_toJson "session" call.members (hcall call) call.whole_members]
    show (SessionCall.ofJson? (.obj call.members)).map Expr.session = _
    rw [call.ofJson?_members]
    rfl
  | resume call =>
    rw [ofJson?, toJson, tagged_toJson "resume" call.members (hcall call) call.whole_members]
    show (SessionCall.ofJson? (.obj call.members)).map Expr.resume = _
    rw [call.ofJson?_members]
    rfl

end Expr

/-! ## Statements -/

theorem Stmt.listToJson_eq_map (ss : List Stmt) : Stmt.listToJson ss = ss.map Stmt.toJson := by
  induction ss with
  | nil => rfl
  | cons s rest ih => rw [Stmt.listToJson, ih, List.map_cons]

theorem Branch.listToJson_eq_map (bs : List Branch) : Branch.listToJson bs = bs.map Branch.toJson := by
  induction bs with
  | nil => rfl
  | cons b rest ih => rw [Branch.listToJson, ih, List.map_cons]

theorem Stmt.blockMember_eq_present (key : String) (block : Option (List Stmt)) :
    Stmt.blockMember key block = present key (fun ss => .arr (ss.map Stmt.toJson)) block := by
  cases block with
  | none => rfl
  | some ss => rw [Stmt.blockMember, Stmt.listToJson_eq_map, present]

/-- A branch is restored, with its statement read as inside another one. -/
def Branch.Restores (b : Branch) : Prop :=
  Json.Restored (fun n => Branch.ofJson? (Stmt.ofJsonWithin? true n)) Branch.toJson b

namespace Stmt

/-- A statement is restored, inside another one and on its own. -/
def Restores (s : Stmt) : Prop :=
  ∀ inside, Json.Restored (Stmt.ofJsonWithin? inside) Stmt.toJson s

/-- A statement is restored if its members have different names and can be printed, and if a reader that goes as deep as they are
makes the statement out of them. -/
theorem restores_of_members {s : Stmt} (kind : String) {members : List (String × Json)}
    (hs : s.toJson = .obj (("stmt", .str kind) :: members)) (hkeys : ("stmt" :: members.map (·.1)).Nodup)
    (hmembers : ∀ m ∈ members, m.2.Whole)
    (hread : ∀ inside n, (∀ m ∈ members, m.2.depth ≤ n) →
      tagged "stmt" kinds inside (.obj (("stmt", .str kind) :: members)) = some (kind, .obj members) →
        Stmt.ofJsonWithin? inside (n + 1) (.obj (("stmt", .str kind) :: members)) = some s) : s.Restores := by
  intro inside
  refine ⟨?_, fun n hn => ?_⟩
  · rw [hs]
    exact Json.whole_obj.2 (List.forall_mem_cons.2 ⟨Json.whole_str kind, hmembers⟩)
  · rw [hs] at hn ⊢
    cases n with
    | zero => cases hn
    | succ n =>
      have hdepth := Json.depthMembers_le_iff.1 (Nat.le_of_succ_le_succ hn)
      exact hread inside n (fun m hm => hdepth m (List.mem_cons_of_mem _ hm))
        (Json.tagged_of_nodup kind kinds inside hkeys
          (Json.readableMembers_of_isIntegral (Json.whole_obj.2 hmembers).integral))

/-- Each kind of statement has a reader for its record, which reads the statements in it one level less deep. -/
structure ReadsKinds (inside : Bool) (n : Nat) (v : Json) : Prop where
  session {r : Json} : tagged "stmt" kinds inside v = some ("session", r) →
    Stmt.ofJsonWithin? inside (n + 1) v = (SessionCall.ofJson? r).map .session
  resume {r : Json} : tagged "stmt" kinds inside v = some ("resume", r) →
    Stmt.ofJsonWithin? inside (n + 1) v = (SessionCall.ofJson? r).map .resume
  assign {r : Json} : tagged "stmt" kinds inside v = some ("let", r) →
    Stmt.ofJsonWithin? inside (n + 1) v = (Expr.pair? ("name", "value") asString Expr.ofJson? r).map fun p => .assign p.1 p.2
  output {r : Json} : tagged "stmt" kinds inside v = some ("output", r) →
    Stmt.ofJsonWithin? inside (n + 1) v = (Expr.pair? ("name", "value") asString Expr.ofJson? r).map fun p => .output p.1 p.2
  attempt {r : Json} {body catchName handler final : Json.Slot} : tagged "stmt" kinds inside v = some ("try", r) →
    slots ["body", "catch_name", "catch_body", "finally_body"] r = some [body, catchName, handler, final] →
    Stmt.ofJsonWithin? inside (n + 1) v = do
      return .attempt (← required (listOf (Stmt.ofJsonWithin? true n)) body) (← optional asString catchName)
        (← optional (listOf (Stmt.ofJsonWithin? true n)) handler) (← optional (listOf (Stmt.ofJsonWithin? true n)) final)
  parallel {r : Json} {policy branches : Json.Slot} : tagged "stmt" kinds inside v = some ("parallel", r) →
    slots ["policy", "branches"] r = some [policy, branches] →
    Stmt.ofJsonWithin? inside (n + 1) v = do
      return .parallel (← withDefault .failFast (oneOf FailurePolicy.names true) policy)
        (← required (listOf (Branch.ofJson? (Stmt.ofJsonWithin? true n))) branches)
  loop {r : Json} : tagged "stmt" kinds inside v = some ("repeat", r) →
    Stmt.ofJsonWithin? inside (n + 1) v =
      (Expr.pair? ("count", "body") asUInt32 (listOf (Stmt.ofJsonWithin? true n)) r).map fun p => .loop p.1 p.2
  comment {r : Json} : tagged "stmt" kinds inside v = some ("comment", r) →
    Stmt.ofJsonWithin? inside (n + 1) v = (Expr.single? "text" asString r).map .comment

theorem readsKinds (inside : Bool) (n : Nat) (v : Json) : ReadsKinds inside n v := by
  constructor <;> intros <;> simp only [Stmt.ofJsonWithin?, *]

theorem restores_session (call : SessionCall) : (Stmt.session call).Restores := by
  refine restores_of_members "session" rfl
    ((call.keys_members.cons_cons "stmt").nodup (by decide)) call.whole_members fun inside n _ htagged => ?_
  rw [(readsKinds inside n _).session htagged, call.ofJson?_members]
  rfl

theorem restores_resume (call : SessionCall) : (Stmt.resume call).Restores := by
  refine restores_of_members "resume" rfl
    ((call.keys_members.cons_cons "stmt").nodup (by decide)) call.whole_members fun inside n _ htagged => ?_
  rw [(readsKinds inside n _).resume htagged, call.ofJson?_members]
  rfl

/-- A statement that binds a name is restored. -/
theorem restores_binding {s : Stmt} (kind : String) {name : String} {value : Expr}
    (hs : s.toJson = .obj [("stmt", .str kind), ("name", .str name), ("value", value.toJson)])
    (hread : ∀ inside n v, tagged "stmt" kinds inside v = some (kind, .obj [("name", .str name), ("value", value.toJson)]) →
      Expr.pair? ("name", "value") asString Expr.ofJson? (.obj [("name", .str name), ("value", value.toJson)]) =
        some (name, value) → Stmt.ofJsonWithin? inside (n + 1) v = some s) : s.Restores := by
  refine restores_of_members kind hs (by show ["stmt", "name", "value"].Nodup; decide) ?_ fun inside n _ htagged => ?_
  · simp [value.whole_toJson]
  · exact hread inside n _ htagged
      (Expr.pair?_obj ("name", "value") (by decide) rfl value.ofJson?_toJson)

theorem restores_assign (name : String) (value : Expr) : (Stmt.assign name value).Restores :=
  restores_binding "let" rfl fun inside n v htagged hpair => by
    rw [(readsKinds inside n v).assign htagged, hpair]
    rfl

theorem restores_output (name : String) (value : Expr) : (Stmt.output name value).Restores :=
  restores_binding "output" rfl fun inside n v htagged hpair => by
    rw [(readsKinds inside n v).output htagged, hpair]
    rfl

theorem restores_comment (text : String) : (Stmt.comment text).Restores := by
  refine restores_of_members "comment" rfl (by show ["stmt", "text"].Nodup; decide) (by simp)
    fun inside n _ htagged => ?_
  rw [(readsKinds inside n _).comment htagged, Expr.single?_obj (f := asString) (v := .str text) rfl]
  rfl

/-- The statements of a block are restored as an array. -/
theorem restored_block {body : List Stmt} (h : ∀ s ∈ body, s.Restores) :
    Json.Restored (fun n => listOf (Stmt.ofJsonWithin? true n)) (fun ss => .arr (ss.map toJson)) body :=
  Json.restored_list fun s hs => h s hs true

/-- A block that may be left out is read back. -/
theorem optional_block {key : String} {clause : Option (List Stmt)} {n : Nat}
    (h : ∀ block ∈ clause, ∀ s ∈ block, s.Restores)
    (hdepth : ∀ m ∈ present key (fun block : List Stmt => .arr (block.map toJson)) clause, m.2.depth ≤ n) :
    optional (listOf (Stmt.ofJsonWithin? true n)) (slotOf (clause.map fun block => .arr (block.map toJson))) =
      some clause := by
  have hblocks := Json.forall_mem_present (P := fun v => v.depth ≤ n).1 hdepth
  exact Json.optional_written (fun block hblock => (restored_block (h block hblock)).read n (hblocks block hblock))
    fun _ _ hnull => nomatch hnull

theorem restores_loop (count : UInt32) {body : List Stmt} (hbody : ∀ s ∈ body, s.Restores) :
    (Stmt.loop count body).Restores := by
  have hblock := restored_block hbody
  have hcount : (Json.nat count.toNat).Whole :=
    ⟨rfl, Json.fits_nat (Nat.lt_trans count.toNat_lt_size (by decide))⟩
  refine restores_of_members "repeat" (by rw [toJson, listToJson_eq_map])
    (by show ["stmt", "count", "body"].Nodup; decide) ?_ fun inside n hdepth htagged => ?_
  · simp [hcount, hblock.whole]
  · have hpair := Expr.pair?_obj ("count", "body") (by decide) (Json.asUInt32_nat count)
      (hblock.read n (hdepth ("body", _) (by simp)))
    rw [(readsKinds inside n _).loop htagged, hpair]
    rfl

theorem restores_attempt (catchName : Option String) {body : List Stmt} {handler final : Option (List Stmt)}
    (hbody : ∀ s ∈ body, s.Restores) (hhandler : ∀ block ∈ handler, ∀ s ∈ block, s.Restores)
    (hfinal : ∀ block ∈ final, ∀ s ∈ block, s.Restores) :
    (Stmt.attempt body catchName handler final).Restores := by
  let write : List Stmt → Json := fun ss => .arr (ss.map toJson)
  let members : List (String × Json) := ("body", write body) :: (present "catch_name" .str catchName ++
    present "catch_body" write handler ++ present "finally_body" write final)
  have hwritten : (Stmt.attempt body catchName handler final).toJson = .obj (("stmt", .str "try") :: members) := by
    rw [toJson, blockMember_eq_present, blockMember_eq_present, listToJson_eq_map]
    rfl
  have hkeys : ("stmt" :: members.map (·.1)).Nodup := by
    rw [List.map_cons, List.map_append, List.map_append]
    refine List.Nodup.sublist (((((Json.keys_present _ _ _).append (Json.keys_present _ _ _)).append
      (Json.keys_present _ _ _)).cons_cons "body").cons_cons "stmt") ?_
    show ["stmt", "body", "catch_name", "catch_body", "finally_body"].Nodup
    decide
  have hblock := restored_block hbody
  refine restores_of_members "try" hwritten hkeys ?_ fun inside n hdepth htagged => ?_
  · refine List.forall_mem_cons.2 ⟨hblock.whole, List.forall_mem_append.2 ⟨List.forall_mem_append.2 ⟨?_, ?_⟩, ?_⟩⟩
    · exact Json.forall_mem_present.2 fun s _ => Json.whole_str s
    · exact Json.forall_mem_present.2 fun block h => (restored_block (hhandler block h)).whole
    · exact Json.forall_mem_present.2 fun block h => (restored_block (hfinal block h)).whole
  · obtain ⟨hbodyDepth, hdepth⟩ := List.forall_mem_cons.1 hdepth
    obtain ⟨hdepth, hfinalDepth⟩ := List.forall_mem_append.1 hdepth
    obtain ⟨_, hhandlerDepth⟩ := List.forall_mem_append.1 hdepth
    have hbodyRead : listOf (Stmt.ofJsonWithin? true n) (write body) = some body := hblock.read n hbodyDepth
    have hhandlerRead : optional (listOf (Stmt.ofJsonWithin? true n)) (slotOf (handler.map write)) = some handler :=
      optional_block hhandler hhandlerDepth
    have hfinalRead : optional (listOf (Stmt.ofJsonWithin? true n)) (slotOf (final.map write)) = some final :=
      optional_block hfinal hfinalDepth
    have hslots := Json.slots_of_nodup (List.nodup_cons.1 hkeys).2 ["body", "catch_name", "catch_body", "finally_body"]
    simp only [members, List.map_cons, List.map_nil, KeyMap.get?, KeyMap.get?_append, Json.get?_present,
      String.reduceEq, if_true, if_false, Option.none_or, Option.or_none] at hslots
    rw [(readsKinds inside n _).attempt htagged hslots]
    simp only [Json.optional_str, hhandlerRead, hfinalRead, Json.required_written, hbodyRead]
    rfl

/-- A parallel block is restored if its branches are. -/
theorem restores_parallel (policy : FailurePolicy) {branches : List Branch} (h : ∀ b ∈ branches, b.Restores) :
    (Stmt.parallel policy branches).Restores := by
  have hblock := Json.restored_list h
  refine restores_of_members "parallel" (by rw [toJson, Branch.listToJson_eq_map])
    (by show ["stmt", "policy", "branches"].Nodup; decide) ?_ fun inside n hdepth htagged => ?_
  · simp [hblock.whole]
  · have hbranches := hblock.read n (hdepth ("branches", _) (by simp))
    have hpolicy : oneOf FailurePolicy.names true (.str policy.name) = some policy := by
      cases policy <;> rfl
    have hkeys : (([("policy", .str policy.name), ("branches", .arr (branches.map Branch.toJson))] :
        List (String × Json)).map (·.1)).Nodup := by
      show ["policy", "branches"].Nodup
      decide
    have hslots := Json.slots_of_nodup hkeys ["policy", "branches"]
    simp only [List.map_cons, List.map_nil, KeyMap.get?, String.reduceEq, if_true, if_false] at hslots
    rw [(readsKinds inside n _).parallel htagged hslots]
    simp only [Json.withDefault_written, Json.required_written, hpolicy, hbranches]
    rfl

end Stmt

/-- A branch is restored if its statement is. -/
theorem Branch.restores_mk (name : Option String) {stmt : Stmt} (h : stmt.Restores) : (Branch.mk name stmt).Restores := by
  have hkeys : ((present "name" .str name ++ [("stmt", stmt.toJson)]).map (·.1)).Nodup := by
    rw [List.map_append]
    exact ((Json.keys_present _ _ _).append (List.Sublist.refl _)).nodup (by decide : ["name", "stmt"].Nodup)
  constructor
  · rw [Branch.toJson]
    refine Json.whole_obj.2 (List.forall_mem_append.2 ⟨Json.forall_mem_present.2 fun s _ => Json.whole_str s, ?_⟩)
    exact List.forall_mem_singleton.2 (h true).whole
  · intro n hn
    rw [Branch.toJson] at hn ⊢
    have hdepth := Json.depthMembers_le_iff.1 (Nat.le_of_succ_le hn)
    have hstmt := (h true).read n (hdepth ("stmt", stmt.toJson) (by simp))
    have hslots := Json.slots_of_nodup hkeys ["name", "stmt"]
    simp only [List.map_cons, List.map_nil, KeyMap.get?, KeyMap.get?_append, Json.get?_present, String.reduceEq,
      if_true, if_false, Option.none_or, Option.or_none] at hslots
    simp only [Branch.ofJson?, hslots, Json.optional_str, Json.required_written, hstmt]
    rfl

mutual

/-- Every statement is restored. -/
theorem Stmt.restores : ∀ s : Stmt, s.Restores
  | .session call => Stmt.restores_session call
  | .resume call => Stmt.restores_resume call
  | .assign name value => Stmt.restores_assign name value
  | .output name value => Stmt.restores_output name value
  | .attempt body catchName handler final =>
    Stmt.restores_attempt catchName (Stmt.restores_block body) (Stmt.restores_clause handler) (Stmt.restores_clause final)
  | .parallel policy branches => Stmt.restores_parallel policy (Branch.restores_all branches)
  | .loop count body => Stmt.restores_loop count (Stmt.restores_block body)
  | .comment text => Stmt.restores_comment text

theorem Stmt.restores_block : ∀ ss : List Stmt, ∀ s ∈ ss, s.Restores
  | [] => List.forall_mem_nil _
  | s :: rest => List.forall_mem_cons.2 ⟨Stmt.restores s, Stmt.restores_block rest⟩

theorem Stmt.restores_clause : ∀ clause : Option (List Stmt), ∀ block ∈ clause, ∀ s ∈ block, s.Restores
  | none => nofun
  | some block => fun _ h => by
    cases h
    exact Stmt.restores_block block

theorem Branch.restores : ∀ b : Branch, b.Restores
  | .mk name stmt => Branch.restores_mk name (Stmt.restores stmt)

theorem Branch.restores_all : ∀ bs : List Branch, ∀ b ∈ bs, b.Restores
  | [] => List.forall_mem_nil _
  | b :: rest => List.forall_mem_cons.2 ⟨Branch.restores b, Branch.restores_all rest⟩

end

/-! ## Programs -/

namespace Program

variable {p : Program}

/-- The statements of a program are restored as an array. -/
theorem restored_statements (p : Program) :
    Json.Restored (fun n => listOf (Stmt.ofJsonWithin? false n)) (fun ss => .arr (ss.map Stmt.toJson)) p.statements :=
  Json.restored_list fun s _ => s.restores false

theorem whole_toJson (p : Program) : p.toJson.Whole := by
  refine Json.whole_obj.2 ?_
  rw [Stmt.listToJson_eq_map]
  simp only [List.forall_mem_cons]
  refine ⟨Json.whole_arr.2 ?_, Json.whole_obj.2 ?_, p.restored_statements.whole, List.forall_mem_nil _⟩
  · exact List.forall_mem_map.2 fun line _ => Json.whole_str line
  · exact List.forall_mem_map.2 fun a _ => a.2.whole_toJson

/-- A program whose agents stand in order is read back from its object. -/
theorem ofJson?_toJson (hagents : KeyMap.Sorted p.agents) (hdepth : p.toJson.depth ≤ Json.depthLimit) :
    ofJson? p.toJson = some p := by
  have hmembers := Json.depthMembers_le_iff.1 (Nat.le_of_succ_le hdepth)
  rw [Stmt.listToJson_eq_map] at hmembers
  have hstatements : listOf Stmt.ofJson? (.arr (p.statements.map Stmt.toJson)) = some p.statements :=
    p.restored_statements.read _ (hmembers ("statements", _) (by simp))
  have hagents := Json.mapOf_written hagents fun a _ => a.2.ofJson?_toJson
  have hkeys : (([("header", .arr (p.header.map .str)), ("agents", .obj (p.agents.map fun a => (a.1, a.2.toJson))),
      ("statements", .arr (p.statements.map Stmt.toJson))] : List (String × Json)).map (·.1)).Nodup := by
    show ["header", "agents", "statements"].Nodup
    decide
  have hslots := Json.slots_of_nodup hkeys ["header", "agents", "statements"]
  simp only [List.map_cons, List.map_nil, KeyMap.get?, String.reduceEq, if_true, if_false] at hslots
  rw [ofJson?, toJson, Stmt.listToJson_eq_map, hslots]
  simp only [Json.withDefault_written, Json.listOf_str, hagents, hstatements]
  rfl

/-- A program whose agents stand in order is read back from the indented text of its object, also with white space behind it. -/
theorem ofJson?_indented (hagents : KeyMap.Sorted p.agents) (hdepth : p.toJson.depth ≤ Json.depthLimit)
    {after : List Char} (hafter : Json.Blank after) :
    (Json.readTree (p.toJson.indented ++ String.ofList after)).bind ofJson? = some p := by
  rw [Json.readTree_indented p.whole_toJson hdepth hafter, Option.bind_some, ofJson?_toJson hagents hdepth]

end Program

end Playbook
