import Playbook.Program.Basic

/-!
# `Proofs.Program.Listing` — the lines that a program consists of

Each line of a program that is no comment says one thing: it opens a block, or a clause of a `try`, or it is a statement or a
branch by itself. `Mark` is what a line says, and a *listing* is what all the lines of some statements say, from first to last,
each with its depth in the nesting.

## Contents
- **Marks.** `Mark`, `Listing`.
- **Kinds of statements.** `Stmt.isComment`, `Stmt.isSimple`.
- **Listings.** `Listing.ofStmt` and its like for clauses, for branches and for lists.
- **Depth.** `Listing.Under` says how deep the marks of a listing lie.
-/

namespace Playbook

namespace Program

/-! ## Marks -/

/-- What a line says. -/
inductive Mark where
  /-- It opens a `try`. -/
  | attempt
  /-- It opens the handler of a `try`, which may bind a name. -/
  | handler (name : Option String)
  /-- It opens the final body of a `try`. -/
  | final
  | parallel (policy : FailurePolicy)
  | loop (count : UInt32)
  /-- It is a statement without a body. -/
  | plain (stmt : Stmt)
  /-- It is a branch without a body. -/
  | branch (branch : Branch)

/-- Marks from first to last, each with its depth. -/
abbrev Listing := List (Nat × Mark)

end Program

open Program (Mark Listing)

/-! ## Kinds of statements -/

namespace Stmt

/-- Whether a statement is a comment. -/
def isComment : Stmt → Bool
  | comment _ => true
  | _ => false

/-- Whether a statement has no body and is no comment. -/
def isSimple : Stmt → Bool
  | session _ | resume _ | assign _ _ | output _ _ => true
  | _ => false

theorem isComment_of_isSimple {s : Stmt} (h : s.isSimple = true) : s.isComment = false := by
  cases s with
  | comment => cases h
  | _ => rfl

end Stmt

/-! ## Listings -/

namespace Program.Listing

mutual

/-- What the lines of a statement say. -/
def ofStmt (depth : Nat) : Stmt → Listing
  | .attempt body name handler final =>
    (depth, .attempt) ::
      (ofStmts (depth + 1) body ++
        (ofClause depth (.handler name) handler ++ ofClause depth .final final))
  | .parallel policy branches => (depth, .parallel policy) :: ofBranches (depth + 1) branches
  | .loop count body => (depth, .loop count) :: ofStmts (depth + 1) body
  | .comment _ => []
  | .session call => [(depth, .plain (.session call))]
  | .resume call => [(depth, .plain (.resume call))]
  | .assign name value => [(depth, .plain (.assign name value))]
  | .output name value => [(depth, .plain (.output name value))]

/-- What the lines of statements in a row say. -/
def ofStmts (depth : Nat) : List Stmt → Listing
  | [] => []
  | s :: rest => ofStmt depth s ++ ofStmts depth rest

/-- What the lines of a clause of a `try` say, if there is one; its header has the depth of the `try`. -/
def ofClause (depth : Nat) (header : Mark) : Option (List Stmt) → Listing
  | none => []
  | some body => (depth, header) :: ofStmts (depth + 1) body

/-- What the lines of a branch say. -/
def ofBranch (depth : Nat) : Branch → Listing
  | .mk name s => if s.isSimple then [(depth, .branch (.mk name s))] else ofStmt depth s

/-- What the lines of branches in a row say. -/
def ofBranches (depth : Nat) : List Branch → Listing
  | [] => []
  | b :: rest => ofBranch depth b ++ ofBranches depth rest

end

variable {depth : Nat}

theorem ofStmt_of_isSimple {s : Stmt} (h : s.isSimple = true) :
    ofStmt depth s = [(depth, .plain s)] := by
  cases s with
  | session call => rw [ofStmt]
  | resume call => rw [ofStmt]
  | assign name value => rw [ofStmt]
  | output name value => rw [ofStmt]
  | _ => cases h

theorem ofBranch_of_isSimple {name : Option String} {s : Stmt} (h : s.isSimple = true) :
    ofBranch depth (.mk name s) = [(depth, .branch (.mk name s))] := by
  rw [ofBranch, if_pos h]

theorem ofBranch_of_not_isSimple {name : Option String} {s : Stmt} (h : s.isSimple = false) :
    ofBranch depth (.mk name s) = ofStmt depth s := by
  rw [ofBranch, if_neg (Bool.eq_false_iff.1 h)]

/-- A statement that is no comment has a line. -/
theorem ofStmt_ne_nil {s : Stmt} (h : s.isComment = false) : ofStmt depth s ≠ [] := by
  cases s with
  | comment => cases h
  | _ =>
    rw [ofStmt]
    exact List.cons_ne_nil _ _

/-! ## Depth -/

/-- No mark lies less deep than a statement at a depth, and branches lie deeper. -/
def Under (depth : Nat) (listing : Listing) : Prop :=
  ∀ e ∈ listing, depth ≤ e.1 ∧ ∀ b, e.2 = .branch b → depth < e.1

theorem Under.append {m n : Listing} (hm : Under depth m) (hn : Under depth n) :
    Under depth (m ++ n) := by
  intro e he
  rcases List.mem_append.1 he with he | he
  · exact hm e he
  · exact hn e he

theorem Under.cons {mark : Mark} {n : Listing} (hmark : ∀ b, mark ≠ .branch b)
    (hn : Under depth n) : Under depth ((depth, mark) :: n) := by
  intro e he
  rcases List.mem_cons.1 he with rfl | he
  · exact ⟨Nat.le_refl _, fun b hb => absurd hb (hmark b)⟩
  · exact hn e he

theorem under_nil : Under depth [] := nofun

theorem Under.of_le {deeper : Nat} (hle : depth ≤ deeper) {n : Listing} (hn : Under deeper n) :
    Under depth n :=
  fun e he => ⟨Nat.le_trans hle (hn e he).1, fun b hb => Nat.lt_of_le_of_lt hle ((hn e he).2 b hb)⟩

mutual

theorem under_ofStmt (depth : Nat) : ∀ s : Stmt, Under depth (ofStmt depth s)
  | .attempt body name handler final => by
    have hhandler : ∀ b, Mark.handler name ≠ .branch b := nofun
    have hfinal : ∀ b, Mark.final ≠ .branch b := nofun
    rw [ofStmt]
    exact .cons nofun (.append (.of_le (Nat.le_succ _) (under_ofStmts _ body))
      (.append (under_ofClause depth hhandler handler) (under_ofClause depth hfinal final)))
  | .parallel policy branches => by
    rw [ofStmt]
    exact .cons nofun (under_ofBranches depth branches)
  | .loop count body => by
    rw [ofStmt]
    exact .cons nofun (.of_le (Nat.le_succ _) (under_ofStmts _ body))
  | .comment _ => by
    rw [ofStmt]
    exact under_nil
  | .session _ => by
    rw [ofStmt]
    exact .cons nofun under_nil
  | .resume _ => by
    rw [ofStmt]
    exact .cons nofun under_nil
  | .assign _ _ => by
    rw [ofStmt]
    exact .cons nofun under_nil
  | .output _ _ => by
    rw [ofStmt]
    exact .cons nofun under_nil

theorem under_ofStmts (depth : Nat) : ∀ ss : List Stmt, Under depth (ofStmts depth ss)
  | [] => by
    rw [ofStmts]
    exact under_nil
  | s :: rest => by
    rw [ofStmts]
    exact (under_ofStmt depth s).append (under_ofStmts depth rest)

theorem under_ofClause (depth : Nat) {header : Mark} (hheader : ∀ b, header ≠ .branch b) :
    ∀ clause : Option (List Stmt), Under depth (ofClause depth header clause)
  | none => by
    rw [ofClause]
    exact under_nil
  | some body => by
    rw [ofClause]
    exact .cons hheader (.of_le (Nat.le_succ _) (under_ofStmts _ body))

/-- A branch lies one deeper than the block that holds it. -/
theorem under_ofBranch (depth : Nat) : ∀ b : Branch, Under depth (ofBranch (depth + 1) b)
  | .mk name s => by
    rw [ofBranch]
    split
    · intro e he
      rw [List.mem_singleton.1 he]
      exact ⟨Nat.le_succ _, fun _ _ => Nat.lt_succ_self _⟩
    · exact .of_le (Nat.le_succ _) (under_ofStmt _ s)

theorem under_ofBranches (depth : Nat) :
    ∀ bs : List Branch, Under depth (ofBranches (depth + 1) bs)
  | [] => by
    rw [ofBranches]
    exact under_nil
  | b :: rest => by
    rw [ofBranches]
    exact (under_ofBranch depth b).append (under_ofBranches depth rest)

end

end Program.Listing

end Playbook
