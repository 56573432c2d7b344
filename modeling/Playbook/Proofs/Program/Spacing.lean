import Playbook.Proofs.Program.Blame
import Playbook.Proofs.Program.Comments
import Playbook.Proofs.Program.Renumbering

/-!
# `Proofs.Program.Spacing` — blank lines and blanks at the ends of lines

Blank lines are dropped before anything else looks at them, and so are blanks at the end of a line, be it code, a comment or a line
of a block. A carriage return before a line feed is such a blank. So a source can be spaced in another way: it gives the same program,
or the same failure, which names the same line by its new number.

Inside a block blank lines count, because they are lines of the prompt.

## Contents
- **Lines that are spaced.** `Spacing`, with the lines `before` and `after`, the number that a line gets, and `Outside` of blocks.
- **Reading.** `Spacing.agrees`: the lines that are read are the same but for the numbers.
- **Statement.** `parse_respaced`.
-/

namespace Playbook.Program

open Text

/-- What becomes of the lines of a source when it is spaced in another way. -/
inductive Spacing where
  /-- A line stays, and may end in other blanks. -/
  | kept (text ending ending' : List Char) (blank : ∀ c ∈ ending ++ ending', isBlank c = true)
  /-- A blank line is added. -/
  | added (blanks : List Char) (blank : ∀ c ∈ blanks, isBlank c = true)

namespace Spacing

/-! ## Lines that are spaced -/

/-- The lines of the source. -/
def before : List Spacing → List (List Char)
  | [] => []
  | .kept text ending _ _ :: rest => (text ++ ending) :: before rest
  | .added _ _ :: rest => before rest

/-- The lines of the source that is spaced in another way. -/
def after : List Spacing → List (List Char)
  | [] => []
  | .kept text _ ending' _ :: rest => (text ++ ending') :: after rest
  | .added blanks _ :: rest => blanks :: after rest

/-- How many lines stand before a line, after so many did. -/
def preceding : List Spacing → Nat → Nat
  | [], n => n
  | .kept _ _ _ _ :: _, 0 => 0
  | .kept _ _ _ _ :: rest, n + 1 => preceding rest n + 1
  | .added _ _ :: rest, n => preceding rest n + 1

/-- The number that a line gets. -/
def numberOf (m : List Spacing) (number : Nat) : Nat :=
  preceding m (number - 1) + 1

/-- No line is added to a block of raw lines; `inside` says whether the lines so far end in one. -/
def Outside : Bool → List Spacing → Prop
  | _, [] => True
  | inside, .kept text _ _ _ :: rest => Outside (if inside then trim text ≠ tripleQuote else Markup.opens text) rest
  | inside, .added _ _ :: rest => inside = false ∧ Outside false rest

instance decidableOutside : (inside : Bool) → (m : List Spacing) → Decidable (Outside inside m)
  | _, [] => .isTrue trivial
  | inside, .kept text _ _ _ :: rest => decidableOutside (if inside then trim text ≠ tripleQuote else Markup.opens text) rest
  | inside, .added _ _ :: rest =>
    have := decidableOutside false rest
    inferInstanceAs (Decidable (inside = false ∧ Outside false rest))

/-! ## Reading -/

variable {place : Nat → Nat} {number number' : Nat} {m : List Spacing}

/-- The lines that are read are the same, but for the numbers. -/
def Same (place : Nat → Nat) (read read' : List Line) : Prop :=
  read' = read.map (·.moved place)

theorem same_cons {x x' : Except Error (List Line)} (line : Line) (h : Agrees place (Same place) x x') :
    Agrees place (Same place) (x.map (line :: ·)) (x'.map (line.moved place :: ·)) := by
  cases h with
  | ok holds =>
    refine .ok ?_
    rw [Same, holds]
    rfl
  | error => exact .error

/-- A line that is being collected, with another number. -/
def movedOpened (place : Nat → Nat) (opened : Option (Line × List (List Char))) : Option (Line × List (List Char)) :=
  opened.map fun found => (found.1.moved place, found.2)

theorem trimEnd_kept (text : List Char) {ending ending' : List Char} (blank : ∀ c ∈ ending ++ ending', isBlank c = true) :
    trimEnd (text ++ ending) = trimEnd text ∧ trimEnd (text ++ ending') = trimEnd text :=
  ⟨trimEnd_append_blanks fun c hc => blank c (List.mem_append_left _ hc),
    trimEnd_append_blanks fun c hc => blank c (List.mem_append_right _ hc)⟩

section

variable {rest : List Spacing} {text ending ending' : List Char} {blank : ∀ c ∈ ending ++ ending', isBlank c = true}

/-- A line within a block, if the lines behind it are read alike. -/
theorem agrees_within (line : Line) (block : List (List Char))
    (houtside : Outside true (.kept text ending ending' blank :: rest))
    (hrest : ∀ opened, Outside opened.isSome rest → Agrees place (Same place) (Line.ofRaw opened (number + 1) (before rest))
      (Line.ofRaw (movedOpened place opened) (number' + 1) (after rest))) :
    Agrees place (Same place) (Line.ofRaw (some (line, block)) number ((text ++ ending) :: before rest))
      (Line.ofRaw (some (line.moved place, block)) number' ((text ++ ending') :: after rest)) := by
  obtain ⟨hend, hend'⟩ := trimEnd_kept text blank
  rw [Line.ofRaw_opened, Line.ofRaw_opened, ← trim_trimEnd, ← trim_trimEnd (text ++ ending'), hend, hend', trim_trimEnd]
  rw [Outside, if_pos rfl] at houtside
  by_cases hclose : trim text = tripleQuote
  · have hbetween : Outside false rest := by
      rw [hclose] at houtside
      exact houtside
    rw [if_pos hclose, if_pos hclose]
    exact same_cons { line with block := some block.reverse } (hrest none hbetween)
  · have hwithin : Outside true rest := by
      rw [decide_eq_true hclose] at houtside
      exact houtside
    rw [if_neg hclose, if_neg hclose]
    exact hrest (some (line, trimEnd text :: block)) hwithin

/-- A line outside of blocks, if the lines behind it are read alike. -/
theorem agrees_between (hfirst : place number = number') (houtside : Outside false (.kept text ending ending' blank :: rest))
    (hrest : ∀ opened, Outside opened.isSome rest → Agrees place (Same place) (Line.ofRaw opened (number + 1) (before rest))
      (Line.ofRaw (movedOpened place opened) (number' + 1) (after rest))) :
    Agrees place (Same place) (Line.ofRaw none number ((text ++ ending) :: before rest))
      (Line.ofRaw none number' ((text ++ ending') :: after rest)) := by
  obtain ⟨hend, hend'⟩ := trimEnd_kept text blank
  rw [Outside, if_neg Bool.false_ne_true, Markup.opens, ← Line.shape_congr hend'] at houtside
  rw [Line.ofRaw_eq, Line.ofRaw_eq, Line.shape_congr (hend.trans hend'.symm)]
  -- The line that is read gets the number that takes the place of its own.
  have hmoved (indent : Nat) (text' : List Char) (comment : Bool) :
      (⟨number', indent, text', comment, none⟩ : Line) = (⟨number, indent, text', comment, none⟩ : Line).moved place := by
    rw [Line.moved, hfirst]
  cases hshape : Line.shape (text ++ ending') with
  | blank =>
    rw [hshape] at houtside
    exact hrest none houtside
  | tab =>
    rw [← hfirst]
    exact .error
  | comment indent text' =>
    rw [hshape] at houtside
    simp only [hmoved]
    exact same_cons _ (hrest none houtside)
  | code indent text' =>
    rw [hshape] at houtside
    simp only [hmoved] at houtside ⊢
    cases hopens : opensBlock text' with
    | true =>
      rw [hopens] at houtside
      exact hrest (some (_, [])) houtside
    | false =>
      rw [hopens] at houtside
      exact same_cons _ (hrest none houtside)

end

theorem agrees (opened : Option (Line × List (List Char))) (hplace : ∀ n, place (number + n) = number' + preceding m n)
    (houtside : Outside opened.isSome m) :
    Agrees place (Same place) (Line.ofRaw opened number (before m)) (Line.ofRaw (movedOpened place opened) number' (after m)) := by
  induction m generalizing number number' opened with
  | nil =>
    cases opened with
    | none => exact .ok rfl
    | some found => exact .error
  | cons first rest ih =>
    cases first with
    | added blanks blank =>
      have hrest (n : Nat) : place (number + n) = number' + 1 + preceding rest n := by
        rw [hplace, preceding, Nat.add_assoc, Nat.add_comm 1]
      obtain ⟨rfl, hbetween⟩ : opened = none ∧ Outside false rest := by
        cases opened with
        | none => exact ⟨rfl, houtside.2⟩
        | some found => exact absurd houtside.1 Bool.noConfusion
      have hblank : Line.shape blanks = .blank := by
        rw [Line.shape, if_pos]
        rw [trim_trimEnd, trim_eq_nil_iff]
        exact blank
      have hread : Line.ofRaw none number' (blanks :: after rest) = Line.ofRaw none (number' + 1) (after rest) := by
        simp only [Line.ofRaw_eq, hblank]
      rw [before, after, movedOpened, Option.map_none, hread]
      exact ih none hrest hbetween
    | kept text ending ending' blank =>
      have hrest (n : Nat) : place (number + 1 + n) = number' + 1 + preceding rest n := by
        rw [Nat.add_assoc, Nat.add_comm 1, hplace, preceding, Nat.add_assoc, Nat.add_comm 1]
      cases opened with
      | some found => exact agrees_within found.1 found.2 houtside fun opened => ih opened hrest
      | none => exact agrees_between (hplace 0) houtside fun opened => ih opened hrest

/-- Lines that stay as they are. -/
def still (raws : List (List Char)) : List Spacing :=
  raws.map fun raw => .kept raw [] [] nofun

theorem before_still (raws : List (List Char)) : before (still raws) = raws := by
  induction raws with
  | nil => rfl
  | cons raw raws ih => exact congrArg₂ List.cons (List.append_nil raw) ih

theorem after_still (raws : List (List Char)) : after (still raws) = raws := by
  induction raws with
  | nil => rfl
  | cons raw raws ih => exact congrArg₂ List.cons (List.append_nil raw) ih

theorem preceding_still (raws : List (List Char)) (n : Nat) : preceding (still raws) n = n := by
  induction raws generalizing n with
  | nil => rfl
  | cons raw raws ih =>
    cases n with
    | zero => rfl
    | succ n => exact congrArg (· + 1) (ih n)

theorem outside_still (inside : Bool) (raws : List (List Char)) : Outside inside (still raws) := by
  induction raws generalizing inside with
  | nil => exact trivial
  | cons raw raws ih => exact ih _

/-- It does not matter with which number raw lines begin that stay as they are. -/
theorem agrees_still (raws : List (List Char)) (hplace : ∀ n, place (number + n) = number' + n) :
    Agrees place (Same place) (Line.ofRaw none number raws) (Line.ofRaw none number' raws) := by
  have hstill := agrees none (m := still raws) (fun n => (hplace n).trans (by rw [preceding_still])) (outside_still _ raws)
  rw [before_still, after_still] at hstill
  exact hstill

end Spacing

/-! ## Statement -/

variable {source respaced : String} {m : List Spacing}

/-- **Spacing does not matter.** When blank lines are added to a source outside of blocks, and the lines end in other blanks, which may
    be carriage returns, the source gives the same program, or it fails likewise and the failure names the line by its new number. -/
theorem parse_respaced (hbefore : splitOn '\n' source.toList = Spacing.before m)
    (hafter : splitOn '\n' respaced.toList = Spacing.after m) (houtside : Spacing.Outside false m) :
    (∃ p, parse source = .ok p ∧ parse respaced = .ok p) ∨ ∃ number fault, parse source = .error (unreadable number fault) ∧
      parse respaced = .error (unreadable (Spacing.numberOf m number) fault) := by
  have hread : Agrees (Spacing.numberOf m) (Spacing.Same (Spacing.numberOf m)) (Line.ofSource source)
      (Line.ofSource respaced) := by
    rw [Line.ofSource, Line.ofSource, Line.ofRaw_lines, Line.ofRaw_lines, hbefore, hafter]
    refine Spacing.agrees none (fun n => ?_) houtside
    rw [Spacing.numberOf, Nat.add_sub_cancel_left, Nat.add_comm]
  have hsame : parse? respaced = (parse? source).mapError (·.moved (Spacing.numberOf m)) := by
    refine (hread.bind fun read read' hsame => ?_).eq
    rw [hsame]
    exact Parser.program_agrees (.moved false read)
  cases hsource : parse? source with
  | ok p =>
    rw [hsource] at hsame
    exact .inl ⟨p, parse_of_ok hsource, parse_of_ok hsame⟩
  | error e =>
    rw [hsource] at hsame
    have hrespaced := parse_of_error (e := e.moved (Spacing.numberOf m)) hsame
    exact .inr ⟨e.line, e.fault, parse_of_error hsource, hrespaced⟩

/-- An agent with a prompt in a block, and a session. -/
def prompted : String :=
  "agent a:\n  prompt: \"\"\"\n    Hi\n\n    there\n  \"\"\"\nsession: a \"Go\"\n"

/-- The source `prompted` with carriage returns, blanks at the ends of lines and blank lines between them. -/
def spread : String :=
  "\t\nagent a:  \r\n  prompt: \"\"\" \r\n    Hi\r\n \r\n    there\t\r\n  \"\"\"\r\n   \r\nsession: a \"Go\"\r\n"

/-- What becomes of the lines. -/
def spreading : List Spacing :=
  [.added "\t".toList (List.all_eq_true.1 rfl),
    .kept "agent a:".toList [] "  \r".toList (List.all_eq_true.1 rfl),
    .kept "  prompt: \"\"\"".toList [] " \r".toList (List.all_eq_true.1 rfl),
    .kept "    Hi".toList [] "\r".toList (List.all_eq_true.1 rfl),
    .kept [] [] " \r".toList (List.all_eq_true.1 rfl),
    .kept "    there".toList [] "\t\r".toList (List.all_eq_true.1 rfl),
    .kept "  \"\"\"".toList [] "\r".toList (List.all_eq_true.1 rfl),
    .added "   \r".toList (List.all_eq_true.1 rfl),
    .kept "session: a \"Go\"".toList [] "\r".toList (List.all_eq_true.1 rfl),
    .kept [] [] [] nofun]

theorem parse_respaced_spread : ∃ p, parse prompted = .ok p ∧ parse spread = .ok p := by
  have hread : (parse prompted).toOption.isSome = true := by
    decide +kernel
  have hbefore : splitOn '\n' prompted.toList = Spacing.before spreading := by
    decide +kernel
  have hafter : splitOn '\n' spread.toList = Spacing.after spreading := by
    decide +kernel
  rcases parse_respaced hbefore hafter (by decide +kernel) with hsame | ⟨number, fault, hfailed, -⟩
  · exact hsame
  · rw [hfailed] at hread
    cases hread

end Playbook.Program
