import Offside.Ast

/-!
# Statements inside statements

Where a statement stands: in which body of a program, and there in a loop or in none.

Main definitions:

- `Stmt.Stands`: a statement stands in a block, in the body of a loop or not.
- `Program.HasBody`: the bodies of a program, each with the return type of its function.
- `Program.JumpsPlaced`: breaks and continues stand in loops, returns in functions.
-/

namespace Offside

variable {α : Type}

/-- `s.Stands inLoop block`: the statement `s` stands in a block, however deep inside; `inLoop`
says whether it does so in the body of a loop that stands in the block too.  The block behind a
`for` loop is not its body. -/
inductive Stmt.Stands (s : Stmt α) : Bool → List (Stmt α) → Prop where
  | here {block : List (Stmt α)} (mem : s ∈ block) : Stands s false block
  | condBody {inLoop : Bool} {block body otherwise : List (Stmt α)} {note : α}
      {condition : Expr α} (mem : .cond note condition body otherwise ∈ block)
      (inside : Stands s inLoop body) : Stands s inLoop block
  | condOtherwise {inLoop : Bool} {block body otherwise : List (Stmt α)} {note : α}
      {condition : Expr α} (mem : .cond note condition body otherwise ∈ block)
      (inside : Stands s inLoop otherwise) : Stands s inLoop block
  | whileBody {inLoop : Bool} {block body : List (Stmt α)} {note : α} {condition : Expr α}
      (mem : .while note condition body ∈ block) (inside : Stands s inLoop body) :
      Stands s true block
  | forBody {inLoop : Bool} {block body otherwise : List (Stmt α)} {note : α} {item : String}
      {iterable : Expr α} (mem : .for note item iterable body otherwise ∈ block)
      (inside : Stands s inLoop body) : Stands s true block
  | forOtherwise {inLoop : Bool} {block body otherwise : List (Stmt α)} {note : α}
      {item : String} {iterable : Expr α} (mem : .for note item iterable body otherwise ∈ block)
      (inside : Stands s inLoop otherwise) : Stands s inLoop block

namespace Stmt

/-- What stands in a block stands in every larger one. -/
theorem Stands.mono {s : Stmt α} {inLoop : Bool} {block larger : List (Stmt α)}
    (hsubset : block ⊆ larger) (h : s.Stands inLoop block) : s.Stands inLoop larger := by
  cases h with
  | here mem => exact .here (hsubset mem)
  | condBody mem inside => exact .condBody (hsubset mem) inside
  | condOtherwise mem inside => exact .condOtherwise (hsubset mem) inside
  | whileBody mem inside => exact .whileBody (hsubset mem) inside
  | forBody mem inside => exact .forBody (hsubset mem) inside
  | forOtherwise mem inside => exact .forOtherwise (hsubset mem) inside

/-- The keyword of a statement that leaves a round of a loop. -/
def loopKeyword? : Stmt α → Option String
  | .continue _ => some "continue"
  | .break _ => some "break"
  | _ => none

end Stmt

namespace Program

/-- A block is a body of a program: of a function or method, with its return type, or of the top
level. -/
inductive HasBody (program : Program α) : Option Ty → List (Stmt α) → Prop where
  | function {fn : FunDef α} (mem : fn ∈ program.funs) : HasBody program (some fn.ret) fn.body
  | method {cls : ClassDef α} {fn : FunDef α} (isClass : cls ∈ program.classes)
      (mem : fn ∈ cls.methods) : HasBody program (some fn.ret) fn.body
  | top : HasBody program none program.stmts

/-- Statements that leave something stand in what they leave: breaks and continues in the body of
a loop, which belongs to the same body of the program, and returns in a function or method. -/
structure JumpsPlaced (program : Program α) : Prop where
  loops : ∀ {ret? block}, program.HasBody ret? block → ∀ {s : Stmt α} {inLoop},
    s.Stands inLoop block → s.loopKeyword?.isSome → inLoop = true
  returns : ∀ {ret? block}, program.HasBody ret? block → ∀ {note value inLoop},
    (Stmt.return note value).Stands inLoop block → ret?.isSome

end Program
end Offside
