import Offside.Ast

/-!
# Everywhere in a tree

The expressions of a tree, and properties of single expressions that all of them have.

Main definitions:

- `Expr.All`, `Stmt.All`, `FunDef.All`, `ClassDef.All` and `Program.All`: all expressions of a
  tree have a property.
- `Expr.exprs`, `Stmt.exprs` and `Program.exprs`: the expressions of a tree in a list.
- `Expr.Spelled`: an expression is such that a source can spell it.

Main results:

- Theorem `Expr.All.here`: an expression is one of its own expressions.
- Theorem `Program.All.mono`: what all expressions of a program have follows from what they have.
- Theorem `Program.all_iff`: a property of all expressions of a program is one of each in the list.
- Theorem `Expr.All.within`: what all expressions have, all have that are in one of them.
-/

namespace Offside

variable {α : Type}

/-! ## Expressions -/

mutual

/-- An expression and all expressions in it have a property. -/
def Expr.All (P : Expr α → Prop) : Expr α → Prop
  | .literal note value => P (.literal note value)
  | .id note name => P (.id note name)
  | .binOp note op left right => P (.binOp note op left right) ∧ left.All P ∧ right.All P
  | .uniOp note op operand => P (.uniOp note op operand) ∧ operand.All P
  | .call note name genericArgs arguments =>
    P (.call note name genericArgs arguments) ∧ Expr.AllOf P arguments
  | .construct note name arguments => P (.construct note name arguments) ∧ Expr.AllOf P arguments
  | .builtin1 note name argument => P (.builtin1 note name argument) ∧ argument.All P
  | .builtin2 note name left right =>
    P (.builtin2 note name left right) ∧ left.All P ∧ right.All P
  | .methodCall note object method arguments =>
    P (.methodCall note object method arguments) ∧ object.All P ∧ Expr.AllOf P arguments
  | .lookup note object field => P (.lookup note object field) ∧ object.All P
  | .index note object position => P (.index note object position) ∧ object.All P ∧ position.All P
  | .listLiteral note elements => P (.listLiteral note elements) ∧ Expr.AllOf P elements
  | .ternary note ifTrue condition ifFalse =>
    P (.ternary note ifTrue condition ifFalse) ∧ ifTrue.All P ∧ condition.All P ∧ ifFalse.All P
  | .comprehension note kind result item iterable none =>
    P (.comprehension note kind result item iterable none) ∧ iterable.All P ∧ result.All P
  | .comprehension note kind result item iterable (some filter) =>
    P (.comprehension note kind result item iterable (some filter)) ∧ iterable.All P ∧
      filter.All P ∧ result.All P

/-- All expressions in several expressions have a property. -/
def Expr.AllOf (P : Expr α → Prop) : List (Expr α) → Prop
  | [] => True
  | first :: rest => first.All P ∧ Expr.AllOf P rest

end

/-- An expression is one of its own expressions. -/
theorem Expr.All.here {P : Expr α → Prop} {e : Expr α} (h : e.All P) : P e := by
  match e, h with
  | .literal .., h | .id .., h => exact h
  | .binOp .., h | .uniOp .., h | .call .., h | .construct .., h | .builtin1 .., h
  | .builtin2 .., h | .methodCall .., h | .lookup .., h | .index .., h | .listLiteral .., h
  | .ternary .., h | .comprehension _ _ _ _ _ none, h
  | .comprehension _ _ _ _ _ (some _), h => exact h.1

/-- Expressions in a row have a property throughout if each has it. -/
theorem Expr.allOf_iff {P : Expr α → Prop} {es : List (Expr α)} :
    Expr.AllOf P es ↔ ∀ e ∈ es, e.All P := by
  induction es with
  | nil => simp [Expr.AllOf]
  | cons first rest ih => rw [Expr.AllOf, ih, List.forall_mem_cons]

mutual

/-- What all expressions in an expression have follows from what they have. -/
theorem Expr.All.mono {P Q : Expr α → Prop} (himp : ∀ e, P e → Q e) {e : Expr α}
    (h : e.All P) : e.All Q := by
  match e, h with
  | .literal .., h | .id .., h => exact himp _ h
  | .binOp .., h | .builtin2 .., h | .index .., h =>
    exact ⟨himp _ h.1, h.2.1.mono himp, h.2.2.mono himp⟩
  | .uniOp .., h | .builtin1 .., h | .lookup .., h => exact ⟨himp _ h.1, h.2.mono himp⟩
  | .call .., h | .construct .., h | .listLiteral .., h => exact ⟨himp _ h.1, h.2.mono himp⟩
  | .methodCall .., h => exact ⟨himp _ h.1, h.2.1.mono himp, h.2.2.mono himp⟩
  | .ternary .., h => exact ⟨himp _ h.1, h.2.1.mono himp, h.2.2.1.mono himp, h.2.2.2.mono himp⟩
  | .comprehension _ _ _ _ _ none, h =>
    exact ⟨himp _ h.1, h.2.1.mono himp, h.2.2.mono himp⟩
  | .comprehension _ _ _ _ _ (some _), h =>
    exact ⟨himp _ h.1, h.2.1.mono himp, h.2.2.1.mono himp, h.2.2.2.mono himp⟩

/-- So it does for expressions in a row. -/
theorem Expr.AllOf.mono {P Q : Expr α → Prop} (himp : ∀ e, P e → Q e) {es : List (Expr α)}
    (h : Expr.AllOf P es) : Expr.AllOf Q es := by
  match es, h with
  | [], _ => trivial
  | _ :: _, h => exact ⟨h.1.mono himp, h.2.mono himp⟩

end

mutual

/-- An expression and all expressions in it. -/
def Expr.exprs (e : Expr α) : List (Expr α) :=
  e :: match e with
    | .literal .. | .id .. => []
    | .binOp _ _ left right | .builtin2 _ _ left right => left.exprs ++ right.exprs
    | .uniOp _ _ operand => operand.exprs
    | .call _ _ _ arguments | .construct _ _ arguments => Expr.exprsOf arguments
    | .builtin1 _ _ argument => argument.exprs
    | .methodCall _ object _ arguments => object.exprs ++ Expr.exprsOf arguments
    | .lookup _ object _ => object.exprs
    | .index _ object position => object.exprs ++ position.exprs
    | .listLiteral _ elements => Expr.exprsOf elements
    | .ternary _ ifTrue condition ifFalse => ifTrue.exprs ++ (condition.exprs ++ ifFalse.exprs)
    | .comprehension _ _ result _ iterable none => iterable.exprs ++ result.exprs
    | .comprehension _ _ result _ iterable (some filter) =>
      iterable.exprs ++ (filter.exprs ++ result.exprs)

/-- All expressions in several expressions. -/
def Expr.exprsOf : List (Expr α) → List (Expr α)
  | [] => []
  | first :: rest => first.exprs ++ Expr.exprsOf rest

end

mutual

/-- A property of all expressions in an expression is one of each of them. -/
theorem Expr.all_iff {P : Expr α → Prop} {e : Expr α} : e.All P ↔ ∀ part ∈ e.exprs, P part := by
  match e with
  | .literal .. | .id .. => simp [Expr.All, Expr.exprs]
  | .binOp .. | .builtin2 .. | .index .. | .comprehension _ _ _ _ _ none =>
    rw [Expr.All, Expr.exprs, List.forall_mem_cons, List.forall_mem_append, Expr.all_iff,
      Expr.all_iff]
  | .uniOp .. | .builtin1 .. | .lookup .. =>
    rw [Expr.All, Expr.exprs, List.forall_mem_cons, Expr.all_iff]
  | .call .. | .construct .. | .listLiteral .. =>
    rw [Expr.All, Expr.exprs, List.forall_mem_cons, Expr.allOf_iff_exprsOf]
  | .methodCall .. =>
    rw [Expr.All, Expr.exprs, List.forall_mem_cons, List.forall_mem_append, Expr.all_iff,
      Expr.allOf_iff_exprsOf]
  | .ternary .. | .comprehension _ _ _ _ _ (some _) =>
    rw [Expr.All, Expr.exprs, List.forall_mem_cons, List.forall_mem_append, List.forall_mem_append,
      Expr.all_iff, Expr.all_iff, Expr.all_iff]

/-- So it is for expressions in a row. -/
theorem Expr.allOf_iff_exprsOf {P : Expr α → Prop} {es : List (Expr α)} :
    Expr.AllOf P es ↔ ∀ part ∈ Expr.exprsOf es, P part := by
  match es with
  | [] => simp [Expr.AllOf, Expr.exprsOf]
  | first :: rest =>
    rw [Expr.AllOf, Expr.exprsOf, List.forall_mem_append, Expr.all_iff, Expr.allOf_iff_exprsOf]

end

mutual

/-- What all expressions in an expression have, all have that are in one of these. -/
theorem Expr.All.within {P : Expr α → Prop} {e : Expr α} (h : e.All P) :
    e.All fun part => part.All P := by
  match e, h with
  | .literal .., h | .id .., h => exact h
  | .binOp .., h | .builtin2 .., h | .index .., h => exact ⟨h, h.2.1.within, h.2.2.within⟩
  | .uniOp .., h | .builtin1 .., h | .lookup .., h => exact ⟨h, h.2.within⟩
  | .call .., h | .construct .., h | .listLiteral .., h => exact ⟨h, h.2.within⟩
  | .methodCall .., h => exact ⟨h, h.2.1.within, h.2.2.within⟩
  | .comprehension _ _ _ _ _ none, h => exact ⟨h, h.2.1.within, h.2.2.within⟩
  | .ternary .., h | .comprehension _ _ _ _ _ (some _), h =>
    exact ⟨h, h.2.1.within, h.2.2.1.within, h.2.2.2.within⟩

/-- So it is for expressions in a row. -/
theorem Expr.AllOf.within {P : Expr α → Prop} {es : List (Expr α)} (h : Expr.AllOf P es) :
    Expr.AllOf (fun part => part.All P) es := by
  match es, h with
  | [], _ => trivial
  | _ :: _, h => exact ⟨h.1.within, h.2.within⟩

end

/-! ## Statements -/

mutual

/-- All expressions in a statement have a property. -/
def Stmt.All (P : Expr α → Prop) : Stmt α → Prop
  | .assign _ _ value => value.All P
  | .fieldAssign _ object _ value => object.All P ∧ value.All P
  | .indexAssign _ object position value => object.All P ∧ position.All P ∧ value.All P
  | .expr _ value | .return _ value => value.All P
  | .cond _ condition body otherwise =>
    condition.All P ∧ Stmt.AllOf P body ∧ Stmt.AllOf P otherwise
  | .while _ condition body => condition.All P ∧ Stmt.AllOf P body
  | .for _ _ iterable body otherwise =>
    iterable.All P ∧ Stmt.AllOf P body ∧ Stmt.AllOf P otherwise
  | .pass _ | .continue _ | .break _ => True

/-- All expressions in several statements have a property. -/
def Stmt.AllOf (P : Expr α → Prop) : List (Stmt α) → Prop
  | [] => True
  | first :: rest => first.All P ∧ Stmt.AllOf P rest

end

mutual

/-- What all expressions in a statement have follows from what they have. -/
theorem Stmt.All.mono {P Q : Expr α → Prop} (himp : ∀ e, P e → Q e) {s : Stmt α}
    (h : s.All P) : s.All Q := by
  match s, h with
  | .assign .., h | .expr .., h | .return .., h => exact Expr.All.mono himp h
  | .fieldAssign .., h => exact ⟨h.1.mono himp, h.2.mono himp⟩
  | .indexAssign .., h => exact ⟨h.1.mono himp, h.2.1.mono himp, h.2.2.mono himp⟩
  | .cond .., h | .for .., h => exact ⟨h.1.mono himp, h.2.1.mono himp, h.2.2.mono himp⟩
  | .while .., h => exact ⟨h.1.mono himp, h.2.mono himp⟩
  | .pass .., _ | .continue .., _ | .break .., _ => trivial

/-- So it does for statements in a row. -/
theorem Stmt.AllOf.mono {P Q : Expr α → Prop} (himp : ∀ e, P e → Q e) {block : List (Stmt α)}
    (h : Stmt.AllOf P block) : Stmt.AllOf Q block := by
  match block, h with
  | [], _ => trivial
  | _ :: _, h => exact ⟨h.1.mono himp, h.2.mono himp⟩

end

/-- Statements in a row have a property throughout if each has it. -/
theorem Stmt.allOf_iff {P : Expr α → Prop} {block : List (Stmt α)} :
    Stmt.AllOf P block ↔ ∀ s ∈ block, s.All P := by
  induction block with
  | nil => simp [Stmt.AllOf]
  | cons first rest ih => rw [Stmt.AllOf, ih, List.forall_mem_cons]

mutual

/-- The expressions in a statement. -/
def Stmt.exprs : Stmt α → List (Expr α)
  | .assign _ _ value | .expr _ value | .return _ value => value.exprs
  | .fieldAssign _ object _ value => object.exprs ++ value.exprs
  | .indexAssign _ object position value => object.exprs ++ (position.exprs ++ value.exprs)
  | .cond _ condition body otherwise =>
    condition.exprs ++ (Stmt.exprsOf body ++ Stmt.exprsOf otherwise)
  | .while _ condition body => condition.exprs ++ Stmt.exprsOf body
  | .for _ _ iterable body otherwise =>
    iterable.exprs ++ (Stmt.exprsOf body ++ Stmt.exprsOf otherwise)
  | .pass _ | .continue _ | .break _ => []

/-- The expressions in several statements. -/
def Stmt.exprsOf : List (Stmt α) → List (Expr α)
  | [] => []
  | first :: rest => first.exprs ++ Stmt.exprsOf rest

end

mutual

/-- A property of all expressions in a statement is one of each of them. -/
theorem Stmt.all_iff {P : Expr α → Prop} {s : Stmt α} : s.All P ↔ ∀ part ∈ s.exprs, P part := by
  match s with
  | .assign .. | .expr .. | .return .. => rw [Stmt.All, Stmt.exprs, Expr.all_iff]
  | .fieldAssign .. =>
    rw [Stmt.All, Stmt.exprs, List.forall_mem_append, Expr.all_iff, Expr.all_iff]
  | .indexAssign .. =>
    rw [Stmt.All, Stmt.exprs, List.forall_mem_append, List.forall_mem_append, Expr.all_iff,
      Expr.all_iff, Expr.all_iff]
  | .cond .. | .for .. =>
    rw [Stmt.All, Stmt.exprs, List.forall_mem_append, List.forall_mem_append, Expr.all_iff,
      Stmt.allOf_iff_exprsOf, Stmt.allOf_iff_exprsOf]
  | .while .. =>
    rw [Stmt.All, Stmt.exprs, List.forall_mem_append, Expr.all_iff, Stmt.allOf_iff_exprsOf]
  | .pass _ | .continue _ | .break _ => simp [Stmt.All, Stmt.exprs]

/-- So it is for statements in a row. -/
theorem Stmt.allOf_iff_exprsOf {P : Expr α → Prop} {block : List (Stmt α)} :
    Stmt.AllOf P block ↔ ∀ part ∈ Stmt.exprsOf block, P part := by
  match block with
  | [] => simp [Stmt.AllOf, Stmt.exprsOf]
  | first :: rest =>
    rw [Stmt.AllOf, Stmt.exprsOf, List.forall_mem_append, Stmt.all_iff, Stmt.allOf_iff_exprsOf]

end

/-! ## Declarations and programs -/

/-- All expressions in a function have a property. -/
def FunDef.All (P : Expr α → Prop) (fn : FunDef α) : Prop := Stmt.AllOf P fn.body

/-- All expressions in a class have a property. -/
def ClassDef.All (P : Expr α → Prop) (cls : ClassDef α) : Prop := ∀ fn ∈ cls.methods, fn.All P

/-- All expressions in a program have a property. -/
structure Program.All (P : Expr α → Prop) (program : Program α) : Prop where
  funs : ∀ fn ∈ program.funs, fn.All P
  classes : ∀ cls ∈ program.classes, cls.All P
  stmts : Stmt.AllOf P program.stmts

/-- What all expressions in a program have follows from what they have. -/
theorem Program.All.mono {P Q : Expr α → Prop} (himp : ∀ e, P e → Q e) {program : Program α}
    (h : program.All P) : program.All Q where
  funs fn hfn := (h.funs fn hfn).mono himp
  classes cls hcls fn hfn := (h.classes cls hcls fn hfn).mono himp
  stmts := h.stmts.mono himp

/-- The expressions in a program: of its functions, of the methods of its classes, and of the
statements behind them. -/
def Program.exprs (program : Program α) : List (Expr α) :=
  program.funs.flatMap (fun fn => Stmt.exprsOf fn.body) ++
    (program.classes.flatMap (fun cls => cls.methods.flatMap fun fn => Stmt.exprsOf fn.body) ++
      Stmt.exprsOf program.stmts)

/-- A property of all expressions in a program is one of each of them. -/
theorem Program.all_iff {P : Expr α → Prop} {program : Program α} :
    program.All P ↔ ∀ part ∈ program.exprs, P part := by
  have onFun (fn : FunDef α) : fn.All P ↔ ∀ part ∈ Stmt.exprsOf fn.body, P part :=
    Stmt.allOf_iff_exprsOf
  simp only [Program.exprs, List.forall_mem_append, List.forall_mem_flatMap, ← onFun,
    ← Stmt.allOf_iff_exprsOf]
  exact ⟨fun h => ⟨h.funs, h.classes, h.stmts⟩, fun ⟨hfuns, hclasses, hstmts⟩ =>
    ⟨hfuns, hclasses, hstmts⟩⟩

/-! ## Expressions of a source -/

/-- An expression is not the creation of an object, which no source spells out: it is told from
other calls when it is checked. -/
def Expr.NotCreation : Expr α → Prop
  | .construct .. => False
  | _ => True

/-- An expression is such that a source can spell it: no creation of an object, and no name with
the mark of the new names of items. -/
def Expr.Spelled : Expr α → Prop
  | .construct .. => False
  | .id _ name => '$' ∉ name.toList
  | _ => True

/-- What can be spelled does not create an object as such. -/
theorem Expr.Spelled.notCreation {e : Expr α} (h : e.Spelled) : e.NotCreation := by
  cases e <;> trivial

end Offside
