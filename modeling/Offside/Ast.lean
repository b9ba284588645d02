import Offside.Ast.Operator
import Offside.Source.Location

/-!
# Programs

Programs as trees of statements and expressions.  Every node carries a note: its location
in an unchecked program, its type and location in a checked one.

* `Program.map` changes the notes of a program.
* `Program.untyped` drops the types of a checked program.
-/

namespace Offside

/-- The value of a literal. -/
inductive LiteralValue where
  | num (value : Int)
  | bool (value : Bool)
  | none
  /-- The creation of a type variable. -/
  | typeVar
  deriving DecidableEq, Repr, Inhabited

/-- A literal. -/
structure Literal (α : Type) where
  note : α
  value : LiteralValue
  deriving DecidableEq, Repr, Inhabited

/-- An expression. -/
inductive Expr (α : Type) where
  | literal (note : α) (value : Literal α)
  | id (note : α) (name : String)
  | binOp (note : α) (op : BinOp) (left right : Expr α)
  | uniOp (note : α) (op : UniOp) (operand : Expr α)
  | call (note : α) (name : String) (genericArgs : List Ty) (arguments : List (Expr α))
  /-- The call of a class, which creates an object. -/
  | construct (note : α) (name : String) (arguments : List (Expr α))
  | builtin1 (note : α) (name : String) (argument : Expr α)
  | builtin2 (note : α) (name : String) (left right : Expr α)
  | methodCall (note : α) (object : Expr α) (method : String) (arguments : List (Expr α))
  | lookup (note : α) (object : Expr α) (field : String)
  | index (note : α) (object position : Expr α)
  | listLiteral (note : α) (elements : List (Expr α))
  | ternary (note : α) (ifTrue condition ifFalse : Expr α)
  | comprehension (note : α) (kind : ComprehensionKind) (result : Expr α) (item : String)
      (iterable : Expr α) (filter : Option (Expr α))
  deriving Repr

/-- A statement. -/
inductive Stmt (α : Type) where
  | assign (note : α) (name : String) (value : Expr α)
  | fieldAssign (note : α) (object : Expr α) (field : String) (value : Expr α)
  | indexAssign (note : α) (object position value : Expr α)
  | expr (note : α) (value : Expr α)
  | return (note : α) (value : Expr α)
  | cond (note : α) (condition : Expr α) (body otherwise : List (Stmt α))
  | while (note : α) (condition : Expr α) (body : List (Stmt α))
  | for (note : α) (item : String) (iterable : Expr α) (body otherwise : List (Stmt α))
  | pass (note : α)
  | continue (note : α)
  | break (note : α)
  deriving Repr

/-- A parameter of a function. -/
structure Parameter where
  name : String
  ty : Ty
  deriving Repr, Inhabited

/-- The declaration of a variable or field with its type and first value. -/
structure VarInit (α : Type) where
  note : α
  name : String
  ty : Ty
  value : Literal α
  deriving Repr, Inhabited

/-- The definition of a function or method. -/
structure FunDef (α : Type) where
  note : α
  name : String
  parameters : List Parameter
  ret : Ty
  inits : List (VarInit α)
  body : List (Stmt α)
  deriving Repr

/-- The definition of a class. -/
structure ClassDef (α : Type) where
  note : α
  name : String
  /-- The names of the type parameters. -/
  generics : List String
  fields : List (VarInit α)
  methods : List (FunDef α)
  deriving Repr

/-- The first method of a class with a name. -/
def ClassDef.method? {α : Type} (cls : ClassDef α) (name : String) : Option (FunDef α) :=
  cls.methods.find? fun method => method.name = name

/-- A program: declarations, and then statements. -/
structure Program (α : Type) where
  note : α
  inits : List (VarInit α)
  funs : List (FunDef α)
  classes : List (ClassDef α)
  stmts : List (Stmt α)
  deriving Repr

variable {α β : Type}

/-- The note of an expression. -/
def Expr.note : Expr α → α
  | .literal note _ | .id note _ | .binOp note _ _ _ | .uniOp note _ _ | .call note _ _ _
  | .construct note _ _ | .builtin1 note _ _ | .builtin2 note _ _ _ | .methodCall note _ _ _
  | .lookup note _ _ | .index note _ _ | .listLiteral note _ | .ternary note _ _ _
  | .comprehension note _ _ _ _ _ => note

/-- The note of a statement. -/
def Stmt.note : Stmt α → α
  | .assign note _ _ | .fieldAssign note _ _ _ | .indexAssign note _ _ _ | .expr note _
  | .return note _ | .cond note _ _ _ | .while note _ _ | .for note _ _ _ _ | .pass note
  | .continue note | .break note => note

/-! ## Changing notes -/

/-- A literal with its note changed. -/
def Literal.map (f : α → β) (literal : Literal α) : Literal β := ⟨f literal.note, literal.value⟩

mutual

/-- An expression with all notes changed. -/
def Expr.map (f : α → β) : Expr α → Expr β
  | .literal note value => .literal (f note) (value.map f)
  | .id note name => .id (f note) name
  | .binOp note op left right => .binOp (f note) op (left.map f) (right.map f)
  | .uniOp note op operand => .uniOp (f note) op (operand.map f)
  | .call note name genericArgs arguments =>
    .call (f note) name genericArgs (Expr.mapAll f arguments)
  | .construct note name arguments => .construct (f note) name (Expr.mapAll f arguments)
  | .builtin1 note name argument => .builtin1 (f note) name (argument.map f)
  | .builtin2 note name left right => .builtin2 (f note) name (left.map f) (right.map f)
  | .methodCall note object method arguments =>
    .methodCall (f note) (object.map f) method (Expr.mapAll f arguments)
  | .lookup note object field => .lookup (f note) (object.map f) field
  | .index note object position => .index (f note) (object.map f) (position.map f)
  | .listLiteral note elements => .listLiteral (f note) (Expr.mapAll f elements)
  | .ternary note ifTrue condition ifFalse =>
    .ternary (f note) (ifTrue.map f) (condition.map f) (ifFalse.map f)
  | .comprehension note kind result item iterable none =>
    .comprehension (f note) kind (result.map f) item (iterable.map f) none
  | .comprehension note kind result item iterable (some filter) =>
    .comprehension (f note) kind (result.map f) item (iterable.map f) (some (filter.map f))

/-- Expressions with all notes changed. -/
def Expr.mapAll (f : α → β) : List (Expr α) → List (Expr β)
  | [] => []
  | first :: rest => first.map f :: Expr.mapAll f rest

end

mutual

/-- A statement with all notes changed. -/
def Stmt.map (f : α → β) : Stmt α → Stmt β
  | .assign note name value => .assign (f note) name (value.map f)
  | .fieldAssign note object field value =>
    .fieldAssign (f note) (object.map f) field (value.map f)
  | .indexAssign note object position value =>
    .indexAssign (f note) (object.map f) (position.map f) (value.map f)
  | .expr note value => .expr (f note) (value.map f)
  | .return note value => .return (f note) (value.map f)
  | .cond note condition body otherwise =>
    .cond (f note) (condition.map f) (Stmt.mapAll f body) (Stmt.mapAll f otherwise)
  | .while note condition body => .while (f note) (condition.map f) (Stmt.mapAll f body)
  | .for note item iterable body otherwise =>
    .for (f note) item (iterable.map f) (Stmt.mapAll f body) (Stmt.mapAll f otherwise)
  | .pass note => .pass (f note)
  | .continue note => .continue (f note)
  | .break note => .break (f note)

/-- Statements with all notes changed. -/
def Stmt.mapAll (f : α → β) : List (Stmt α) → List (Stmt β)
  | [] => []
  | first :: rest => first.map f :: Stmt.mapAll f rest

end

/-- A declaration with all notes changed. -/
def VarInit.map (f : α → β) (init : VarInit α) : VarInit β where
  note := f init.note
  name := init.name
  ty := init.ty
  value := init.value.map f

/-- A function with all notes changed. -/
def FunDef.map (f : α → β) (fn : FunDef α) : FunDef β where
  note := f fn.note
  name := fn.name
  parameters := fn.parameters
  ret := fn.ret
  inits := fn.inits.map (VarInit.map f)
  body := Stmt.mapAll f fn.body

/-- A class with all notes changed. -/
def ClassDef.map (f : α → β) (cls : ClassDef α) : ClassDef β where
  note := f cls.note
  name := cls.name
  generics := cls.generics
  fields := cls.fields.map (VarInit.map f)
  methods := cls.methods.map (FunDef.map f)

/-- A program with all notes changed. -/
def Program.map (f : α → β) (program : Program α) : Program β where
  note := f program.note
  inits := program.inits.map (VarInit.map f)
  funs := program.funs.map (FunDef.map f)
  classes := program.classes.map (ClassDef.map f)
  stmts := Stmt.mapAll f program.stmts

/-! ## Checked programs -/

/-- The note of a checked node: its type and its location. -/
structure Typed where
  ty : Ty
  location : Location
  deriving Repr, Inhabited

/-- The type of a checked expression. -/
def Expr.ty (expr : Expr Typed) : Ty := expr.note.ty

/-- The type of a checked statement. -/
def Stmt.ty (stmt : Stmt Typed) : Ty := stmt.note.ty

/-- The type of a checked program: that of its last statement. -/
def Program.ty (program : Program Typed) : Ty := program.note.ty

/-- A checked program without its types. -/
def Program.untyped (program : Program Typed) : Program Location := program.map Typed.location

end Offside
