import Offside.Ast
import Offside.Text.Outline

/-!
# Dumps

Checked programs as outlines, with all types and locations.
-/

namespace Offside

mutual

/-- The outline of a type. -/
def Ty.outline : Ty → Outline
  | .num => .word "Num"
  | .bool => .word "Bool"
  | .none => .word "None"
  | .typeVar => .word "TypeVar"
  | .object name arguments =>
    .record "Class" [("name", .string name), ("generic_args", .list (Ty.outlines arguments))]
  | .list element => .tuple "List" [element.outline]
  | .set element => .tuple "Set" [element.outline]
  | .generator element => .tuple "Generator" [element.outline]
  | .either left right => .tuple "Either" [left.outline, right.outline]

/-- The outlines of several types. -/
def Ty.outlines : List Ty → List Outline
  | [] => []
  | first :: rest => first.outline :: Ty.outlines rest

end

/-- The outline of a location. -/
def Location.outline (location : Location) : Outline :=
  .record "SourceLocation" [
    ("line", .nat location.line), ("column", .nat location.column),
    ("src_code", .string location.text)]

/-- The outline of a note: the type, and then the location. -/
def Typed.outline (note : Typed) : Outline := .tuple "" [note.ty.outline, note.location.outline]

/-- The outline of the value of a literal. -/
def LiteralValue.outline : LiteralValue → Outline
  | .num value => .tuple "Num" [.word (toString value)]
  | .bool value => .tuple "Bool" [.word (if value then "true" else "false")]
  | .none => .word "None"
  | .typeVar => .word "TypeVar"

/-- The outline of a literal. -/
def Literal.outline (literal : Literal Typed) : Outline :=
  .record "Literal" [("a", literal.note.outline), ("value", literal.value.outline)]

/-- A node: its note and what kind of node it is. -/
def Outline.node (name : String) (note : Typed) (kind : Outline) : Outline :=
  .record name [("a", note.outline), ("kind", kind)]

mutual

/-- The outline of an expression. -/
def Expr.outline : Expr Typed → Outline
  | .literal note value => .node "Expr" note (.tuple "Literal" [value.outline])
  | .id note name => .node "Expr" note (.record "Id" [("name", .string name)])
  | .binOp note op left right =>
    .node "Expr" note (.record "BinOp" [
      ("op", .word op.name), ("left", left.outline), ("right", right.outline)])
  | .uniOp note op operand =>
    .node "Expr" note (.record "UniOp" [("op", .word op.name), ("expr", operand.outline)])
  | .call note name genericArgs arguments =>
    .node "Expr" note (.record "Call" [
      ("name", .string name), ("generic_args", .list (Ty.outlines genericArgs)),
      ("arguments", .list (Expr.outlines arguments))])
  | .construct note name arguments =>
    .node "Expr" note (.record "Construct" [
      ("name", .string name), ("arguments", .list (Expr.outlines arguments))])
  | .builtin1 note name argument =>
    .node "Expr" note (.record "Builtin1" [("name", .string name), ("arg", argument.outline)])
  | .builtin2 note name left right =>
    .node "Expr" note (.record "Builtin2" [
      ("name", .string name), ("left", left.outline), ("right", right.outline)])
  | .methodCall note object method arguments =>
    .node "Expr" note (.record "MethodCall" [
      ("obj", object.outline), ("method", .string method),
      ("arguments", .list (Expr.outlines arguments))])
  | .lookup note object field =>
    .node "Expr" note (.record "Lookup" [("obj", object.outline), ("field", .string field)])
  | .index note object position =>
    .node "Expr" note (.record "Index" [("obj", object.outline), ("index", position.outline)])
  | .listLiteral note elements =>
    .node "Expr" note (.record "ListLiteral" [("elements", .list (Expr.outlines elements))])
  | .ternary note ifTrue condition ifFalse =>
    .node "Expr" note (.record "Ternary" [
      ("expr_if_true", ifTrue.outline), ("cond", condition.outline),
      ("expr_if_false", ifFalse.outline)])
  | .comprehension note kind result item iterable none =>
    .node "Expr" note (.record "Comprehension" [
      ("kind", .word kind.name), ("lhs", result.outline), ("item", .string item),
      ("iterable", iterable.outline), ("cond", .word "None")])
  | .comprehension note kind result item iterable (some filter) =>
    .node "Expr" note (.record "Comprehension" [
      ("kind", .word kind.name), ("lhs", result.outline), ("item", .string item),
      ("iterable", iterable.outline), ("cond", .tuple "Some" [filter.outline])])

/-- The outlines of several expressions. -/
def Expr.outlines : List (Expr Typed) → List Outline
  | [] => []
  | first :: rest => first.outline :: Expr.outlines rest

end

mutual

/-- The outline of a statement. -/
def Stmt.outline : Stmt Typed → Outline
  | .assign note name value =>
    .node "Stmt" note (.record "Assign" [("name", .string name), ("value", value.outline)])
  | .fieldAssign note object field value =>
    .node "Stmt" note (.record "FieldAssign" [
      ("obj", object.outline), ("field", .string field), ("value", value.outline)])
  | .indexAssign note object position value =>
    .node "Stmt" note (.record "IndexAssign" [
      ("obj", object.outline), ("index", position.outline), ("value", value.outline)])
  | .expr note value => .node "Stmt" note (.tuple "Expr" [value.outline])
  | .return note value => .node "Stmt" note (.tuple "Return" [value.outline])
  | .cond note condition body otherwise =>
    .node "Stmt" note (.record "If" [
      ("cond", condition.outline), ("thn", .list (Stmt.outlines body)),
      ("els", .list (Stmt.outlines otherwise))])
  | .while note condition body =>
    .node "Stmt" note (.record "While" [
      ("cond", condition.outline), ("body", .list (Stmt.outlines body))])
  | .for note item iterable body otherwise =>
    .node "Stmt" note (.record "For" [
      ("var", .string item), ("iterable", iterable.outline),
      ("body", .list (Stmt.outlines body)), ("els", .list (Stmt.outlines otherwise))])
  | .pass note => .node "Stmt" note (.word "Pass")
  | .continue note => .node "Stmt" note (.word "Continue")
  | .break note => .node "Stmt" note (.word "Break")

/-- The outlines of several statements. -/
def Stmt.outlines : List (Stmt Typed) → List Outline
  | [] => []
  | first :: rest => first.outline :: Stmt.outlines rest

end

/-- The outline of a parameter. -/
def Parameter.outline (parameter : Parameter) : Outline :=
  .record "Parameter" [("name", .string parameter.name), ("ty", parameter.ty.outline)]

/-- The outline of the declaration of a variable. -/
def VarInit.outline (init : VarInit Typed) : Outline :=
  .record "VarInit" [
    ("a", init.note.outline), ("name", .string init.name), ("ty", init.ty.outline),
    ("value", init.value.outline)]

/-- The outline of a function. -/
def FunDef.outline (fn : FunDef Typed) : Outline :=
  .record "FunDef" [
    ("a", fn.note.outline), ("name", .string fn.name),
    ("parameters", .list (fn.parameters.map Parameter.outline)), ("ret", fn.ret.outline),
    ("inits", .list (fn.inits.map VarInit.outline)), ("body", .list (Stmt.outlines fn.body))]

/-- The outline of a class. -/
def ClassDef.outline (cls : ClassDef Typed) : Outline :=
  .record "Class" [
    ("a", cls.note.outline), ("name", .string cls.name),
    ("generics", .list (cls.generics.map Outline.string)),
    ("fields", .list (cls.fields.map VarInit.outline)),
    ("methods", .list (cls.methods.map FunDef.outline))]

/-- The outline of a program. -/
def Program.outline (program : Program Typed) : Outline :=
  .record "Program" [
    ("a", program.note.outline), ("inits", .list (program.inits.map VarInit.outline)),
    ("funs", .list (program.funs.map FunDef.outline)),
    ("classes", .list (program.classes.map ClassDef.outline)),
    ("stmts", .list (Stmt.outlines program.stmts))]

/-- A checked program in full. -/
def Program.dump (program : Program Typed) : String := program.outline.render 0

end Offside
