import Offside.Diagnostic
import Offside.Typing.Assignable
import Offside.Typing.Env

/-!
# Typing rules

The conditions that the checker imposes on parts that are checked already, each with the
diagnostic for its violation.
-/

namespace Offside
namespace Typing

/-- Success, or the reason for refusal. -/
abbrev Verdict := Except Diagnostic

/-- Refuses for a cause at a location. -/
def refuse {α : Type} (cause : Cause) (location : Location) : Verdict α :=
  .error ⟨cause, location⟩

/-- What is found, or a refusal. -/
def demand {α : Type} (found : Option α) (cause : Cause) (location : Location) : Verdict α :=
  match found with
  | some value => .ok value
  | none => refuse cause location

/-- Refuses unless a condition holds. -/
def require (condition : Bool) (cause : Cause) (location : Location) : Verdict Unit :=
  if condition then .ok () else refuse cause location

/-- The type of a literal. -/
def literalType : LiteralValue → Ty
  | .num _ => .num
  | .bool _ => .bool
  | .none => .none
  | .typeVar => .typeVar

/-- The literal with its type. -/
def typedLiteral (literal : Literal Location) : Literal Typed :=
  ⟨⟨literalType literal.value, literal.note⟩, literal.value⟩

/-- A condition is a truth value. -/
def expectBool (condition : Expr Typed) : Verdict Unit :=
  require (condition.ty.same .bool) (.conditionNotBool condition.ty) condition.note.location

/-- An index is a number. -/
def expectIndex (index : Expr Typed) : Verdict Unit :=
  require (index.ty.same .num) (.indexNotInteger index.ty) index.note.location

/-- The element type of an iterable. -/
def expectIterable (env : Env) (iterable : Expr Typed) : Verdict Ty :=
  demand (env.element? iterable.ty) (.notIterable iterable.ty) iterable.note.location

/-- The name of the class of an object. -/
def expectObject (operation : String) (object : Expr Typed) (location : Location) :
    Verdict String :=
  demand object.ty.className? (.notAnObject operation object.ty) location

/-- The class of an object. -/
def classOf (env : Env) (operation : String) (object : Expr Typed) (location : Location) :
    Verdict (String × ClassInfo) := do
  let name ← expectObject operation object location
  let cls ← demand (env.class? name) (.unknownClass name) location
  return (name, cls)

/-- The declared type of a field of an object. -/
def fieldType (env : Env) (operation : String) (object : Expr Typed) (field : String)
    (location : Location) : Verdict Ty := do
  let (className, cls) ← classOf env operation object location
  demand (Table.find? cls.fields field) (.unknownField className field) location

/-- Arguments fit parameters in number and, one by one, in type. -/
def checkArguments (name : String) (parameters : List Ty) (arguments : List (Expr Typed))
    (location : Location) : Verdict Unit :=
  if parameters.length = arguments.length then
    let misfit := (parameters.zip arguments).find? fun (parameter, argument) =>
      !argument.ty.isAssignable parameter
    match misfit with
    | some (parameter, argument) =>
      refuse (.argumentTypeMatchError parameter argument.ty) argument.note.location
    | none => .ok ()
  else
    refuse (.unexpectedArguments name parameters.length arguments.length) location

/-- The result of calling a function. -/
def functionCall (env : Env) (name : String) (arguments : List (Expr Typed))
    (location : Location) : Verdict Ty := do
  let signature ← demand (env.function? name) (.undefinedFunction name) location
  checkArguments name signature.parameters arguments location
  return signature.ret

/-- Creating an object takes the arguments of the constructor behind the receiver, and the
constructor returns nothing. -/
def construction (cls : ClassInfo) (name : String) (arguments : List (Expr Typed))
    (location : Location) : Verdict Unit :=
  match Table.find? cls.methods "__init__" with
  | some constructor => do
    checkArguments name constructor.parameters.tail arguments location
    require (constructor.ret.same .none) (.initReturnNotNone name) location
  | none => .ok ()

/-- A call of a name: of a class if there is one of that name, else of a function. -/
def typedCall (env : Env) (name : String) (genericArgs : List Ty)
    (arguments : List (Expr Typed)) (location : Location) : Verdict (Expr Typed) :=
  match env.class? name with
  | some cls => do
    construction cls name arguments location
    return .construct ⟨.object name genericArgs, location⟩ name arguments
  | none => do
    let ty ← functionCall env name arguments location
    return .call ⟨ty, location⟩ name genericArgs arguments

/-- The result of calling a method; the object is its first argument. -/
def methodCall (env : Env) (object : Expr Typed) (method : String)
    (arguments : List (Expr Typed)) (location : Location) : Verdict Ty := do
  let (className, cls) ← classOf env "method call" object location
  let signature ←
    demand (Table.find? cls.methods method) (.unknownMethod className method) location
  match signature.parameters with
  | [] => refuse (.unexpectedArguments method 0 (arguments.length + 1)) location
  | receiver :: parameters =>
    require (object.ty.isAssignable receiver) (.argumentTypeMatchError receiver object.ty)
      object.note.location
    checkArguments method parameters arguments location
    return signature.ret

/-- The result of a builtin function of one argument; `print` gives back what it prints,
which is no object. -/
def builtinCall (env : Env) (name : String) (argument : Expr Typed) (location : Location) :
    Verdict Ty :=
  if name = "print" then do
    require (!argument.ty.isObject) .printObject location
    return argument.ty
  else functionCall env name [argument] location

/-- The elements of a list literal fit the first one. -/
def listType (elements : List (Expr Typed)) : Verdict Ty :=
  match elements with
  | [] => .ok (.list .none)
  | first :: rest =>
    match rest.find? fun element => !element.ty.isAssignable first.ty with
    | some misfit =>
      refuse (.incompatibleListElements first.ty misfit.ty) misfit.note.location
    | none => .ok (.list first.ty)

/-- The type of an element of a list. -/
def indexType (object index : Expr Typed) (location : Location) : Verdict Ty := do
  expectIndex index
  match object.ty with
  | .list element => return element
  | other => refuse (.cannotIndex other) location

/-- The type of a conditional: of its branches if they agree. -/
def ternaryType (ifTrue ifFalse : Ty) : Ty :=
  if ifTrue.agrees ifFalse then ifTrue else .either ifTrue ifFalse

/-- The operand type of a unary operator, which is also its result. -/
def uniOpType : UniOp → Ty
  | .neg => .num
  | .not => .bool

/-- The result of a unary operator. -/
def uniOpResult (op : UniOp) (operand : Ty) (location : Location) : Verdict Ty := do
  require (operand.same (uniOpType op)) (.unaryOperatorTypeMismatch op.lexeme operand) location
  return operand

/-- Both operands of a binary operator have a type. -/
def bothAre (ty : Ty) (op : BinOp) (left right result : Ty) (location : Location) :
    Verdict Ty := do
  require (left.same ty && right.same ty) (.operatorTypeMismatch op.lexeme left right) location
  return result

/-- The result of a binary operator. -/
def binOpResult (op : BinOp) (left right : Ty) (location : Location) : Verdict Ty :=
  match op with
  | .plus | .minus | .mul | .idiv | .mod => bothAre .num op left right .num location
  | .lte | .gte | .lt | .gt => bothAre .num op left right .bool location
  | .and | .or => bothAre .bool op left right .bool location
  | .eq | .neq => do
    require (!(left.isObject || right.isObject)) (.classEquality op.lexeme) location
    require (left.same right) (.operatorTypeMismatch op.lexeme left right) location
    return .bool
  | .is => do
    require (left.isReference && right.isReference) (.isOperandsNotObjects left right) location
    return .bool

/-- A value may be stored at a target. -/
def storable (target value : Ty) (location : Location) : Verdict Unit :=
  require (value.isAssignable target) (.typeMatchError target value) location

end Typing
end Offside
