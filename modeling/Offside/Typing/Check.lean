import Offside.Typing.Context

/-!
# Checking bodies

Expressions and statements, in the order in which they are evaluated.  The result is the
same tree with types on all nodes, in which calls of classes are told from calls of
functions and comprehension items have new names.

Main definitions: `checkExpr`, `checkStmt` and `checkBlock`.
-/

namespace Offside
namespace Typing

open Check

/-- Refuses for a cause at a location. -/
def refuseHere {α : Type} (cause : Cause) (location : Location) : Check α :=
  throw ⟨cause, location⟩

/-- A name: a comprehension item, or else a variable. -/
def checkId (location : Location) (name : String) : Check (Expr Typed) := do
  let context ← get
  match context.locals.item? name with
  | some (renamed, ty) => return .id ⟨ty, location⟩ renamed
  | none =>
    match context.var? name with
    | some ty => return .id ⟨ty, location⟩ name
    | none => refuseHere (.unboundId name) location

mutual

/-- Checks an expression. -/
def checkExpr : Expr Location → Check (Expr Typed)
  | .literal location literal =>
    return .literal ⟨literalType literal.value, location⟩ (typedLiteral literal)
  | .id location name => checkId location name
  | .binOp location op left right => do
    let left ← checkExpr left
    let right ← checkExpr right
    let ty ← binOpResult op left.ty right.ty location
    return .binOp ⟨ty, location⟩ op left right
  | .uniOp location op operand => do
    let operand ← checkExpr operand
    let ty ← uniOpResult op operand.ty location
    return .uniOp ⟨ty, location⟩ op operand
  | .builtin1 location name argument => do
    let argument ← checkExpr argument
    let ty ← builtinCall (← env) name argument location
    return .builtin1 ⟨ty, location⟩ name argument
  | .builtin2 location name left right => do
    let left ← checkExpr left
    let right ← checkExpr right
    let ty ← functionCall (← env) name [left, right] location
    return .builtin2 ⟨ty, location⟩ name left right
  | .call location name genericArgs arguments => do
    let arguments ← checkExprs arguments
    typedCall (← env) name genericArgs arguments location
  | .construct location name arguments => do
    let _ ← demand ((← env).class? name) (.unknownClass name) location
    let arguments ← checkExprs arguments
    return .construct ⟨.plain name, location⟩ name arguments
  | .lookup location object field => do
    let object ← checkExpr object
    let ty ← fieldType (← env) "field lookup" object field location
    return .lookup ⟨ty, location⟩ object field
  | .methodCall location object method arguments => do
    let object ← checkExpr object
    let arguments ← checkExprs arguments
    let ty ← methodCall (← env) object method arguments location
    return .methodCall ⟨ty, location⟩ object method arguments
  | .index location object position => do
    let object ← checkExpr object
    let position ← checkExpr position
    let ty ← indexType object position location
    return .index ⟨ty, location⟩ object position
  | .listLiteral location elements => do
    let elements ← checkExprs elements
    let ty ← listType elements
    return .listLiteral ⟨ty, location⟩ elements
  | .ternary location ifTrue condition ifFalse => do
    let ifTrue ← checkExpr ifTrue
    let condition ← checkExpr condition
    let ifFalse ← checkExpr ifFalse
    expectBool condition
    return .ternary ⟨ternaryType ifTrue.ty ifFalse.ty, location⟩ ifTrue condition ifFalse
  | .comprehension location kind result item iterable none => do
    let iterable ← checkExpr iterable
    let element ← expectIterable (← env) iterable
    let renamed ← freshName item
    let result ← inScope item renamed element (checkExpr result)
    return .comprehension ⟨kind.container element, location⟩ kind result renamed iterable none
  | .comprehension location kind result item iterable (some filter) => do
    let iterable ← checkExpr iterable
    let element ← expectIterable (← env) iterable
    let renamed ← freshName item
    let (result, filter) ← inScope item renamed element do
      let filter ← checkExpr filter
      expectBool filter
      let result ← checkExpr result
      return (result, filter)
    return .comprehension ⟨kind.container element, location⟩ kind result renamed iterable
      (some filter)

/-- Checks expressions in order. -/
def checkExprs : List (Expr Location) → Check (List (Expr Typed))
  | [] => return []
  | first :: rest => do
    let first ← checkExpr first
    let rest ← checkExprs rest
    return first :: rest

end

/-- The type of a variable that is assigned to. -/
def targetType (location : Location) (name : String) : Check Ty := do
  demand ((← get).var? name) (.unboundId name) location

/-- The return type of the branches of a conditional together. -/
def joinReturns (ifTrue ifFalse : Ty) : Ty :=
  if ifTrue.same ifFalse then ifFalse else .either ifTrue ifFalse

/-- Sets what the statements so far return. -/
def setActualRet (ty : Ty) : Check Unit :=
  modifyLocals fun locals => { locals with actualRet := ty }

/-- A statement that is allowed in loops only. -/
def expectInLoop (keyword : String) (location : Location) : Check Unit := do
  require (← locals).inLoop (.outsideLoop keyword) location

mutual

/-- Checks a statement. -/
def checkStmt : Stmt Location → Check (Stmt Typed)
  | .assign location name value => do
    let value ← checkExpr value
    let target ← targetType location name
    storable target value.ty location
    return .assign ⟨.none, location⟩ name value
  | .fieldAssign location object field value => do
    let object ← checkExpr object
    let value ← checkExpr value
    let target ← fieldType (← env) "field assignment" object field location
    storable target value.ty location
    return .fieldAssign ⟨.none, location⟩ object field value
  | .indexAssign location object position value => do
    let object ← checkExpr object
    let position ← checkExpr position
    let value ← checkExpr value
    expectIndex position
    match object.ty with
    | .list element =>
      storable element value.ty location
      return .indexAssign ⟨.none, location⟩ object position value
    | other => refuseHere (.itemAssignmentUnsupported other) location
  | .expr location value => do
    let value ← checkExpr value
    return .expr ⟨value.ty, location⟩ value
  | .return location value => do
    require (!(← locals).topLevel) .returnOutsideFunction location
    let value ← checkExpr value
    let expected := (← locals).expectedRet
    require (value.ty.isAssignable expected) (.returnTypeMismatch expected value.ty) location
    setActualRet value.ty
    return .return ⟨value.ty, location⟩ value
  | .cond location condition body otherwise => do
    let condition ← checkExpr condition
    expectBool condition
    let body ← checkBlock body
    let bodyRet := (← locals).actualRet
    setActualRet .none
    let otherwise ← checkBlock otherwise
    setActualRet (joinReturns bodyRet (← locals).actualRet)
    return .cond ⟨bodyRet, location⟩ condition body otherwise
  | .while location condition body => do
    let condition ← checkExpr condition
    expectBool condition
    let body ← inLoop (checkBlock body)
    return .while ⟨.none, location⟩ condition body
  | .for location item iterable body otherwise => do
    let iterable ← checkExpr iterable
    let element ← expectIterable (← env) iterable
    let target ← targetType location item
    storable target element location
    let body ← inLoop (checkBlock body)
    let otherwise ← checkBlock otherwise
    return .for ⟨.none, location⟩ item iterable body otherwise
  | .pass location => return .pass ⟨.none, location⟩
  | .continue location => do
    expectInLoop "continue" location
    return .continue ⟨.none, location⟩
  | .break location => do
    expectInLoop "break" location
    return .break ⟨.none, location⟩

/-- Checks statements in order. -/
def checkBlock : List (Stmt Location) → Check (List (Stmt Typed))
  | [] => return []
  | first :: rest => do
    let first ← checkStmt first
    let rest ← checkBlock rest
    return first :: rest

end

end Typing
end Offside
