import Offside.Ast
import Offside.Lowering.Walk

/-!
# Lowering of types

Types are written as expressions: a name, `None`, a list of one type, or a name with type
arguments in brackets.
-/

namespace Offside
namespace Lowering

open Walk

variable (l : Lowering)

/-- The type of a name. -/
def typeOfName (name : String) : Ty :=
  if name = "int" then .num
  else if name = "bool" then .bool
  else if name = "TypeVar" then .typeVar
  else .plain name

/-- The refusal of the node under the cursor as a type, to be used later. -/
def invalidType : Walk Failure := do
  let text ← l.text
  return .refused ⟨.invalidType text, ← l.location⟩

/-- A type, given a walk for the types inside. -/
def tyWith (inner : Walk Ty) : Walk Ty := do
  match ← kind with
  | .variableName => return typeOfName (← l.text)
  | .none => return .none
  | .arrayExpression =>
    let invalid ← l.invalidType
    enter
    let entered ← nextSibling
    if !entered then
      leave
      throw invalid
    else if ← l.isToken "]" then
      leave
      throw invalid
    else
      let element ← inner
      let closed ← l.stepTo "]"
      leave
      if closed then return .list element else throw invalid
  | .memberExpression =>
    let invalid ← l.invalidType
    enter
    let name ← l.text
    let opened ← andAlso (isAt .variableName) (l.stepTo "[")
    if opened then
      let arguments ← l.listUntil "]" do return [← inner]
      leave
      return .object name arguments
    else
      leave
      throw invalid
  | _ => throw (← l.invalidType)

/-- A type, with at most `fuel` types inside one another. -/
def tyWithin : Nat → Walk Ty
  | 0 => throw .unfinished
  | fuel + 1 => fun c => l.tyWith (tyWithin fuel) c

/-- The type that is written at the node under the cursor. -/
def ty : Walk Ty := l.tyWithin l.limit

/-- The type behind a colon or an arrow. -/
def typeDef : Walk Ty := do
  enter
  step
  let ty ← l.ty
  leave
  return ty

end Lowering
end Offside
