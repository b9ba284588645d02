import Offside.Lowering.Expressions

/-!
# Lowering of statements

From the tree of a statement to the statement.  A chain of `elif` branches becomes
conditionals inside one another.
-/

namespace Offside
namespace Lowering

open Walk

variable (l : Lowering)

/-! ## Blocks -/

/-- Enters a block, which has to start with a colon; stays on the colon. -/
def openBody (owner : Location) : Walk Unit := do
  if ← andAlso (isAt .body) firstChild then
    if ← l.isToken ":" then return ()
    else
      leave
      refuseAt owner (.missingDelimiter ":")
  else refuseAt owner (.missingDelimiter ":")

section Parts

variable (inner : Walk (Stmt Location))

/-- The statements of a block. -/
def blockWith (owner : Location) : Walk (List (Stmt Location)) := do
  l.openBody owner
  let statements ← collect (pure false) (do return [← inner]) l.limit
  leave
  return statements

/-- What follows the first block of a conditional. -/
def ifTail : Nat → Location → Walk (List (Stmt Location))
  | 0, _ => throw .unfinished
  | limit + 1, owner => do
    if ← nextSibling then
      if ← l.isToken "else" then
        step
        l.blockWith inner owner
      else if ← l.isToken "elif" then
        let a ← l.location
        step
        let condition ← l.expr
        step
        let body ← l.blockWith inner a
        let otherwise ← ifTail limit a
        return [.cond a condition body otherwise]
      else l.refuse (.unsupportedStatement (← l.text))
    else return []

/-! ## Statements -/

/-- A return; without a value it returns `None`. -/
def returnStatement (a : Location) : Walk (Stmt Location) := do
  enter
  let value ← if ← nextSibling then l.expr else pure (.literal a ⟨a, .none⟩)
  leave
  return .return a value

/-- An assignment to a variable, a field or an element. -/
def assignStatement (a : Location) : Walk (Stmt Location) := do
  enter
  let targetText ← l.text
  let target ← l.expr
  step
  if ← isAt .typeDef then
    leave
    refuseAt a (.declarationAfterStatement targetText)
  else
    step
    let value ← l.expr
    leave
    match target with
    | .id _ name => return .assign a name value
    | .lookup _ object field => return .fieldAssign a object field value
    | .index _ object position => return .indexAssign a object position value
    | _ => refuseAt a (.unsupportedAssignTarget targetText)

/-- An expression as a statement. -/
def expressionStatement (a : Location) : Walk (Stmt Location) := do
  enter
  let value ← l.expr
  leave
  return .expr a value

/-- A conditional. -/
def ifStatement (a : Location) : Walk (Stmt Location) := do
  enter
  step
  let condition ← l.expr
  step
  let body ← l.blockWith inner a
  let otherwise ← l.ifTail inner l.limit a
  leave
  return .cond a condition body otherwise

/-- A loop under a condition. -/
def whileStatement (a : Location) : Walk (Stmt Location) := do
  enter
  step
  let condition ← l.expr
  step
  let body ← l.blockWith inner a
  leave
  return .while a condition body

/-- A loop over the elements of an iterable. -/
def forStatement (a : Location) : Walk (Stmt Location) := do
  enter
  step
  if ← isAt .variableName then
    let item ← l.text
    step
    step
    let iterable ← l.expr
    step
    let body ← l.blockWith inner a
    let otherwise ←
      if ← l.stepTo "else" then do
        step
        l.blockWith inner a
      else pure []
    leave
    return .for a item iterable body otherwise
  else l.refuse (.unsupportedAssignTarget (← l.text))

/-- A statement, given a walk for the statements inside. -/
def stmtWith : Walk (Stmt Location) := do
  let a ← l.location
  match ← kind with
  | .returnStatement => l.returnStatement a
  | .assignStatement => l.assignStatement a
  | .expressionStatement => l.expressionStatement a
  | .ifStatement => l.ifStatement inner a
  | .whileStatement => l.whileStatement inner a
  | .forStatement => l.forStatement inner a
  | .passStatement => return .pass a
  | .continueStatement => return .continue a
  | .breakStatement => return .break a
  | _ => l.refuse (.unsupportedStatement (← l.text))

end Parts

/-- A statement, with at most `fuel` statements inside one another. -/
def stmtWithin : Nat → Walk (Stmt Location)
  | 0 => throw .unfinished
  | fuel + 1 => fun c => l.stmtWith (stmtWithin fuel) c

/-- The statement at the node under the cursor. -/
def stmt : Walk (Stmt Location) := l.stmtWithin l.limit

end Lowering
end Offside
