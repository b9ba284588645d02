import Offside.Lowering.Types
import Offside.Text.Integer

/-!
# Lowering of expressions

From the tree of an expression to the expression.  Parentheses disappear, calls are sorted
into calls of functions, of builtins and of methods, and what the tree lets pass without
need (missing or unmatched brackets, slices, arbitrary callees) is refused.
-/

namespace Offside
namespace Lowering

open Walk

variable (l : Lowering)

/-! ## Literals -/

/-- The text of the first child. -/
def calleeText : Walk String := do
  if ← firstChild then
    let text ← l.text
    leave
    return text
  else return ""

/-- A literal. -/
def literal : Walk (Literal Location) := do
  let a ← l.location
  let text ← l.text
  match ← kind with
  | .number =>
    match Text.readInt64? text.toList with
    | some value => return ⟨a, .num value⟩
    | none => l.refuse (.numberParseError text)
  | .boolean => return ⟨a, .bool (text = "True")⟩
  | .none => return ⟨a, .none⟩
  | .callExpression =>
    if (← l.calleeText) = "TypeVar" then return ⟨a, .typeVar⟩ else l.refuse (.notALiteral text)
  | _ => l.refuse (.notALiteral text)

section Parts

variable (inner : Walk (Expr Location))

/-! ## Calls -/

/-- The arguments of an argument list, in order. -/
def argumentsWith : Walk (List (Expr Location)) := do
  if ← firstChild then
    let arguments ← l.listUntil ")" do return [← inner]
    leave
    return arguments
  else return []

/-- Whether the siblings to the right, up to a closing bracket, could all be types, and
there is at least one beside the commas. -/
def areTypes : Nat → Bool → Walk Bool
  | 0, _ => throw .unfinished
  | limit + 1, found => do
    if ← nextSibling then
      if ← l.isToken "]" then return found
      else
        match ← kind with
        | .variableName | .arrayExpression | .none => areTypes limit true
        | .punctuation => if ← l.isToken "," then areTypes limit found else return false
        | _ => return false
    else return found

/-- A callee of the form `Name[T, ...]`: the name and the type arguments. -/
def genericCallee : Walk (Option (String × List Ty)) := do
  if ← andAlso (isAt .memberExpression) firstChild then
    let name ← l.text
    let generic ← andAlso (andAlso (isAt .variableName) (l.stepTo "[")) (l.areTypes l.limit false)
    leave
    if generic then
      enter
      step
      let arguments ← l.listUntil "]" do return [← l.ty]
      leave
      return some (name, arguments)
    else return none
  else return none

/-- The builtin functions of one argument. -/
def builtins1 : List String := ["print", "abs"]

/-- The builtin functions of two arguments. -/
def builtins2 : List String := ["max", "min", "pow"]

/-- The call of a name. -/
def callOfName (a : Location) (name : String) (arguments : List (Expr Location)) :
    Walk (Expr Location) :=
  if name ∈ builtins1 then
    match arguments with
    | [argument] => return .builtin1 a name argument
    | _ => refuseAt a (.builtinArity name 1 arguments.length)
  else if name ∈ builtins2 then
    match arguments with
    | [left, right] => return .builtin2 a name left right
    | _ => refuseAt a (.builtinArity name 2 arguments.length)
  else return .call a name [] arguments

/-- A call, sorted by what is called. -/
def call : Walk (Expr Location) := do
  let a ← l.location
  enter
  match ← l.genericCallee with
  | some (name, genericArgs) =>
    step
    let arguments ← l.argumentsWith inner
    leave
    return .call a name genericArgs arguments
  | none =>
    let callee ← inner
    let calleeText ← l.text
    match callee with
    | .id _ "TypeVar" =>
      leave
      return .literal a ⟨a, .typeVar⟩
    | _ =>
      step
      let arguments ← l.argumentsWith inner
      leave
      match callee with
      | .lookup _ object field => return .methodCall a object field arguments
      | .id _ name => callOfName a name arguments
      | _ => refuseAt callee.note (.unsupportedCallee calleeText)

/-! ## Lists, members and comprehensions -/

/-- Elements and the commas between them, up to the closing bracket; and whether there
is one. -/
def elements : Nat → Walk (List (Expr Location) × Bool)
  | 0 => throw .unfinished
  | limit + 1 => do
    if ← nextSibling then
      if ← l.isToken "]" then return ([], true)
      else if ← l.isToken "," then l.refuse (.malformedList ",")
      else
        let first ← inner
        if ← nextSibling then
          if ← l.isToken "]" then return ([first], true)
          else if ← l.isToken "," then
            let (more, closed) ← elements limit
            return (first :: more, closed)
          else l.refuse (.malformedList (← l.text))
        else return ([first], false)
    else return ([], false)

/-- A list literal. -/
def list : Walk (Expr Location) := do
  let a ← l.location
  enter
  let (elements, closed) ← l.elements inner l.limit
  leave
  if closed then return .listLiteral a elements else refuseAt a (.missingDelimiter "]")

/-- What has been seen inside the brackets of an index. -/
structure IndexParts where
  /-- The expression before the first colon. -/
  index : Option (Expr Location) := none
  /-- Whether nothing at all has been seen. -/
  isEmpty : Bool := true
  /-- Whether the first thing was a colon. -/
  startsWithColon : Bool := false
  /-- The number of colons. -/
  colons : Nat := 0

/-- Looks at what is inside the brackets of an index. -/
def indexParts : Nat → IndexParts → Walk IndexParts
  | 0, _ => throw .unfinished
  | limit + 1, parts => do
    if ← nextSibling then
      if ← l.isToken "]" then return parts
      else if ← l.isToken ":" then
        indexParts limit { parts with
          startsWithColon := parts.startsWithColon || parts.isEmpty
          colons := parts.colons + 1
          isEmpty := false }
      else if ← l.isToken "," then indexParts limit { parts with isEmpty := false }
      else if parts.index.isNone && parts.colons = 0 then
        let index ← inner
        indexParts limit { parts with index := some index, isEmpty := false }
      else indexParts limit { parts with isEmpty := false }
    else return parts

/-- A field of an object, or an element of a list. -/
def member (a : Location) : Walk (Expr Location) := do
  enter
  let object ← inner
  step
  if ← l.isToken "." then
    step
    let field ← l.text
    leave
    return .lookup a object field
  else if ← l.isToken "[" then
    let parts ← l.indexParts inner l.limit {}
    leave
    if parts.isEmpty then refuseAt a .emptyIndex
    else if 3 < parts.colons + 1 then refuseAt a (.tooManySliceIndices (parts.colons + 1))
    else
      match parts.index with
      | some index =>
        if parts.startsWithColon then refuseAt a (.unsupportedExpression ":")
        else return .index a object index
      | none => refuseAt a (.unsupportedExpression ":")
  else l.refuse (.unsupportedExpression (← l.text))

/-- The filter of a comprehension and its closing bracket, as far as they are there. -/
def comprehensionEnd : Walk (Option (Expr Location) × String) := do
  if ← nextSibling then
    if ← l.isToken "if" then
      step
      let filter ← inner
      if ← nextSibling then return (some filter, ← l.text) else return (some filter, "")
    else return (none, ← l.text)
  else return (none, "")

/-- A comprehension.  Its brackets have to match, and say what it builds. -/
def comprehension (a : Location) : Walk (Expr Location) := do
  enter
  let opening ← l.text
  step
  let result ← inner
  step
  step
  let item ← l.text
  step
  step
  let iterable ← inner
  let (filter, closing) ← l.comprehensionEnd inner
  leave
  match ComprehensionKind.ofBrackets? opening closing with
  | some kind => return .comprehension a kind result item iterable filter
  | none => refuseAt a (.comprehensionMismatch opening closing)

/-! ## Expressions -/

/-- An expression in parentheses, which have to be closed. -/
def parenthesized (a : Location) : Walk (Expr Location) := do
  enter
  step
  let expr ← inner
  let closed ← l.stepTo ")"
  leave
  if closed then return expr else refuseAt a (.missingDelimiter ")")

/-- A binary operator and its operands. -/
def binary (a : Location) : Walk (Expr Location) := do
  enter
  let left ← inner
  step
  let text ← l.text
  match BinOp.ofLexeme? text with
  | some op =>
    step
    let right ← inner
    leave
    return .binOp a op left right
  | none => l.refuse (.unknownOperator text)

/-- A unary operator and its operand. -/
def unary (a : Location) : Walk (Expr Location) := do
  enter
  let text ← l.text
  match UniOp.ofLexeme? text with
  | some op =>
    step
    let operand ← inner
    leave
    return .uniOp a op operand
  | none => l.refuse (.unknownOperator text)

/-- A conditional expression. -/
def conditional (a : Location) : Walk (Expr Location) := do
  enter
  let ifTrue ← inner
  step
  step
  let condition ← inner
  step
  step
  let ifFalse ← inner
  leave
  return .ternary a ifTrue condition ifFalse

/-- An expression, given a walk for the expressions inside. -/
def exprWith : Walk (Expr Location) := do
  let a ← l.location
  match ← kind with
  | .number | .boolean | .none => return .literal a (← l.literal)
  | .variableName => return .id a (← l.text)
  | .callExpression => l.call inner
  | .arrayExpression => l.list inner
  | .binaryExpression => l.binary inner a
  | .unaryExpression => l.unary inner a
  | .parenthesizedExpression => l.parenthesized inner a
  | .memberExpression => l.member inner a
  | .conditionalExpression => conditional inner a
  | .comprehensionExpression | .arrayComprehensionExpression | .setComprehensionExpression =>
    l.comprehension inner a
  | _ => l.refuse (.unsupportedExpression (← l.text))

end Parts

/-- An expression, with at most `fuel` expressions inside one another. -/
def exprWithin : Nat → Walk (Expr Location)
  | 0 => throw .unfinished
  | fuel + 1 => fun c => l.exprWith (exprWithin fuel) c

/-- The expression at the node under the cursor. -/
def expr : Walk (Expr Location) := l.exprWithin l.limit

/-- The arguments of the argument list under the cursor. -/
def arguments : Walk (List (Expr Location)) := l.argumentsWith l.expr

end Lowering
end Offside
