import Offside.Lowering.Statements
import Offside.Syntax.Parser
import Offside.Token.Scanner

/-!
# Lowering of declarations and programs

Variables, functions and classes, and the programs that declare them.  Declarations come
before statements, in a program as in a function.

Main definition: `lower`.
-/

namespace Offside
namespace Lowering

open Walk

variable (l : Lowering)

/-! ## Telling declarations -/

/-- Whether the cursor is at an assignment with a type. -/
def isVarInit : Walk Bool := do
  if ← andAlso (isAt .assignStatement) firstChild then
    let typed ← andAlso nextSibling (isAt .typeDef)
    leave
    return typed
  else return false

/-- Whether the cursor is at the definition of a function. -/
def isFunDef : Walk Bool := isAt .functionDefinition

/-- Whether the cursor is at the definition of a class. -/
def isClassDef : Walk Bool := isAt .classDefinition

/-! ## Variables -/

/-- A variable with its type and first value. -/
def varInit : Walk (VarInit Location) := do
  let a ← l.location
  enter
  let name ← l.text
  if ← isAt .variableName then
    step
    if ← isAt .typeDef then
      let ty ← l.typeDef
      if ← andAlso (l.stepTo "=") nextSibling then
        let value ← l.literal
        leave
        return ⟨a, name, ty, value⟩
      else refuseAt a (.invalidVarInit name)
    else refuseAt a (.invalidVarInit name)
  else refuseAt a (.invalidVarInit name)

/-- Goes through the declarations of variables from here on to the right.  `here` says
whether there is a node at all; so does the second result. -/
def varInits : Nat → Bool → Walk (List (VarInit Location) × Bool)
  | 0, _ => throw .unfinished
  | limit + 1, here => do
    if ← andAlso (pure here) isVarInit then
      let first ← l.varInit
      let (more, here) ← varInits limit (← nextSibling)
      return (first :: more, here)
    else return ([], here)

/-- Goes through the statements from here on to the right. -/
def stmts : Nat → Bool → Walk (List (Stmt Location))
  | 0, _ => throw .unfinished
  | limit + 1, here => do
    if here then
      let first ← l.stmt
      let more ← stmts limit (← nextSibling)
      return first :: more
    else return []

/-! ## Functions -/

/-- One parameter, which has to have a type. -/
def parameter : Walk Parameter := do
  let name ← l.text
  let a ← l.location
  if ← andAlso nextSibling (isAt .typeDef) then return ⟨name, ← l.typeDef⟩
  else refuseAt a (.missingParameterType name)

/-- The parameters of a function. -/
def parameters : Walk (List Parameter) := do
  if ← firstChild then
    let parameters ← l.listUntil ")" do return [← l.parameter]
    leave
    return parameters
  else return []

/-- The definition of a function. -/
def funDef : Walk (FunDef Location) := do
  let a ← l.location
  enter
  step
  let name ← l.text
  step
  let parameters ← l.parameters
  step
  let ret ←
    if ← isAt .typeDef then do
      let ty ← l.typeDef
      step
      pure ty
    else pure .none
  l.openBody a
  let (inits, here) ← l.varInits l.limit (← nextSibling)
  let body ← l.stmts l.limit here
  leave
  leave
  return ⟨a, name, parameters, ret, inits, body⟩

/-! ## Classes -/

/-- The names between the brackets of `Generic[...]`. -/
def genericNames : Walk (List String) :=
  l.listUntil "]" do
    if ← isAt .variableName then return [← l.text]
    else l.refuse (.invalidGenericParameter (← l.text))

/-- The type parameters that one base class brings: none for `object`, its arguments for
`Generic`. -/
def base : Walk (List String) := do
  match ← kind with
  | .memberExpression =>
    let text ← l.text
    let a ← l.location
    enter
    let named := andAlso (isAt .variableName) (do return (← l.text) = "Generic")
    if ← andAlso named (l.stepTo "[") then
      let names ← l.genericNames
      leave
      return names
    else refuseAt a (.unsupportedBaseClass text)
  | .variableName =>
    let text ← l.text
    if text = "object" then return [] else l.refuse (.unsupportedBaseClass text)
  | _ => l.refuse (.unsupportedBaseClass (← l.text))

/-- The type parameters that the base classes bring. -/
def generics : Walk (List String) := do
  if ← firstChild then
    let names ← l.listUntil ")" l.base
    leave
    return names
  else return []

/-- A member of a class. -/
inductive ClassMember where
  | field (value : VarInit Location)
  | method (value : FunDef Location)

/-- A field if it is one. -/
def ClassMember.field? : ClassMember → Option (VarInit Location)
  | .field value => some value
  | .method _ => none

/-- A method if it is one. -/
def ClassMember.method? : ClassMember → Option (FunDef Location)
  | .field _ => none
  | .method value => some value

/-- The fields and methods of a class body.  `pass` is no member. -/
def classMember (a : Location) (className : String) : Walk (List ClassMember) := do
  if ← isVarInit then return [.field (← l.varInit)]
  else if ← isFunDef then return [.method (← l.funDef)]
  else if ← isAt .passStatement then return []
  else refuseAt a (.invalidClassBody className)

/-- The constructor of a class that does not define one. -/
def defaultInit (a : Location) (className : String) (generics : List String) :
    FunDef Location where
  note := a
  name := "__init__"
  parameters := [⟨"self", .object className (generics.map Ty.plain)⟩]
  ret := .none
  inits := []
  body := []

/-- The definition of a class. -/
def classDef : Walk (ClassDef Location) := do
  let a ← l.location
  enter
  step
  let name ← l.text
  step
  let generics ←
    if ← isAt .argList then do
      let names ← l.generics
      step
      pure names
    else pure []
  l.openBody a
  let members ← collect (pure false) (l.classMember a name) l.limit
  leave
  leave
  let methods := members.filterMap ClassMember.method?
  let constructors :=
    if methods.any fun method => method.name = "__init__" then [] else [defaultInit a name generics]
  return ⟨a, name, generics, members.filterMap ClassMember.field?, methods ++ constructors⟩

/-! ## Programs -/

/-- A declaration of a program. -/
inductive Declaration where
  | init (value : VarInit Location)
  | fun (value : FunDef Location)
  | cls (value : ClassDef Location)

/-- A variable if it is one. -/
def Declaration.init? : Declaration → Option (VarInit Location)
  | .init value => some value
  | _ => none

/-- A function if it is one. -/
def Declaration.fun? : Declaration → Option (FunDef Location)
  | .fun value => some value
  | _ => none

/-- A class if it is one. -/
def Declaration.cls? : Declaration → Option (ClassDef Location)
  | .cls value => some value
  | _ => none

/-- The declaration under the cursor, if it is one. -/
def declaration : Walk (Option Declaration) := do
  if ← isVarInit then return some (.init (← l.varInit))
  else if ← isFunDef then return some (.fun (← l.funDef))
  else if ← isClassDef then return some (.cls (← l.classDef))
  else return none

/-- Goes through the declarations from here on to the right.  `here` says whether there is
a node at all; so does the second result. -/
def declarations : Nat → Bool → Walk (List Declaration × Bool)
  | 0, _ => throw .unfinished
  | limit + 1, here => do
    let first ← if here then l.declaration else pure none
    match first with
    | some first =>
      let (more, here) ← declarations limit (← nextSibling)
      return (first :: more, here)
    | none => return ([], here)

/-- The first name behind the keywords from here on to the right. -/
def nameBehindKeywords : Nat → Walk String
  | 0 => throw .unfinished
  | limit + 1 => do
    if ← andAlso (isAt .keyword) nextSibling then nameBehindKeywords limit else l.text

/-- The name that a declaration introduces. -/
def declaredName : Walk String := do
  if ← firstChild then
    let name ← l.nameBehindKeywords l.limit
    leave
    return name
  else return ""

/-- A statement of a program; no declaration may follow the first statement. -/
def topStmt : Walk (Stmt Location) := do
  let typed ← isVarInit
  if typed || (← isFunDef) || (← isClassDef) then
    let name ← l.declaredName
    l.refuse (.declarationAfterStatement name)
  else l.stmt

/-- Goes through the statements of a program from here on to the right. -/
def topStmts : Nat → Bool → Walk (List (Stmt Location))
  | 0, _ => throw .unfinished
  | limit + 1, here => do
    if here then
      let first ← l.topStmt
      let more ← topStmts limit (← nextSibling)
      return first :: more
    else return []

/-- A program. -/
def program : Walk (Program Location) := do
  let a ← l.location
  if !(← isAt .script) then l.refuse .invalidProgram
  else
    let entered ← firstChild
    let (declarations, here) ← l.declarations l.limit entered
    let stmts ← l.topStmts l.limit here
    if entered then leave
    return {
      note := a
      inits := declarations.filterMap Declaration.init?
      funs := declarations.filterMap Declaration.fun?
      classes := declarations.filterMap Declaration.cls?
      stmts := stmts }

end Lowering

/-- The program of a syntax tree. -/
def lower (tree : SyntaxNode) (source : Source) : Outcome (Program Location) := do
  let (program, _) ← (Lowering.ofTree source tree).program.run (Cursor.top tree)
  return program

/-- The program of a source. -/
def parseProgram (source : Source) : Outcome (Program Location) := do
  let tokens ← tokenize source
  let tree ← parse tokens source
  lower tree source

end Offside
