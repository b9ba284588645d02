import Offside.Lowering.Declarations
import Offside.Typing.Check

/-!
# Checking programs

Declarations and programs.  A checker keeps its environment from program to program: each
program that is accepted adds its declarations, each one that is refused leaves the
environment as it was.  The numbers of names handed out are kept in both cases.

Main definitions: `Checker.check` and `checkProgram`.
-/

namespace Offside
namespace Typing

/-- A check at the level of a module. -/
abbrev ModuleCheck := ExceptT Diagnostic (StateM Checker)

/-- Runs the check of a body that starts in a given state. -/
def inBody {α : Type} (locals : Locals) (check : Check α) : ModuleCheck α :=
  ExceptT.mk fun checker =>
    let (result, context) := check.run ⟨checker, locals⟩
    (result, context.checker)

/-! ## Declarations -/

/-- Checks the declaration of a variable: its value fits its type. -/
def checkInit (init : VarInit Location) : Verdict (VarInit Typed) := do
  let value := typedLiteral init.value
  storable init.ty value.note.ty init.note
  return ⟨⟨.none, init.note⟩, init.name, init.ty, value⟩

/-- Checks the declarations of variables in order. -/
def checkInits (inits : List (VarInit Location)) : Verdict (List (VarInit Typed)) :=
  inits.mapM checkInit

/-- The state at the start of the body of a function: its parameters and variables. -/
def bodyLocals (fn : FunDef Location) : Locals :=
  { Locals.function fn.ret with
    vars := Table.insertAll
      (Table.insertAll [] (fn.parameters.map fun parameter => (parameter.name, parameter.ty)))
      (fn.inits.map fun init => (init.name, init.ty)) }

/-- Checks the body of a function; what it returns in the end fits its return type. -/
def checkBody (fn : FunDef Location) : Check (List (Stmt Typed)) := do
  let body ← checkBlock fn.body
  let locals ← Check.locals
  require (locals.actualRet.isAssignable locals.expectedRet)
    (.returnTypeMismatch locals.expectedRet locals.actualRet) fn.note
  return body

/-- Checks a function or method. -/
def checkFunDef (fn : FunDef Location) : ModuleCheck (FunDef Typed) := do
  let inits ← checkInits fn.inits
  let body ← inBody (bodyLocals fn) (checkBody fn)
  return {
    note := ⟨.none, fn.note⟩
    name := fn.name
    parameters := fn.parameters
    ret := fn.ret
    inits := inits
    body := body }

/-- Whether a method is a constructor as it has to be: its only parameter is `self`, of the
class, and it returns nothing. -/
def isConstructor {α : Type} (className : String) (method : FunDef α) : Bool :=
  match method.parameters with
  | [self] => self.name = "self" && self.ty.same (.plain className) && method.ret.same .none
  | _ => false

/-- Checks a class.  Its first method with the name of the constructor is one. -/
def checkClassDef (cls : ClassDef Location) : ModuleCheck (ClassDef Typed) := do
  let fields ← checkInits cls.fields
  let methods ← cls.methods.mapM checkFunDef
  let constructor? := methods.find? fun method => method.name = "__init__"
  require (constructor?.any (isConstructor cls.name)) (.initSignatureOverridden cls.name) cls.note
  return {
    note := ⟨.none, cls.note⟩
    name := cls.name
    generics := cls.generics
    fields := fields
    methods := methods }

/-! ## Programs -/

/-- Checks the statements of the top level, whose variables become those of the module. -/
def checkTop (stmts : List (Stmt Location)) : ModuleCheck (List (Stmt Typed)) := do
  let (stmts, vars) ← inBody Locals.top do
    let stmts ← checkBlock stmts
    return (stmts, (← Check.locals).vars)
  modify fun checker =>
    { checker with env := { checker.env with
      globals := Table.insertAll checker.env.globals vars } }
  return stmts

/-- Checks the parts of a program in order; its declarations are in the environment. -/
def checkParts (program : Program Location) : ModuleCheck (Program Typed) := do
  let inits ← checkInits program.inits
  let funs ← program.funs.mapM checkFunDef
  let classes ← program.classes.mapM checkClassDef
  let stmts ← checkTop program.stmts
  return {
    note := ⟨(stmts.getLast?.map Stmt.ty).getD .none, program.note⟩
    inits := inits
    funs := funs
    classes := classes
    stmts := stmts }

end Typing

namespace Checker

/-- A checker that has handed out no names. -/
def new (env : Env) : Checker := ⟨env, []⟩

/-- Checks a program in the environment with its declarations; keeps them if the program is
accepted. -/
def check (checker : Checker) (program : Program Location) :
    Except Diagnostic (Program Typed) × Checker :=
  match (Typing.checkParts program).run { checker with env := checker.env.augment program } with
  | (.ok typed, after) => (.ok typed, after)
  | (.error diagnostic, after) => (.error diagnostic, { after with env := checker.env })

end Checker

/-- Checks a program in an environment with a new checker; also gives the environment
after it. -/
def typeCheck (env : Env) (program : Program Location) : Except Diagnostic (Program Typed × Env) :=
  match (Checker.new env).check program with
  | (.ok typed, after) => .ok (typed, after.env)
  | (.error diagnostic, _) => .error diagnostic

/-- Reads the program of a source and checks it in an environment; also gives the
environment after it. -/
def checkProgram (source : Source) (env : Env) : Outcome (Program Typed × Env) := do
  let program ← parseProgram source
  match typeCheck env program with
  | .ok result => return result
  | .error diagnostic => throw (.refused diagnostic)

end Offside
