import Offside.Typing.Rules

/-!
# Checking contexts

What the checker knows while it is inside a body: the environment of the module, how many
names it has handed out for comprehension items, and the state of the body.  A check may
change the context whether it succeeds or refuses.
-/

namespace Offside

/-- A checker between two programs. -/
structure Checker where
  env : Env
  /-- The number of names handed out so far for each comprehension item. -/
  counters : Table Nat
  deriving Repr, Inhabited

/-- The state of a body: of a function, or of the top level. -/
structure Locals where
  vars : Table Ty
  expectedRet : Ty
  /-- What the statements so far return; `either` where branches disagree. -/
  actualRet : Ty
  topLevel : Bool
  loopDepth : Nat
  /-- The comprehension items in scope, the innermost first, each with its new name and
  its type. -/
  scopes : List (Table (String × Ty))
  deriving Repr, Inhabited

namespace Locals

/-- The state at the start of the top level. -/
def top : Locals where
  vars := []
  expectedRet := .none
  actualRet := .none
  topLevel := true
  loopDepth := 0
  scopes := []

/-- The state at the start of a function with the given return type. -/
def function (ret : Ty) : Locals := { top with expectedRet := ret, topLevel := false }

/-- The new name and type of a comprehension item, from the innermost scope that has it. -/
def item? (locals : Locals) (name : String) : Option (String × Ty) :=
  locals.scopes.findSome? fun scope => Table.find? scope name

/-- Whether there is a loop around. -/
def inLoop (locals : Locals) : Bool := 0 < locals.loopDepth

end Locals

namespace Typing

/-- A checker inside a body. -/
structure Context where
  checker : Checker
  locals : Locals
  deriving Repr, Inhabited

namespace Context

/-- The type of a variable: of the body, or else of the module. -/
def var? (context : Context) (name : String) : Option Ty :=
  (Table.find? context.locals.vars name).or (context.checker.env.global? name)

end Context

/-- A check inside a body. -/
abbrev Check := ExceptT Diagnostic (StateM Context)

namespace Check

/-- The environment of the module. -/
def env : Check Env := do return (← get).checker.env

/-- The state of the body. -/
def locals : Check Locals := do return (← get).locals

/-- Changes the state of the body. -/
def modifyLocals (f : Locals → Locals) : Check Unit :=
  modify fun context => { context with locals := f context.locals }

/-- Runs a check between two changes of the state of the body; the second is made also
when the check refuses. -/
def between {α : Type} (before after : Locals → Locals) (check : Check α) : Check α :=
  ExceptT.mk fun context =>
    let (result, context) := check.run { context with locals := before context.locals }
    (result, { context with locals := after context.locals })

/-- Runs a check inside a loop. -/
def inLoop {α : Type} (check : Check α) : Check α :=
  between (fun locals => { locals with loopDepth := locals.loopDepth + 1 })
    (fun locals => { locals with loopDepth := locals.loopDepth - 1 }) check

/-- Runs a check with a comprehension item in scope. -/
def inScope {α : Type} (item renamed : String) (ty : Ty) (check : Check α) : Check α :=
  between (fun locals => { locals with scopes := [(item, (renamed, ty))] :: locals.scopes })
    (fun locals => { locals with scopes := locals.scopes.tail }) check

/-- The name of a comprehension item for its `n`th use. -/
def itemName (item : String) (n : Nat) : String := "compvar$" ++ item ++ toString n

/-- A new name for a comprehension item. -/
def freshName (item : String) : Check String := do
  let context ← get
  let n := (Table.find? context.checker.counters item).getD 0 + 1
  set { context with checker := { context.checker with
    counters := Table.insert context.checker.counters item n } }
  return itemName item n

end Check
end Typing
end Offside
