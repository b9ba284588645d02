import Offside.Proofs.Typing.Footprint

/-!
# Parameters by index and the depth of loops

The receiver of a method is the first of its parameters, and the arguments go with those from the
second on.  Here these are taken by index; an index that is out of range has no result.  None is:
there is a second parameter, or an end of the parameters, wherever there is a first one.  And the
depth of loops never has to go below zero: behind the body of a loop it is what it was before.

Main definitions:

- `parametersFrom?`, `methodCallByIndex` and `isConstructorByIndex?`: parameters taken by index.

Main results:

- Theorem `methodCallByIndex_eq`: a method call takes no parameter out of range.
- Theorem `isConstructorByIndex?_eq`: neither does the look at a constructor.
- Theorem `loopDepth_checkBlock`: statements leave the depth of loops as it was.
-/

namespace Offside
namespace Typing

/-- The parameters from an index on; the index may be that of the end. -/
def parametersFrom? (parameters : List Ty) (index : Nat) : Option (List Ty) :=
  if index ≤ parameters.length then some (parameters.drop index) else none

/-- A verdict that needs no index. -/
def judged {α : Type} (verdict : Verdict α) : ExceptT Diagnostic Option α :=
  ExceptT.mk (some verdict)

/-- The result of calling a method, with its parameters taken by index. -/
def methodCallByIndex (env : Env) (object : Expr Typed) (method : String)
    (arguments : List (Expr Typed)) (location : Location) : ExceptT Diagnostic Option Ty := do
  let (className, cls) ← judged (classOf env "method call" object location)
  let signature ←
    judged (demand (Table.find? cls.methods method) (.unknownMethod className method) location)
  match signature.parameters[0]? with
  | none => judged (refuse (.unexpectedArguments method 0 (arguments.length + 1)) location)
  | some receiver => do
    judged (require (object.ty.isAssignable receiver) (.argumentTypeMatchError receiver object.ty)
      object.note.location)
    let others ← ExceptT.lift (parametersFrom? signature.parameters 1)
    judged (checkArguments method others arguments location)
    return signature.ret

/-- Whether a method is a constructor as it has to be, with its parameter taken by index. -/
def isConstructorByIndex? {α : Type} (className : String) (method : FunDef α) : Option Bool :=
  if method.parameters.length = 1 then do
    let self ← method.parameters[0]?
    return self.name = "self" && self.ty.same (.plain className) && method.ret.same .none
  else return false

/-- A verdict goes on as what follows does. -/
theorem run_judged_bind {α β : Type} (verdict : Verdict α)
    {next : α → ExceptT Diagnostic Option β} {next' : α → Verdict β}
    (h : ∀ value, (next value).run = some (next' value)) :
    (judged verdict >>= next).run = some (verdict >>= next') := by
  cases verdict with
  | error diagnostic => rfl
  | ok value => exact h value

/-- A method call takes no parameter out of range. -/
theorem methodCallByIndex_eq (env : Env) (object : Expr Typed) (method : String)
    (arguments : List (Expr Typed)) (location : Location) :
    (methodCallByIndex env object method arguments location).run =
      some (methodCall env object method arguments location) := by
  refine run_judged_bind _ fun entry => run_judged_bind _ fun signature => ?_
  cases signature.parameters with
  | nil => rfl
  | cons receiver parameters =>
    refine run_judged_bind _ fun _ => ?_
    -- there is a first parameter, so the index of the second one is at most that of the end
    have hothers : parametersFrom? (receiver :: parameters) 1 = some parameters := by
      simp [parametersFrom?]
    rw [hothers]
    exact run_judged_bind _ fun _ => rfl

/-- The look at a constructor takes no parameter out of range. -/
theorem isConstructorByIndex?_eq {α : Type} (className : String) (method : FunDef α) :
    isConstructorByIndex? className method = some (isConstructor className method) := by
  unfold isConstructorByIndex? isConstructor
  rcases method.parameters with _ | ⟨self, _ | ⟨second, rest⟩⟩ <;> simp

/-- Statements leave the depth of loops as it was, whether they are accepted or refused. -/
theorem loopDepth_checkBlock (block : List (Stmt Location)) (context : Context) :
    (outcome (checkBlock block) context).2.locals.loopDepth = context.locals.loopDepth := by
  obtain ⟨handed, -, ⟨ret, hmove⟩, -⟩ := checkBlock_handsOut block context
  rw [hmove]
  rfl

end Typing
end Offside
