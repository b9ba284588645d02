import Offside.Proofs.Typing.Footprint
import Offside.Proofs.Typing.RuleSpecs

/-!
# Accepted expressions and statements

A check that succeeds is a derivation: there is one rule for each form of expression and statement,
which says in which contexts the parts are accepted, one after the other, and what is asked of
them.  The two theorems that open the checks are the only ones to do so where they succeed; all
else that holds of accepted trees follows by induction over the derivations.

Main definitions:

- `Context.forItem`: the context in which an item is in scope.
- `Expr.Checks`: an expression is accepted in a context, with a result.
- `Stmt.Checks`: a statement is accepted in a context, with a result and the context behind it.

Main results:

- Theorem `checkExpr_eq_ok`: the check of an expression succeeds exactly where it is accepted.
- Theorem `checkStmt_eq_ok`: so does the check of a statement.
-/

namespace Offside
namespace Typing

open Check

variable {α : Type}

/-! ## Contexts -/

/-- Handing out names changes nothing but the counters. -/
@[simp]
theorem Context.handOut_env (context : Context) (items : List String) :
    (context.handOut items).checker.env = context.checker.env := rfl

/-- Names are handed out for one row of items after another. -/
@[simp]
theorem Context.handOut_handOut (context : Context) (items more : List String) :
    (context.handOut items).handOut more = context.handOut (items ++ more) := by
  simp [Context.handOut]

/-- Where there are no items, no names are handed out. -/
@[simp]
theorem Context.handOut_nil (context : Context) : context.handOut [] = context := rfl

/-- The context in the scope of an item. -/
def Context.enter (context : Context) (item renamed : String) (ty : Ty) : Context :=
  { context with locals :=
    { context.locals with scopes := [(item, (renamed, ty))] :: context.locals.scopes } }

/-- The context behind the innermost scope. -/
def Context.leave (context : Context) : Context :=
  { context with locals := { context.locals with scopes := context.locals.scopes.tail } }

/-- The new name that an item gets next. -/
def Context.nextName (context : Context) (item : String) : String :=
  itemName item (used context.checker.counters item + 1)

/-- The context in which an item is in scope with the new name that it gets next. -/
def Context.forItem (context : Context) (item : String) (ty : Ty) : Context :=
  (context.handOut [item]).enter item (context.nextName item) ty

/-- Names that are handed out in the scope of an item stay handed out behind it. -/
theorem Context.leave_handOut_enter (context : Context) (item renamed : String) (ty : Ty)
    (items : List String) :
    ((context.enter item renamed ty).handOut items).leave = context.handOut items := rfl

/-- The names that a comprehension hands out: for its iterable, its item and its other parts. -/
theorem Context.handOut_comprehension (context : Context) (items : List String) (item : String)
    (more : List String) :
    ((context.handOut items).handOut [item]).handOut more =
      context.handOut (items ++ item :: more) := by
  rw [handOut_handOut, handOut_handOut, List.singleton_append]

/-! ## Steps of checks -/

/-- A look at the environment of the module succeeds. -/
@[simp]
theorem outcome_env (context : Context) :
    outcome Check.env context = (.ok context.checker.env, context) := rfl

/-- A look at the state of the body succeeds. -/
@[simp]
theorem outcome_locals (context : Context) :
    outcome Check.locals context = (.ok context.locals, context) := rfl

/-- A refusal is no success. -/
@[simp]
theorem outcome_refuseHere (cause : Cause) (location : Location) (context : Context) :
    outcome (refuseHere cause location : Check α) context =
      (.error ⟨cause, location⟩, context) := rfl

/-- The name handed out for an item is the next one. -/
@[simp]
theorem outcome_freshName (item : String) (context : Context) :
    outcome (freshName item) context = (.ok (context.nextName item), context.handOut [item]) :=
  rfl

/-- Only what the body returns is set. -/
@[simp]
theorem outcome_setActualRet (ret : Ty) (context : Context) :
    outcome (setActualRet ret) context = (.ok (), context.returning ret) := rfl

/-- The target of an assignment is a variable of the body or of the module. -/
@[simp]
theorem outcome_targetType (location : Location) (name : String) (context : Context) :
    outcome (targetType location name) context =
      (demand (context.var? name) (.unboundId name) location, context) := by
  rw [targetType, outcome_bind, outcome_get]
  exact outcome_lift _ _

/-- A statement that is allowed in loops only asks for a loop around. -/
@[simp]
theorem outcome_expectInLoop (keyword : String) (location : Location) (context : Context) :
    outcome (expectInLoop keyword location) context =
      (require context.locals.inLoop (.outsideLoop keyword) location, context) := by
  rw [expectInLoop, outcome_bind, outcome_locals]
  exact outcome_lift _ _

/-- A check between two changes of the body succeeds if it does in the body as first changed. -/
theorem outcome_between_eq_ok {before after : Locals → Locals} {check : Check α}
    {context last : Context} {value : α} :
    outcome (between before after check) context = (.ok value, last) ↔
      ∃ inner, outcome check { context with locals := before context.locals } = (.ok value, inner) ∧
        { inner with locals := after inner.locals } = last := by
  rw [outcome_between, Prod.mk.injEq]
  constructor
  · rintro ⟨hvalue, hlast⟩
    exact ⟨_, Prod.ext hvalue rfl, hlast⟩
  · rintro ⟨inner, hinner, hlast⟩
    rw [hinner]
    exact ⟨rfl, hlast⟩

/-- A check in the scope of an item succeeds if it does in the context there. -/
theorem outcome_inScope_eq_ok {item renamed : String} {ty : Ty} {check : Check α}
    {context last : Context} {value : α} :
    outcome (inScope item renamed ty check) context = (.ok value, last) ↔
      ∃ inner, outcome check (context.enter item renamed ty) = (.ok value, inner) ∧
        inner.leave = last :=
  outcome_between_eq_ok

/-- A check in a loop succeeds if it does one loop deeper. -/
theorem outcome_inLoop_eq_ok {check : Check α} {context last : Context} {value : α} :
    outcome (inLoop check) context = (.ok value, last) ↔
      ∃ inner, outcome check context.enterLoop = (.ok value, inner) ∧ inner.leaveLoop = last :=
  outcome_between_eq_ok

end Typing

open Typing

/-! ## Expressions -/

mutual

/-- `e.Checks context e'`: in the context, the expression `e` is accepted as `e'`.  Parts are
accepted in the order in which they are checked, each in the context that those before it leave. -/
inductive Expr.Checks : Context → Expr Location → Expr Typed → Prop where
  | literal {context : Context} {location : Location} {literal : Literal Location} :
      Checks context (.literal location literal)
        (.literal ⟨literalType literal.value, location⟩ (typedLiteral literal))
  /-- A name that stands for an item in scope. -/
  | item {context : Context} {location : Location} {name renamed : String} {ty : Ty}
      (bound : context.locals.item? name = some (renamed, ty)) :
      Checks context (.id location name) (.id ⟨ty, location⟩ renamed)
  /-- A name that stands for a variable. -/
  | var {context : Context} {location : Location} {name : String} {ty : Ty}
      (free : context.locals.item? name = none) (declared : context.var? name = some ty) :
      Checks context (.id location name) (.id ⟨ty, location⟩ name)
  | binOp {context : Context} {location : Location} {op : BinOp} {left right : Expr Location}
      {left' right' : Expr Typed} {ty : Ty} (onLeft : left.Checks context left')
      (onRight : right.Checks (context.handOut left.items) right')
      (gives : binOpResult op left'.ty right'.ty location = .ok ty) :
      Checks context (.binOp location op left right) (.binOp ⟨ty, location⟩ op left' right')
  | uniOp {context : Context} {location : Location} {op : UniOp} {operand : Expr Location}
      {operand' : Expr Typed} {ty : Ty} (onOperand : operand.Checks context operand')
      (gives : uniOpResult op operand'.ty location = .ok ty) :
      Checks context (.uniOp location op operand) (.uniOp ⟨ty, location⟩ op operand')
  | builtin1 {context : Context} {location : Location} {name : String} {argument : Expr Location}
      {argument' : Expr Typed} {ty : Ty} (onArgument : argument.Checks context argument')
      (gives : builtinCall context.checker.env name argument' location = .ok ty) :
      Checks context (.builtin1 location name argument) (.builtin1 ⟨ty, location⟩ name argument')
  | builtin2 {context : Context} {location : Location} {name : String}
      {left right : Expr Location} {left' right' : Expr Typed} {ty : Ty}
      (onLeft : left.Checks context left')
      (onRight : right.Checks (context.handOut left.items) right')
      (gives : functionCall context.checker.env name [left', right'] location = .ok ty) :
      Checks context (.builtin2 location name left right)
        (.builtin2 ⟨ty, location⟩ name left' right')
  /-- A call is that of a function, or creates an object. -/
  | call {context : Context} {location : Location} {name : String} {genericArgs : List Ty}
      {arguments : List (Expr Location)} {arguments' : List (Expr Typed)} {e' : Expr Typed}
      (onArguments : Expr.ChecksAll context arguments arguments')
      (gives : typedCall context.checker.env name genericArgs arguments' location = .ok e') :
      Checks context (.call location name genericArgs arguments) e'
  | construct {context : Context} {location : Location} {name : String}
      {arguments : List (Expr Location)} {arguments' : List (Expr Typed)} {cls : ClassInfo}
      (isClass : context.checker.env.class? name = some cls)
      (onArguments : Expr.ChecksAll context arguments arguments') :
      Checks context (.construct location name arguments)
        (.construct ⟨.plain name, location⟩ name arguments')
  | lookup {context : Context} {location : Location} {object : Expr Location} {field : String}
      {object' : Expr Typed} {ty : Ty} (onObject : object.Checks context object')
      (gives : fieldType context.checker.env "field lookup" object' field location = .ok ty) :
      Checks context (.lookup location object field) (.lookup ⟨ty, location⟩ object' field)
  | methodCall {context : Context} {location : Location} {object : Expr Location}
      {method : String} {arguments : List (Expr Location)} {object' : Expr Typed}
      {arguments' : List (Expr Typed)} {ty : Ty} (onObject : object.Checks context object')
      (onArguments : Expr.ChecksAll (context.handOut object.items) arguments arguments')
      (gives : Typing.methodCall context.checker.env object' method arguments' location = .ok ty) :
      Checks context (.methodCall location object method arguments)
        (.methodCall ⟨ty, location⟩ object' method arguments')
  | index {context : Context} {location : Location} {object position : Expr Location}
      {object' position' : Expr Typed} {ty : Ty} (onObject : object.Checks context object')
      (onPosition : position.Checks (context.handOut object.items) position')
      (gives : indexType object' position' location = .ok ty) :
      Checks context (.index location object position) (.index ⟨ty, location⟩ object' position')
  | listLiteral {context : Context} {location : Location} {elements : List (Expr Location)}
      {elements' : List (Expr Typed)} {ty : Ty}
      (onElements : Expr.ChecksAll context elements elements')
      (gives : listType elements' = .ok ty) :
      Checks context (.listLiteral location elements) (.listLiteral ⟨ty, location⟩ elements')
  | ternary {context : Context} {location : Location} {ifTrue condition ifFalse : Expr Location}
      {ifTrue' condition' ifFalse' : Expr Typed} (onTrue : ifTrue.Checks context ifTrue')
      (onCondition : condition.Checks (context.handOut ifTrue.items) condition')
      (onFalse : ifFalse.Checks ((context.handOut ifTrue.items).handOut condition.items) ifFalse')
      (isBool : expectBool condition' = .ok ()) :
      Checks context (.ternary location ifTrue condition ifFalse)
        (.ternary ⟨ternaryType ifTrue'.ty ifFalse'.ty, location⟩ ifTrue' condition' ifFalse')
  /-- The iterable is outside of the scope of the item, the result inside. -/
  | comprehension {context : Context} {location : Location} {kind : ComprehensionKind}
      {result iterable : Expr Location} {item : String} {result' iterable' : Expr Typed}
      {element : Ty} (onIterable : iterable.Checks context iterable')
      (yields : expectIterable context.checker.env iterable' = .ok element)
      (onResult : result.Checks ((context.handOut iterable.items).forItem item element) result') :
      Checks context (.comprehension location kind result item iterable none)
        (.comprehension ⟨kind.container element, location⟩ kind result'
          ((context.handOut iterable.items).nextName item) iterable' none)
  /-- A filter is inside of the scope too, and comes before the result. -/
  | filtered {context : Context} {location : Location} {kind : ComprehensionKind}
      {result iterable filter : Expr Location} {item : String}
      {result' iterable' filter' : Expr Typed} {element : Ty}
      (onIterable : iterable.Checks context iterable')
      (yields : expectIterable context.checker.env iterable' = .ok element)
      (onFilter : filter.Checks ((context.handOut iterable.items).forItem item element) filter')
      (isBool : expectBool filter' = .ok ())
      (onResult : result.Checks
        (((context.handOut iterable.items).forItem item element).handOut filter.items) result') :
      Checks context (.comprehension location kind result item iterable (some filter))
        (.comprehension ⟨kind.container element, location⟩ kind result'
          ((context.handOut iterable.items).nextName item) iterable' (some filter'))

/-- Expressions in a row are accepted one after the other. -/
inductive Expr.ChecksAll : Context → List (Expr Location) → List (Expr Typed) → Prop where
  | nil {context : Context} : ChecksAll context [] []
  | cons {context : Context} {first : Expr Location} {rest : List (Expr Location)}
      {first' : Expr Typed} {rest' : List (Expr Typed)} (onFirst : first.Checks context first')
      (onRest : Expr.ChecksAll (context.handOut first.items) rest rest') :
      ChecksAll context (first :: rest) (first' :: rest')

end

namespace Typing

open Check

/-- A name is accepted if it stands for an item in scope, or else for a variable. -/
theorem checkId_eq_ok {location : Location} {name : String} {context after : Context}
    {e' : Expr Typed} :
    outcome (checkId location name) context = (.ok e', after) ↔
      (Expr.id location name).Checks context e' ∧ after = context := by
  simp only [checkId, outcome_bind, outcome_get]
  constructor
  · intro h
    split at h
    · next hitem =>
      cases h
      exact ⟨.item hitem, rfl⟩
    · next hitem =>
      split at h
      · next hvar =>
        cases h
        exact ⟨.var hitem hvar, rfl⟩
      · cases h
  · rintro ⟨hchecks, rfl⟩
    cases hchecks with
    | item bound => rw [bound]; rfl
    | var free declared => rw [free, declared]; rfl

mutual

/-- The check of an expression succeeds exactly where the expression is accepted, and then it has
handed out names for all items in it. -/
theorem checkExpr_eq_ok {e : Expr Location} {context after : Context} {e' : Expr Typed} :
    outcome (checkExpr e) context = (.ok e', after) ↔
      e.Checks context e' ∧ after = context.handOut e.items := by
  match e with
  | .literal location literal =>
    rw [checkExpr, outcome_pure, Prod.mk.injEq, Except.ok.injEq]
    constructor
    · rintro ⟨rfl, rfl⟩
      exact ⟨.literal, rfl⟩
    · rintro ⟨hchecks, rfl⟩
      cases hchecks with
      | literal => exact ⟨rfl, rfl⟩
  | .id location name =>
    rw [checkExpr]
    exact checkId_eq_ok
  | .binOp location op left right =>
    simp only [checkExpr, outcome_bind_ok, checkExpr_eq_ok, outcome_lift, outcome_pure,
      Prod.mk.injEq, Except.ok.injEq]
    constructor
    · rintro ⟨_, _, ⟨onLeft, rfl⟩, _, _, ⟨onRight, rfl⟩, _, _, ⟨gives, rfl⟩, rfl, rfl⟩
      exact ⟨.binOp onLeft onRight gives, Context.handOut_handOut ..⟩
    · rintro ⟨hchecks, rfl⟩
      cases hchecks with
      | binOp onLeft onRight gives =>
        exact ⟨_, _, ⟨onLeft, rfl⟩, _, _, ⟨onRight, rfl⟩, _, _, ⟨gives, rfl⟩, rfl,
          Context.handOut_handOut ..⟩
  | .uniOp location op operand =>
    simp only [checkExpr, outcome_bind_ok, checkExpr_eq_ok, outcome_lift, outcome_pure,
      Prod.mk.injEq, Except.ok.injEq]
    constructor
    · rintro ⟨_, _, ⟨onOperand, rfl⟩, _, _, ⟨gives, rfl⟩, rfl, rfl⟩
      exact ⟨.uniOp onOperand gives, rfl⟩
    · rintro ⟨hchecks, rfl⟩
      cases hchecks with
      | uniOp onOperand gives => exact ⟨_, _, ⟨onOperand, rfl⟩, _, _, ⟨gives, rfl⟩, rfl, rfl⟩
  | .builtin1 location name argument =>
    simp only [checkExpr, outcome_bind_ok, checkExpr_eq_ok, outcome_lift, outcome_env,
      outcome_pure, Prod.mk.injEq, Except.ok.injEq]
    constructor
    · rintro ⟨_, _, ⟨onArgument, rfl⟩, _, _, ⟨rfl, rfl⟩, _, _, ⟨gives, rfl⟩, rfl, rfl⟩
      exact ⟨.builtin1 onArgument gives, rfl⟩
    · rintro ⟨hchecks, rfl⟩
      cases hchecks with
      | builtin1 onArgument gives =>
        exact ⟨_, _, ⟨onArgument, rfl⟩, _, _, ⟨rfl, rfl⟩, _, _, ⟨gives, rfl⟩, rfl, rfl⟩
  | .builtin2 location name left right =>
    simp only [checkExpr, outcome_bind_ok, checkExpr_eq_ok, outcome_lift, outcome_env,
      outcome_pure, Prod.mk.injEq, Except.ok.injEq]
    constructor
    · rintro ⟨_, _, ⟨onLeft, rfl⟩, _, _, ⟨onRight, rfl⟩, _, _, ⟨rfl, rfl⟩, _, _, ⟨gives, rfl⟩,
        rfl, rfl⟩
      exact ⟨.builtin2 onLeft onRight gives, Context.handOut_handOut ..⟩
    · rintro ⟨hchecks, rfl⟩
      cases hchecks with
      | builtin2 onLeft onRight gives =>
        exact ⟨_, _, ⟨onLeft, rfl⟩, _, _, ⟨onRight, rfl⟩, _, _, ⟨rfl, rfl⟩, _, _, ⟨gives, rfl⟩,
          rfl, Context.handOut_handOut ..⟩
  | .call location name genericArgs arguments =>
    simp only [checkExpr, outcome_bind_ok, checkExprs_eq_ok, outcome_lift, outcome_env,
      Prod.mk.injEq, Except.ok.injEq]
    constructor
    · rintro ⟨_, _, ⟨onArguments, rfl⟩, _, _, ⟨rfl, rfl⟩, gives, rfl⟩
      exact ⟨.call onArguments gives, rfl⟩
    · rintro ⟨hchecks, rfl⟩
      cases hchecks with
      | call onArguments gives =>
        exact ⟨_, _, ⟨onArguments, rfl⟩, _, _, ⟨rfl, rfl⟩, gives, rfl⟩
  | .construct location name arguments =>
    simp only [checkExpr, outcome_bind_ok, checkExprs_eq_ok, outcome_lift, outcome_env,
      outcome_pure, Prod.mk.injEq, Except.ok.injEq, demand_eq_ok]
    constructor
    · rintro ⟨_, _, ⟨rfl, rfl⟩, _, _, ⟨isClass, rfl⟩, _, _, ⟨onArguments, rfl⟩, rfl, rfl⟩
      exact ⟨.construct isClass onArguments, rfl⟩
    · rintro ⟨hchecks, rfl⟩
      cases hchecks with
      | construct isClass onArguments =>
        exact ⟨_, _, ⟨rfl, rfl⟩, _, _, ⟨isClass, rfl⟩, _, _, ⟨onArguments, rfl⟩, rfl, rfl⟩
  | .lookup location object field =>
    simp only [checkExpr, outcome_bind_ok, checkExpr_eq_ok, outcome_lift, outcome_env,
      outcome_pure, Prod.mk.injEq, Except.ok.injEq]
    constructor
    · rintro ⟨_, _, ⟨onObject, rfl⟩, _, _, ⟨rfl, rfl⟩, _, _, ⟨gives, rfl⟩, rfl, rfl⟩
      exact ⟨.lookup onObject gives, rfl⟩
    · rintro ⟨hchecks, rfl⟩
      cases hchecks with
      | lookup onObject gives =>
        exact ⟨_, _, ⟨onObject, rfl⟩, _, _, ⟨rfl, rfl⟩, _, _, ⟨gives, rfl⟩, rfl, rfl⟩
  | .methodCall location object method arguments =>
    simp only [checkExpr, outcome_bind_ok, checkExpr_eq_ok, checkExprs_eq_ok, outcome_lift,
      outcome_env, outcome_pure, Prod.mk.injEq, Except.ok.injEq]
    constructor
    · rintro ⟨_, _, ⟨onObject, rfl⟩, _, _, ⟨onArguments, rfl⟩, _, _, ⟨rfl, rfl⟩, _, _,
        ⟨gives, rfl⟩, rfl, rfl⟩
      exact ⟨.methodCall onObject onArguments gives, Context.handOut_handOut ..⟩
    · rintro ⟨hchecks, rfl⟩
      cases hchecks with
      | methodCall onObject onArguments gives =>
        exact ⟨_, _, ⟨onObject, rfl⟩, _, _, ⟨onArguments, rfl⟩, _, _, ⟨rfl, rfl⟩, _, _,
          ⟨gives, rfl⟩, rfl, Context.handOut_handOut ..⟩
  | .index location object position =>
    simp only [checkExpr, outcome_bind_ok, checkExpr_eq_ok, outcome_lift, outcome_pure,
      Prod.mk.injEq, Except.ok.injEq]
    constructor
    · rintro ⟨_, _, ⟨onObject, rfl⟩, _, _, ⟨onPosition, rfl⟩, _, _, ⟨gives, rfl⟩, rfl, rfl⟩
      exact ⟨.index onObject onPosition gives, Context.handOut_handOut ..⟩
    · rintro ⟨hchecks, rfl⟩
      cases hchecks with
      | index onObject onPosition gives =>
        exact ⟨_, _, ⟨onObject, rfl⟩, _, _, ⟨onPosition, rfl⟩, _, _, ⟨gives, rfl⟩, rfl,
          Context.handOut_handOut ..⟩
  | .listLiteral location elements =>
    simp only [checkExpr, outcome_bind_ok, checkExprs_eq_ok, outcome_lift, outcome_pure,
      Prod.mk.injEq, Except.ok.injEq]
    constructor
    · rintro ⟨_, _, ⟨onElements, rfl⟩, _, _, ⟨gives, rfl⟩, rfl, rfl⟩
      exact ⟨.listLiteral onElements gives, rfl⟩
    · rintro ⟨hchecks, rfl⟩
      cases hchecks with
      | listLiteral onElements gives =>
        exact ⟨_, _, ⟨onElements, rfl⟩, _, _, ⟨gives, rfl⟩, rfl, rfl⟩
  | .ternary location ifTrue condition ifFalse =>
    simp only [checkExpr, outcome_bind_ok, checkExpr_eq_ok, outcome_lift, outcome_pure,
      Prod.mk.injEq, Except.ok.injEq]
    constructor
    · rintro ⟨_, _, ⟨onTrue, rfl⟩, _, _, ⟨onCondition, rfl⟩, _, _, ⟨onFalse, rfl⟩, _, _,
        ⟨isBool, rfl⟩, rfl, rfl⟩
      refine ⟨.ternary onTrue onCondition onFalse isBool, ?_⟩
      rw [Context.handOut_handOut, Context.handOut_handOut, Expr.items]
    · rintro ⟨hchecks, rfl⟩
      cases hchecks with
      | ternary onTrue onCondition onFalse isBool =>
        refine ⟨_, _, ⟨onTrue, rfl⟩, _, _, ⟨onCondition, rfl⟩, _, _, ⟨onFalse, rfl⟩, _, _,
          ⟨isBool, rfl⟩, rfl, ?_⟩
        rw [Context.handOut_handOut, Context.handOut_handOut, Expr.items]
  | .comprehension location kind result item iterable none =>
    simp only [checkExpr, outcome_bind_ok, checkExpr_eq_ok, outcome_lift, outcome_env,
      outcome_freshName, outcome_inScope_eq_ok, outcome_pure, Prod.mk.injEq, Except.ok.injEq]
    constructor
    · rintro ⟨_, _, ⟨onIterable, rfl⟩, _, _, ⟨rfl, rfl⟩, _, _, ⟨yields, rfl⟩, _, _, ⟨rfl, rfl⟩,
        _, _, ⟨_, ⟨onResult, rfl⟩, rfl⟩, rfl, rfl⟩
      refine ⟨.comprehension onIterable yields onResult, ?_⟩
      rw [Context.leave_handOut_enter, Context.handOut_comprehension, Expr.items]
    · rintro ⟨hchecks, rfl⟩
      cases hchecks with
      | comprehension onIterable yields onResult =>
        refine ⟨_, _, ⟨onIterable, rfl⟩, _, _, ⟨rfl, rfl⟩, _, _, ⟨yields, rfl⟩, _, _, ⟨rfl, rfl⟩,
          _, _, ⟨_, ⟨onResult, rfl⟩, rfl⟩, rfl, ?_⟩
        rw [Context.leave_handOut_enter, Context.handOut_comprehension, Expr.items]
  | .comprehension location kind result item iterable (some filter) =>
    simp only [checkExpr, outcome_bind_ok, checkExpr_eq_ok, outcome_lift, outcome_env,
      outcome_freshName, outcome_inScope_eq_ok, outcome_pure, Prod.mk.injEq, Except.ok.injEq]
    constructor
    · rintro ⟨_, _, ⟨onIterable, rfl⟩, _, _, ⟨rfl, rfl⟩, _, _, ⟨yields, rfl⟩, _, _, ⟨rfl, rfl⟩,
        _, _, ⟨_, ⟨_, _, ⟨onFilter, rfl⟩, _, _, ⟨isBool, rfl⟩, _, _, ⟨onResult, rfl⟩, rfl, rfl⟩,
        rfl⟩, rfl, rfl⟩
      refine ⟨.filtered onIterable yields onFilter isBool onResult, ?_⟩
      rw [Context.handOut_handOut, Context.leave_handOut_enter, Context.handOut_comprehension, Expr.items]
    · rintro ⟨hchecks, rfl⟩
      cases hchecks with
      | filtered onIterable yields onFilter isBool onResult =>
        refine ⟨_, _, ⟨onIterable, rfl⟩, _, _, ⟨rfl, rfl⟩, _, _, ⟨yields, rfl⟩, _, _, ⟨rfl, rfl⟩,
          _, _, ⟨_, ⟨_, _, ⟨onFilter, rfl⟩, _, _, ⟨isBool, rfl⟩, _, _, ⟨onResult, rfl⟩, rfl,
          rfl⟩, rfl⟩, rfl, ?_⟩
        rw [Context.handOut_handOut, Context.leave_handOut_enter, Context.handOut_comprehension,
          Expr.items]

/-- So do the checks of expressions in a row. -/
theorem checkExprs_eq_ok {es : List (Expr Location)} {context after : Context}
    {es' : List (Expr Typed)} :
    outcome (checkExprs es) context = (.ok es', after) ↔
      Expr.ChecksAll context es es' ∧ after = context.handOut (Expr.itemsAll es) := by
  match es with
  | [] =>
    rw [checkExprs, outcome_pure, Prod.mk.injEq, Except.ok.injEq]
    constructor
    · rintro ⟨rfl, rfl⟩
      exact ⟨.nil, rfl⟩
    · rintro ⟨hchecks, rfl⟩
      cases hchecks with
      | nil => exact ⟨rfl, rfl⟩
  | first :: rest =>
    simp only [checkExprs, outcome_bind_ok, checkExpr_eq_ok, checkExprs_eq_ok, outcome_pure,
      Prod.mk.injEq, Except.ok.injEq]
    constructor
    · rintro ⟨_, _, ⟨onFirst, rfl⟩, _, _, ⟨onRest, rfl⟩, rfl, rfl⟩
      exact ⟨.cons onFirst onRest, Context.handOut_handOut ..⟩
    · rintro ⟨hchecks, rfl⟩
      cases hchecks with
      | cons onFirst onRest =>
        exact ⟨_, _, ⟨onFirst, rfl⟩, _, _, ⟨onRest, rfl⟩, rfl, Context.handOut_handOut ..⟩

end

end Typing

/-! ## Statements -/

mutual

/-- `s.Checks context s' after`: in the context, the statement `s` is accepted as `s'`, and leaves
the context `after`. -/
inductive Stmt.Checks : Context → Stmt Location → Stmt Typed → Context → Prop where
  | assign {context : Context} {location : Location} {name : String} {value : Expr Location}
      {value' : Expr Typed} {target : Ty} (onValue : value.Checks context value')
      (declared : context.var? name = some target)
      (fits : storable target value'.ty location = .ok ()) :
      Checks context (.assign location name value) (.assign ⟨.none, location⟩ name value')
        (context.handOut value.items)
  | fieldAssign {context : Context} {location : Location} {object value : Expr Location}
      {field : String} {object' value' : Expr Typed} {target : Ty}
      (onObject : object.Checks context object')
      (onValue : value.Checks (context.handOut object.items) value')
      (gives : fieldType context.checker.env "field assignment" object' field location = .ok target)
      (fits : storable target value'.ty location = .ok ()) :
      Checks context (.fieldAssign location object field value)
        (.fieldAssign ⟨.none, location⟩ object' field value')
        (context.handOut (object.items ++ value.items))
  | indexAssign {context : Context} {location : Location} {object position value : Expr Location}
      {object' position' value' : Expr Typed} {element : Ty}
      (onObject : object.Checks context object')
      (onPosition : position.Checks (context.handOut object.items) position')
      (onValue : value.Checks ((context.handOut object.items).handOut position.items) value')
      (isIndex : expectIndex position' = .ok ()) (isList : object'.ty = .list element)
      (fits : storable element value'.ty location = .ok ()) :
      Checks context (.indexAssign location object position value)
        (.indexAssign ⟨.none, location⟩ object' position' value')
        (context.handOut (object.items ++ (position.items ++ value.items)))
  | expr {context : Context} {location : Location} {value : Expr Location} {value' : Expr Typed}
      (onValue : value.Checks context value') :
      Checks context (.expr location value) (.expr ⟨value'.ty, location⟩ value')
        (context.handOut value.items)
  /-- The type of what is returned is that of the last return. -/
  | return {context : Context} {location : Location} {value : Expr Location} {value' : Expr Typed}
      (inFunction : context.locals.topLevel = false) (onValue : value.Checks context value')
      (fits : value'.ty.isAssignable context.locals.expectedRet = true) :
      Checks context (.return location value) (.return ⟨value'.ty, location⟩ value')
        ((context.handOut value.items).returning value'.ty)
  /-- The second block starts as if nothing had been returned. -/
  | cond {context middle last : Context} {location : Location} {condition : Expr Location}
      {body otherwise : List (Stmt Location)} {condition' : Expr Typed}
      {body' otherwise' : List (Stmt Typed)} (onCondition : condition.Checks context condition')
      (isBool : expectBool condition' = .ok ())
      (onBody : Stmt.ChecksAll (context.handOut condition.items) body body' middle)
      (onOtherwise : Stmt.ChecksAll (middle.returning .none) otherwise otherwise' last) :
      Checks context (.cond location condition body otherwise)
        (.cond ⟨middle.locals.actualRet, location⟩ condition' body' otherwise')
        (last.returning (joinReturns middle.locals.actualRet last.locals.actualRet))
  | while {context last : Context} {location : Location} {condition : Expr Location}
      {body : List (Stmt Location)} {condition' : Expr Typed} {body' : List (Stmt Typed)}
      (onCondition : condition.Checks context condition') (isBool : expectBool condition' = .ok ())
      (onBody : Stmt.ChecksAll (context.handOut condition.items).enterLoop body body' last) :
      Checks context (.while location condition body)
        (.while ⟨.none, location⟩ condition' body') last.leaveLoop
  /-- The second block is behind the loop. -/
  | for {context middle last : Context} {location : Location} {item : String}
      {iterable : Expr Location} {body otherwise : List (Stmt Location)} {iterable' : Expr Typed}
      {body' otherwise' : List (Stmt Typed)} {element target : Ty}
      (onIterable : iterable.Checks context iterable')
      (yields : expectIterable context.checker.env iterable' = .ok element)
      (declared : context.var? item = some target)
      (fits : storable target element location = .ok ())
      (onBody : Stmt.ChecksAll (context.handOut iterable.items).enterLoop body body' middle)
      (onOtherwise : Stmt.ChecksAll middle.leaveLoop otherwise otherwise' last) :
      Checks context (.for location item iterable body otherwise)
        (.for ⟨.none, location⟩ item iterable' body' otherwise') last
  | pass {context : Context} {location : Location} :
      Checks context (.pass location) (.pass ⟨.none, location⟩) context
  | continue {context : Context} {location : Location}
      (inLoop : context.locals.inLoop = true) :
      Checks context (.continue location) (.continue ⟨.none, location⟩) context
  | break {context : Context} {location : Location} (inLoop : context.locals.inLoop = true) :
      Checks context (.break location) (.break ⟨.none, location⟩) context

/-- Statements in a row are accepted one after the other. -/
inductive Stmt.ChecksAll :
    Context → List (Stmt Location) → List (Stmt Typed) → Context → Prop where
  | nil {context : Context} : ChecksAll context [] [] context
  | cons {context middle last : Context} {first : Stmt Location} {rest : List (Stmt Location)}
      {first' : Stmt Typed} {rest' : List (Stmt Typed)}
      (onFirst : first.Checks context first' middle)
      (onRest : Stmt.ChecksAll middle rest rest' last) :
      ChecksAll context (first :: rest) (first' :: rest') last

end

namespace Typing

mutual

/-- The check of a statement succeeds exactly where the statement is accepted. -/
theorem checkStmt_eq_ok {s : Stmt Location} {context after : Context} {s' : Stmt Typed} :
    outcome (checkStmt s) context = (.ok s', after) ↔ s.Checks context s' after := by
  match s with
  | .assign location name value =>
    simp only [checkStmt, outcome_bind_ok, checkExpr_eq_ok, outcome_lift, outcome_targetType,
      outcome_pure, Prod.mk.injEq, Except.ok.injEq, demand_eq_ok]
    constructor
    · rintro ⟨_, _, ⟨onValue, rfl⟩, _, _, ⟨declared, rfl⟩, _, _, ⟨fits, rfl⟩, rfl, rfl⟩
      exact .assign onValue declared fits
    · intro h
      cases h with
      | assign onValue declared fits =>
        exact ⟨_, _, ⟨onValue, rfl⟩, _, _, ⟨declared, rfl⟩, _, _, ⟨fits, rfl⟩, rfl, rfl⟩
  | .fieldAssign location object field value =>
    simp only [checkStmt, outcome_bind_ok, checkExpr_eq_ok, outcome_lift, outcome_env,
      outcome_pure, Prod.mk.injEq, Except.ok.injEq]
    constructor
    · rintro ⟨_, _, ⟨onObject, rfl⟩, _, _, ⟨onValue, rfl⟩, _, _, ⟨rfl, rfl⟩, _, _, ⟨gives, rfl⟩,
        _, _, ⟨fits, rfl⟩, rfl, rfl⟩
      rw [Context.handOut_handOut]
      exact .fieldAssign onObject onValue gives fits
    · intro h
      cases h with
      | fieldAssign onObject onValue gives fits =>
        exact ⟨_, _, ⟨onObject, rfl⟩, _, _, ⟨onValue, rfl⟩, _, _, ⟨rfl, rfl⟩, _, _, ⟨gives, rfl⟩,
          _, _, ⟨fits, rfl⟩, rfl, Context.handOut_handOut ..⟩
  | .indexAssign location object position value =>
    simp only [checkStmt, outcome_bind_ok, checkExpr_eq_ok, outcome_lift, Prod.mk.injEq]
    constructor
    · rintro ⟨_, _, ⟨onObject, rfl⟩, _, _, ⟨onPosition, rfl⟩, _, _, ⟨onValue, rfl⟩, _, _,
        ⟨isIndex, rfl⟩, h⟩
      split at h
      · next isList =>
        simp only [outcome_bind_ok, outcome_lift, outcome_pure, Prod.mk.injEq,
          Except.ok.injEq] at h
        obtain ⟨_, _, ⟨fits, rfl⟩, rfl, rfl⟩ := h
        rw [Context.handOut_handOut, Context.handOut_handOut]
        exact .indexAssign onObject onPosition onValue isIndex isList fits
      · cases h
    · intro h
      cases h with
      | indexAssign onObject onPosition onValue isIndex isList fits =>
        refine ⟨_, _, ⟨onObject, rfl⟩, _, _, ⟨onPosition, rfl⟩, _, _, ⟨onValue, rfl⟩, _, _,
          ⟨isIndex, rfl⟩, ?_⟩
        simp only [isList, outcome_bind, outcome_lift, fits, outcome_pure,
          Context.handOut_handOut, List.append_assoc]
  | .expr location value =>
    simp only [checkStmt, outcome_bind_ok, checkExpr_eq_ok, outcome_pure, Prod.mk.injEq,
      Except.ok.injEq]
    constructor
    · rintro ⟨_, _, ⟨onValue, rfl⟩, rfl, rfl⟩
      exact .expr onValue
    · intro h
      cases h with
      | expr onValue => exact ⟨_, _, ⟨onValue, rfl⟩, rfl, rfl⟩
  | .return location value =>
    simp only [checkStmt, outcome_bind_ok, checkExpr_eq_ok, outcome_lift, outcome_locals,
      outcome_setActualRet, outcome_pure, Prod.mk.injEq, Except.ok.injEq, require_eq_ok,
      Bool.not_eq_true']
    constructor
    · rintro ⟨_, _, ⟨rfl, rfl⟩, _, _, ⟨inFunction, rfl⟩, _, _, ⟨onValue, rfl⟩, _, _, ⟨rfl, rfl⟩,
        _, _, ⟨fits, rfl⟩, _, _, ⟨-, rfl⟩, rfl, rfl⟩
      exact .return inFunction onValue fits
    · intro h
      cases h with
      | «return» inFunction onValue fits =>
        exact ⟨_, _, ⟨rfl, rfl⟩, (), _, ⟨inFunction, rfl⟩, _, _, ⟨onValue, rfl⟩, _, _, ⟨rfl, rfl⟩,
          (), _, ⟨fits, rfl⟩, (), _, ⟨trivial, rfl⟩, rfl, rfl⟩
  | .cond location condition body otherwise =>
    simp only [checkStmt, outcome_bind_ok, checkExpr_eq_ok, checkBlock_eq_ok, outcome_lift,
      outcome_locals, outcome_setActualRet, outcome_pure, Prod.mk.injEq, Except.ok.injEq]
    constructor
    · rintro ⟨_, _, ⟨onCondition, rfl⟩, _, _, ⟨isBool, rfl⟩, _, _, onBody, _, _, ⟨rfl, rfl⟩, _, _,
        ⟨-, rfl⟩, _, _, onOtherwise, _, _, ⟨rfl, rfl⟩, _, _, ⟨-, rfl⟩, rfl, rfl⟩
      exact .cond onCondition isBool onBody onOtherwise
    · intro h
      cases h with
      | cond onCondition isBool onBody onOtherwise =>
        exact ⟨_, _, ⟨onCondition, rfl⟩, _, _, ⟨isBool, rfl⟩, _, _, onBody, _, _, ⟨rfl, rfl⟩, (),
          _, ⟨trivial, rfl⟩, _, _, onOtherwise, _, _, ⟨rfl, rfl⟩, (), _, ⟨trivial, rfl⟩, rfl, rfl⟩
  | .while location condition body =>
    simp only [checkStmt, outcome_bind_ok, checkExpr_eq_ok, checkBlock_eq_ok, outcome_lift,
      outcome_inLoop_eq_ok, outcome_pure, Prod.mk.injEq, Except.ok.injEq]
    constructor
    · rintro ⟨_, _, ⟨onCondition, rfl⟩, _, _, ⟨isBool, rfl⟩, _, _, ⟨_, onBody, rfl⟩, rfl, rfl⟩
      exact .while onCondition isBool onBody
    · intro h
      cases h with
      | «while» onCondition isBool onBody =>
        exact ⟨_, _, ⟨onCondition, rfl⟩, _, _, ⟨isBool, rfl⟩, _, _, ⟨_, onBody, rfl⟩, rfl, rfl⟩
  | .for location item iterable body otherwise =>
    simp only [checkStmt, outcome_bind_ok, checkExpr_eq_ok, checkBlock_eq_ok, outcome_lift,
      outcome_env, outcome_targetType, outcome_inLoop_eq_ok, outcome_pure, Prod.mk.injEq,
      Except.ok.injEq, demand_eq_ok]
    constructor
    · rintro ⟨_, _, ⟨onIterable, rfl⟩, _, _, ⟨rfl, rfl⟩, _, _, ⟨yields, rfl⟩, _, _,
        ⟨declared, rfl⟩, _, _, ⟨fits, rfl⟩, _, _, ⟨_, onBody, rfl⟩, _, _, onOtherwise, rfl, rfl⟩
      exact .for onIterable yields declared fits onBody onOtherwise
    · intro h
      cases h with
      | «for» onIterable yields declared fits onBody onOtherwise =>
        exact ⟨_, _, ⟨onIterable, rfl⟩, _, _, ⟨rfl, rfl⟩, _, _, ⟨yields, rfl⟩, _, _,
          ⟨declared, rfl⟩, _, _, ⟨fits, rfl⟩, _, _, ⟨_, onBody, rfl⟩, _, _, onOtherwise, rfl, rfl⟩
  | .pass location =>
    rw [checkStmt, outcome_pure, Prod.mk.injEq, Except.ok.injEq]
    constructor
    · rintro ⟨rfl, rfl⟩
      exact .pass
    · intro h
      cases h with
      | pass => exact ⟨rfl, rfl⟩
  | .continue location =>
    simp only [checkStmt, outcome_bind_ok, outcome_expectInLoop, outcome_pure, Prod.mk.injEq,
      Except.ok.injEq, require_eq_ok]
    constructor
    · rintro ⟨_, _, ⟨inLoop, rfl⟩, rfl, rfl⟩
      exact .continue inLoop
    · intro h
      cases h with
      | «continue» inLoop => exact ⟨(), _, ⟨inLoop, rfl⟩, rfl, rfl⟩
  | .break location =>
    simp only [checkStmt, outcome_bind_ok, outcome_expectInLoop, outcome_pure, Prod.mk.injEq,
      Except.ok.injEq, require_eq_ok]
    constructor
    · rintro ⟨_, _, ⟨inLoop, rfl⟩, rfl, rfl⟩
      exact .break inLoop
    · intro h
      cases h with
      | «break» inLoop => exact ⟨(), _, ⟨inLoop, rfl⟩, rfl, rfl⟩

/-- So do the checks of statements in a row. -/
theorem checkBlock_eq_ok {block : List (Stmt Location)} {context after : Context}
    {block' : List (Stmt Typed)} :
    outcome (checkBlock block) context = (.ok block', after) ↔
      Stmt.ChecksAll context block block' after := by
  match block with
  | [] =>
    rw [checkBlock, outcome_pure, Prod.mk.injEq, Except.ok.injEq]
    constructor
    · rintro ⟨rfl, rfl⟩
      exact .nil
    · intro h
      cases h with
      | nil => exact ⟨rfl, rfl⟩
  | first :: rest =>
    simp only [checkBlock, outcome_bind_ok, checkStmt_eq_ok, checkBlock_eq_ok, outcome_pure,
      Prod.mk.injEq, Except.ok.injEq]
    constructor
    · rintro ⟨_, _, onFirst, _, _, onRest, rfl, rfl⟩
      exact .cons onFirst onRest
    · intro h
      cases h with
      | cons onFirst onRest => exact ⟨_, _, onFirst, _, _, onRest, rfl, rfl⟩

end

end Typing

/-- An accepted statement hands out the names of its items, and may change what is returned. -/
theorem Stmt.Checks.move {s : Stmt Location} {context after : Context} {s' : Stmt Typed}
    (h : s.Checks context s' after) : BodyMove s.items context after :=
  (checkStmt_handsOut s).moves_of_ok (checkStmt_eq_ok.mpr h)

/-- So do accepted statements in a row. -/
theorem Stmt.ChecksAll.move {block : List (Stmt Location)} {context after : Context}
    {block' : List (Stmt Typed)} (h : Stmt.ChecksAll context block block' after) :
    BodyMove (Stmt.itemsAll block) context after :=
  (checkBlock_handsOut block).moves_of_ok (checkBlock_eq_ok.mpr h)

end Offside
