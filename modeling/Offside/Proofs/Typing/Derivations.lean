import Offside.Proofs.Ast.Everywhere
import Offside.Proofs.Typing.Checks
import Offside.Proofs.Typing.HasType

/-!
# The checker finds the types that the rules give

An expression is accepted with a type exactly if the rules give it this type, whatever the module,
the variables of the body, the items in scope and the names handed out so far.  In particular it has
one type at most.  What the checker derives and what the rules derive are turned into each other by
induction; what carries both is that a check leaves behind a context that shows the same to the
rules.

Main definitions:

- `Locals.itemTypes`: the types of the items in scope.
- `Context.Shows`: what a context shows to the rules.

Main results:

- Theorem `Expr.Checks.hasType`: the checker gives no other types than the rules.
- Theorem `Expr.HasType.checks`: the checker accepts what the rules give a type.
- Theorem `checkExpr_iff_hasType`: both together; the type is unique.
-/

namespace Offside

open Typing

/-- The types of the items in scope. -/
def Locals.itemTypes (locals : Locals) : List (Table Ty) :=
  locals.scopes.map fun scope => scope.map fun entry => (entry.1, entry.2.2)

/-- A name in scope has the type that is kept beside its new name. -/
theorem itemType?_itemTypes (locals : Locals) (name : String) :
    itemType? locals.itemTypes name = (locals.item? name).map Prod.snd := by
  rw [itemType?, Locals.itemTypes, Locals.item?]
  induction locals.scopes with
  | nil => rfl
  | cons scope scopes ih =>
    have hscope : Table.find? (scope.map fun entry => (entry.1, entry.2.2)) name =
        (Table.find? scope name).map Prod.snd := by
      induction scope with
      | nil => rfl
      | cons entry scope ih =>
        rw [List.map_cons, Table.find?_cons, ih, ← Prod.eta entry, Table.find?_cons]
        split <;> rfl
    rw [List.map_cons, List.findSome?_cons, List.findSome?_cons, hscope, ih]
    rcases Table.find? scope name with _ | ⟨renamed, ty⟩ <;> rfl

namespace Typing

variable {env : Env} {vars : Table Ty} {scopes : List (Table Ty)} {location : Location} {ty : Ty}

/-! ## The rules for checked parts -/

/-- Arguments fit by their types alone. -/
theorem fitsEach_iff {parameters : List Ty} {arguments : List (Expr Typed)} :
    FitsEach parameters arguments ↔ TypesFit (arguments.map Expr.ty) parameters := by
  rw [TypesFit, List.forall₂_map_left_iff]
  constructor
  · exact fun h => (h.imp fun _ _ hfits => Ty.isAssignable_iff.mp hfits).flip
  · exact fun h => (h.imp fun _ _ hfits => Ty.isAssignable_iff.mpr hfits).flip

/-- A call is accepted if the types of its arguments fit the parameters. -/
theorem functionCall_iff {name : String} {arguments : List (Expr Typed)} :
    functionCall env name arguments location = .ok ty ↔ ∃ signature,
      env.function? name = some signature ∧
        TypesFit (arguments.map Expr.ty) signature.parameters ∧ signature.ret = ty := by
  simp only [functionCall_eq_ok, fitsEach_iff]

/-- What is called is a class, with a constructor or without one, or else a function. -/
theorem typedCall_iff {name : String} {genericArgs : List Ty} {arguments : List (Expr Typed)}
    {e : Expr Typed} :
    typedCall env name genericArgs arguments location = .ok e ↔
      (∃ cls, env.class? name = some cls ∧ (∀ constructor,
        Table.find? cls.methods "__init__" = some constructor →
          TypesFit (arguments.map Expr.ty) constructor.parameters.tail ∧
            constructor.ret = .none) ∧
        .construct ⟨.object name genericArgs, location⟩ name arguments = e) ∨
      (env.class? name = none ∧ ∃ ty, functionCall env name arguments location = .ok ty ∧
        .call ⟨ty, location⟩ name genericArgs arguments = e) := by
  unfold typedCall
  split
  · next cls hcls =>
    simp only [verdict_bind_eq_ok, construction_eq_ok, fitsEach_iff, Ty.same_none_iff,
      verdict_pure_eq_ok, exists_const, hcls, Option.some.injEq, exists_eq_left', reduceCtorEq,
      false_and, or_false]
  · next hnone =>
    simp only [verdict_bind_eq_ok, verdict_pure_eq_ok, hnone, reduceCtorEq, false_and, exists_false,
      false_or, true_and]

/-- A list is accepted if the types of its elements fit that of the first one. -/
theorem listType_iff {first : Expr Typed} {rest : List (Expr Typed)} :
    listType (first :: rest) = .ok ty ↔
      (∀ element ∈ rest.map Expr.ty, element.Fits first.ty) ∧ .list first.ty = ty := by
  simp only [listType_eq_ok, Ty.isAssignable_iff, List.forall_mem_map]

/-- What has a class is an object of this class. -/
theorem exists_of_className? {object : Ty} {name : String} (h : object.className? = some name) :
    ∃ genericArgs, object = .object name genericArgs := by
  cases object with
  | object _ genericArgs =>
    cases h
    exact ⟨genericArgs, rfl⟩
  | _ => nomatch h

/-- The type of a conditional is that of its first branch, or that of both. -/
theorem hasType_ternary {ifTrue condition ifFalse : Expr Location} {trueTy falseTy : Ty}
    (onTrue : ifTrue.HasType env vars scopes trueTy)
    (onCondition : condition.HasType env vars scopes .bool)
    (onFalse : ifFalse.HasType env vars scopes falseTy) :
    (Expr.ternary location ifTrue condition ifFalse).HasType env vars scopes
      (ternaryType trueTy falseTy) := by
  rw [ternaryType]
  split
  · next hagrees => exact .ternary onTrue onCondition onFalse (Ty.agrees_iff.mp hagrees)
  · next hagrees =>
    exact .either onTrue onCondition onFalse fun h => hagrees (Ty.agrees_iff.mpr h)

/-! ## Contexts -/

/-- A context shows a module, the variables of a body and the types of the items in scope. -/
structure Context.Shows (context : Context) (env : Env) (vars : Table Ty)
    (scopes : List (Table Ty)) : Prop where
  env_eq : context.checker.env = env
  vars_eq : context.locals.vars = vars
  itemTypes_eq : context.locals.itemTypes = scopes

namespace Context.Shows

variable {context : Context}

/-- A context shows its own environment, variables and items. -/
theorem self (context : Context) : context.Shows context.checker.env context.locals.vars
    context.locals.itemTypes := ⟨rfl, rfl, rfl⟩

/-- The names handed out do not show. -/
theorem handOut (h : context.Shows env vars scopes) (items : List String) :
    (context.handOut items).Shows env vars scopes :=
  ⟨h.env_eq, h.vars_eq, h.itemTypes_eq⟩

/-- Of a new item in scope its type shows. -/
theorem forItem (h : context.Shows env vars scopes) (item : String) (ty : Ty) :
    (context.forItem item ty).Shows env vars ([(item, ty)] :: scopes) :=
  ⟨h.env_eq, h.vars_eq, congrArg (_ :: ·) h.itemTypes_eq⟩

/-- The innermost scope that has a name, the variables of the body and those of the module. -/
theorem itemType?_eq (h : context.Shows env vars scopes) (name : String) :
    itemType? scopes name = (context.locals.item? name).map Prod.snd := by
  rw [← h.itemTypes_eq, itemType?_itemTypes]

/-- A variable of the body is found. -/
theorem var?_local (h : context.Shows env vars scopes) {name : String}
    (declared : Table.find? vars name = some ty) : context.var? name = some ty := by
  rw [Context.var?, h.vars_eq, declared, Option.some_or]

/-- So is a variable of the module, unless the body has one of this name. -/
theorem var?_global (h : context.Shows env vars scopes) {name : String}
    (noLocal : Table.find? vars name = none) (declared : env.global? name = some ty) :
    context.var? name = some ty := by
  rw [Context.var?, h.vars_eq, noLocal, h.env_eq, declared, Option.none_or]

end Context.Shows

/-! ## Expressions -/

end Typing

section Accepted

variable {env : Env} {vars : Table Ty}

mutual

/-- The checker gives no other types than the rules. -/
theorem Expr.Checks.hasType {e : Expr Location} {scopes : List (Table Ty)} {context : Context}
    {e' : Expr Typed} (h : e.Checks context e') (hform : e.All Expr.NotCreation)
    (hshows : context.Shows env vars scopes) : e.HasType env vars scopes e'.ty := by
  match h with
  | @Expr.Checks.literal _ _ ⟨_, value⟩ =>
    cases value with
    | num => exact .num
    | bool => exact .bool
    | none => exact .none
    | typeVar => exact .typeVar
  | .item bound =>
    have hitem := hshows.itemType?_eq
    exact .item (by rw [hitem, bound]; rfl)
  | @Expr.Checks.var _ _ name _ free declared =>
    have hitem : itemType? scopes name = none := by rw [hshows.itemType?_eq, free]; rfl
    rw [Context.var?, hshows.vars_eq, hshows.env_eq] at declared
    rcases hlocal : Table.find? vars name with _ | ty
    · rw [hlocal, Option.none_or] at declared
      exact .global hitem hlocal declared
    · rw [hlocal, Option.some_or] at declared
      obtain rfl := Option.some.inj declared
      exact .local hitem hlocal
  | .binOp onLeft onRight gives =>
    exact .binOp (onLeft.hasType hform.2.1 hshows)
      (onRight.hasType hform.2.2 (hshows.handOut _)) (binOpResult_iff.mp gives)
  | @Expr.Checks.uniOp _ _ op _ _ _ onOperand gives =>
    have honOperand := onOperand.hasType hform.2 hshows
    obtain ⟨hsame, rfl⟩ := uniOpResult_eq_ok.mp gives
    cases op with
    | neg =>
      have hnum := Ty.same_num_iff.mp hsame
      exact hnum ▸ .neg (hnum ▸ honOperand)
    | not =>
      have hbool := Ty.same_bool_iff.mp hsame
      exact hbool ▸ .not (hbool ▸ honOperand)
  | .builtin1 onArgument gives =>
    have honArgument := onArgument.hasType hform.2 hshows
    rw [builtinCall_eq_ok] at gives
    split at gives
    · next hprint =>
      subst hprint
      exact gives.2 ▸ .print honArgument gives.1
    · next hprint =>
      obtain ⟨signature, hfound, hfits, rfl⟩ := functionCall_iff.mp gives
      exact .builtin1 hprint honArgument (hshows.env_eq ▸ hfound) hfits
  | .builtin2 onLeft onRight gives =>
    obtain ⟨signature, hfound, hfits, rfl⟩ := functionCall_iff.mp gives
    exact .builtin2 (onLeft.hasType hform.2.1 hshows)
      (onRight.hasType hform.2.2 (hshows.handOut _)) (hshows.env_eq ▸ hfound) hfits
  | .call onArguments gives =>
    have honArguments := onArguments.haveTypes hform.2 hshows
    rw [hshows.env_eq] at gives
    rcases typedCall_iff.mp gives with ⟨cls, hcls, hfits, rfl⟩ | ⟨hnone, ty, hty, rfl⟩
    · rcases hnew : Table.find? cls.methods "__init__" with _ | constructor
      · exact .createAnyhow honArguments hcls hnew
      · exact .create honArguments hcls hnew (hfits _ hnew).1 (hfits _ hnew).2
    · obtain ⟨signature, hfound, hfits, rfl⟩ := functionCall_iff.mp hty
      exact .call honArguments hnone hfound hfits
  | .construct _ _ => exact hform.1.elim
  | .lookup onObject gives =>
    have honObject := onObject.hasType hform.2 hshows
    rw [hshows.env_eq] at gives
    obtain ⟨name, cls, hname, hcls, hfield⟩ := fieldType_eq_ok.mp gives
    obtain ⟨genericArgs, hobjectTy⟩ := exists_of_className? hname
    exact .lookup (hobjectTy ▸ honObject) hcls hfield
  | .methodCall onObject onArguments gives =>
    have honObject := onObject.hasType hform.2.1 hshows
    have honArguments := onArguments.haveTypes hform.2.2 (hshows.handOut _)
    rw [hshows.env_eq] at gives
    obtain ⟨name, cls, signature, hname, hcls, hmethod, hfits, rfl⟩ := methodCall_eq_ok.mp gives
    obtain ⟨genericArgs, hobjectTy⟩ := exists_of_className? hname
    rw [fitsEach_iff, List.map_cons, hobjectTy] at hfits
    exact .methodCall (hobjectTy ▸ honObject) honArguments hcls hmethod hfits
  | .index onObject onPosition gives =>
    have honObject := onObject.hasType hform.2.1 hshows
    have honPosition := onPosition.hasType hform.2.2 (hshows.handOut _)
    obtain ⟨hnum, hlist⟩ := indexType_eq_ok.mp gives
    exact .index (hlist ▸ honObject) (Ty.same_num_iff.mp hnum ▸ honPosition)
  | @Expr.Checks.listLiteral _ _ _ elements' _ onElements gives =>
    have honElements := onElements.haveTypes hform.2 hshows
    cases elements' with
    | nil =>
      cases gives
      cases honElements
      exact .emptyList
    | cons first' rest' =>
      obtain ⟨hfits, rfl⟩ := listType_iff.mp gives
      cases honElements with
      | cons onFirst onRest => exact .list onFirst onRest hfits
  | .ternary onTrue onCondition onFalse isBool =>
    have honCondition := onCondition.hasType hform.2.2.1 (hshows.handOut _)
    rw [Ty.same_bool_iff.mp (expectBool_eq_ok.mp isBool)] at honCondition
    exact hasType_ternary (onTrue.hasType hform.2.1 hshows) honCondition
      (onFalse.hasType hform.2.2.2 ((hshows.handOut _).handOut _))
  | .comprehension onIterable yields onResult =>
    rw [hshows.env_eq, expectIterable_eq_ok, Env.element?_eq_some_iff] at yields
    exact .comprehension (onIterable.hasType hform.2.1 hshows) yields
      (onResult.hasType hform.2.2 ((hshows.handOut _).forItem _ _))
  | .filtered onIterable yields onFilter isBool onResult =>
    rw [hshows.env_eq, expectIterable_eq_ok, Env.element?_eq_some_iff] at yields
    have honFilter := onFilter.hasType hform.2.2.1 ((hshows.handOut _).forItem _ _)
    rw [Ty.same_bool_iff.mp (expectBool_eq_ok.mp isBool)] at honFilter
    exact .filtered (onIterable.hasType hform.2.1 hshows) yields honFilter
      (onResult.hasType hform.2.2.2 (((hshows.handOut _).forItem _ _).handOut _))

/-- The checker gives no other types than the rules to expressions in a row. -/
theorem Expr.ChecksAll.haveTypes {es : List (Expr Location)} {scopes : List (Table Ty)}
    {context : Context} {es' : List (Expr Typed)} (h : Expr.ChecksAll context es es')
    (hform : Expr.AllOf Expr.NotCreation es) (hshows : context.Shows env vars scopes) :
    Expr.HaveTypes env vars scopes es (es'.map Expr.ty) := by
  match h with
  | .nil => exact .nil
  | .cons onFirst onRest =>
    exact .cons (onFirst.hasType hform.1 hshows)
      (onRest.haveTypes hform.2 (hshows.handOut _))

end

mutual

/-- The checker accepts what the rules give a type, and gives it this type. -/
theorem Expr.HasType.checks {e : Expr Location} {scopes : List (Table Ty)} {ty : Ty}
    (h : e.HasType env vars scopes ty) {context : Context}
    (hshows : context.Shows env vars scopes) : ∃ e', e.Checks context e' ∧ e'.ty = ty := by
  match h with
  | .num | .bool | .none | .typeVar => exact ⟨_, .literal, rfl⟩
  | .item inScope =>
    rw [hshows.itemType?_eq, Option.map_eq_some_iff] at inScope
    obtain ⟨⟨renamed, ty⟩, hfound, rfl⟩ := inScope
    exact ⟨_, .item hfound, rfl⟩
  | .local noItem declared =>
    rw [hshows.itemType?_eq, Option.map_eq_none_iff] at noItem
    exact ⟨_, .var noItem (hshows.var?_local declared), rfl⟩
  | .global noItem noLocal declared =>
    rw [hshows.itemType?_eq, Option.map_eq_none_iff] at noItem
    exact ⟨_, .var noItem (hshows.var?_global noLocal declared), rfl⟩
  | .binOp onLeft onRight gives =>
    obtain ⟨left, hleft, rfl⟩ := onLeft.checks hshows
    obtain ⟨right, hright, rfl⟩ := onRight.checks (hshows.handOut _)
    exact ⟨_, .binOp hleft hright (binOpResult_iff.mpr gives), rfl⟩
  | .neg onOperand | .not onOperand =>
    obtain ⟨operand, hoperand, hty⟩ := onOperand.checks hshows
    exact ⟨_, .uniOp hoperand (uniOpResult_eq_ok.mpr ⟨hty ▸ Ty.same_refl _, rfl⟩), hty⟩
  | .print onArgument noClass =>
    obtain ⟨argument, hargument, rfl⟩ := onArgument.checks hshows
    exact ⟨_, .builtin1 hargument (builtinCall_eq_ok.mpr ⟨noClass, rfl⟩), rfl⟩
  | .builtin1 notPrint onArgument isFunction fits =>
    obtain ⟨argument, hargument, rfl⟩ := onArgument.checks hshows
    refine ⟨_, .builtin1 hargument ?_, rfl⟩
    rw [builtinCall, if_neg notPrint]
    exact functionCall_iff.mpr ⟨_, hshows.env_eq ▸ isFunction, fits, rfl⟩
  | .builtin2 onLeft onRight isFunction fits =>
    obtain ⟨left, hleft, rfl⟩ := onLeft.checks hshows
    obtain ⟨right, hright, rfl⟩ := onRight.checks (hshows.handOut _)
    refine ⟨_, .builtin2 hleft hright ?_, rfl⟩
    exact functionCall_iff.mpr ⟨_, hshows.env_eq ▸ isFunction, fits, rfl⟩
  | .create onArguments isClass isConstructor fits noResult =>
    obtain ⟨arguments, harguments, rfl⟩ := onArguments.check hshows
    refine ⟨_, .call harguments (typedCall_iff.mpr (.inl ⟨_, hshows.env_eq ▸ isClass, ?_, rfl⟩)),
      rfl⟩
    intro constructor hfound
    obtain rfl := Option.some.inj (isConstructor.symm.trans hfound)
    exact ⟨fits, noResult⟩
  | .createAnyhow onArguments isClass noConstructor =>
    obtain ⟨arguments, harguments, rfl⟩ := onArguments.check hshows
    refine ⟨_, .call harguments (typedCall_iff.mpr (.inl ⟨_, hshows.env_eq ▸ isClass, ?_, rfl⟩)),
      rfl⟩
    intro constructor hfound
    nomatch noConstructor.symm.trans hfound
  | .call onArguments noClass isFunction fits =>
    obtain ⟨arguments, harguments, rfl⟩ := onArguments.check hshows
    refine ⟨_, .call harguments (typedCall_iff.mpr (.inr ⟨hshows.env_eq ▸ noClass, _, ?_, rfl⟩)),
      rfl⟩
    exact functionCall_iff.mpr ⟨_, hshows.env_eq ▸ isFunction, fits, rfl⟩
  | .lookup onObject isClass isField =>
    obtain ⟨object, hobject, hty⟩ := onObject.checks hshows
    refine ⟨_, .lookup hobject (fieldType_eq_ok.mpr ?_), rfl⟩
    exact ⟨_, _, congrArg Ty.className? hty, hshows.env_eq ▸ isClass, isField⟩
  | .methodCall onObject onArguments isClass isMethod fits =>
    obtain ⟨object, hobject, hty⟩ := onObject.checks hshows
    obtain ⟨arguments, harguments, rfl⟩ := onArguments.check (hshows.handOut _)
    rw [← hty] at fits
    refine ⟨_, .methodCall hobject harguments (methodCall_eq_ok.mpr ?_), rfl⟩
    exact ⟨_, _, _, congrArg Ty.className? hty, hshows.env_eq ▸ isClass, isMethod,
      fitsEach_iff.mpr fits, rfl⟩
  | .index onObject onPosition =>
    obtain ⟨object, hobject, hlist⟩ := onObject.checks hshows
    obtain ⟨position, hposition, hnum⟩ := onPosition.checks (hshows.handOut _)
    exact ⟨_, .index hobject hposition (indexType_eq_ok.mpr ⟨Ty.same_num_iff.mpr hnum, hlist⟩),
      rfl⟩
  | .emptyList => exact ⟨_, .listLiteral .nil rfl, rfl⟩
  | .list onFirst onRest fits =>
    obtain ⟨first, hfirst, rfl⟩ := onFirst.checks hshows
    obtain ⟨rest, hrest, rfl⟩ := onRest.check (hshows.handOut _)
    exact ⟨_, .listLiteral (.cons hfirst hrest) (listType_iff.mpr ⟨fits, rfl⟩), rfl⟩
  | .ternary onTrue onCondition onFalse agrees =>
    obtain ⟨ifTrue, htrue, rfl⟩ := onTrue.checks hshows
    obtain ⟨condition, hcondition, hbool⟩ := onCondition.checks (hshows.handOut _)
    obtain ⟨ifFalse, hfalse, rfl⟩ := onFalse.checks ((hshows.handOut _).handOut _)
    exact ⟨_, .ternary htrue hcondition hfalse
      (expectBool_eq_ok.mpr (Ty.same_bool_iff.mpr hbool)), if_pos (Ty.agrees_iff.mpr agrees)⟩
  | .either onTrue onCondition onFalse disagree =>
    obtain ⟨ifTrue, htrue, rfl⟩ := onTrue.checks hshows
    obtain ⟨condition, hcondition, hbool⟩ := onCondition.checks (hshows.handOut _)
    obtain ⟨ifFalse, hfalse, rfl⟩ := onFalse.checks ((hshows.handOut _).handOut _)
    exact ⟨_, .ternary htrue hcondition hfalse
      (expectBool_eq_ok.mpr (Ty.same_bool_iff.mpr hbool)), if_neg (mt Ty.agrees_iff.mp disagree)⟩
  | .comprehension onIterable yields onResult =>
    obtain ⟨iterable, hiterable, rfl⟩ := onIterable.checks hshows
    obtain ⟨result, hresult, -⟩ := onResult.checks ((hshows.handOut _).forItem _ _)
    have hrule := expectIterable_eq_ok.mpr
      (Env.element?_eq_some_iff.mpr (hshows.env_eq ▸ yields))
    exact ⟨_, .comprehension hiterable hrule hresult, rfl⟩
  | .filtered onIterable yields onFilter onResult =>
    obtain ⟨iterable, hiterable, rfl⟩ := onIterable.checks hshows
    obtain ⟨filter, hfilter, hbool⟩ := onFilter.checks ((hshows.handOut _).forItem _ _)
    obtain ⟨result, hresult, -⟩ :=
      onResult.checks (((hshows.handOut _).forItem _ _).handOut _)
    have hrule := expectIterable_eq_ok.mpr
      (Env.element?_eq_some_iff.mpr (hshows.env_eq ▸ yields))
    exact ⟨_, .filtered hiterable hrule hfilter
      (expectBool_eq_ok.mpr (Ty.same_bool_iff.mpr hbool)) hresult, rfl⟩

/-- The checker accepts what the rules give types, one by one. -/
theorem Expr.HaveTypes.check {es : List (Expr Location)} {scopes : List (Table Ty)}
    {tys : List Ty} (h : Expr.HaveTypes env vars scopes es tys) {context : Context}
    (hshows : context.Shows env vars scopes) :
    ∃ es', Expr.ChecksAll context es es' ∧ es'.map Expr.ty = tys := by
  match h with
  | .nil => exact ⟨[], .nil, rfl⟩
  | .cons onFirst onRest =>
    obtain ⟨first, hfirst, rfl⟩ := onFirst.checks hshows
    obtain ⟨rest, hrest, rfl⟩ := onRest.check (hshows.handOut _)
    exact ⟨_, .cons hfirst hrest, rfl⟩

end

end Accepted

namespace Typing

/-! ## The types of expressions -/

/-- An expression is accepted with a type exactly if the rules give it this type, and they give it
one type at most.  Neither the names handed out so far nor the new names of the items in scope
matter. -/
theorem checkExpr_iff_hasType (checker : Checker) (locals : Locals) (e : Expr Location)
    (hform : e.All Expr.NotCreation) :
    (∀ ty, (∃ e' after, outcome (checkExpr e) ⟨checker, locals⟩ = (.ok e', after) ∧ e'.ty = ty) ↔
      e.HasType checker.env locals.vars locals.itemTypes ty) ∧
    ∀ ty ty', e.HasType checker.env locals.vars locals.itemTypes ty →
      e.HasType checker.env locals.vars locals.itemTypes ty' → ty = ty' := by
  have hshows := Context.Shows.self ⟨checker, locals⟩
  refine ⟨fun ty => ⟨?_, fun h => ?_⟩, fun ty ty' h h' => ?_⟩
  · rintro ⟨e', after, hrun, rfl⟩
    exact (checkExpr_eq_ok.mp hrun).1.hasType hform hshows
  · obtain ⟨e', hchecks, hty⟩ := h.checks hshows
    exact ⟨e', _, checkExpr_eq_ok.mpr ⟨hchecks, rfl⟩, hty⟩
  · -- The checker gives one result, so both types are its type.
    obtain ⟨e', hchecks, rfl⟩ := h.checks hshows
    obtain ⟨e'', hchecks', rfl⟩ := h'.checks hshows
    have hrun := checkExpr_eq_ok.mpr ⟨hchecks, rfl⟩
    obtain ⟨heq, -⟩ := Prod.mk.inj (hrun.symm.trans (checkExpr_eq_ok.mpr ⟨hchecks', rfl⟩))
    rw [Except.ok.inj heq]

/-- The large ones of the numbers 1 and 2, where `x` outside is a truth value. -/
def largeNumbers : Expr Location :=
  let here : Location := ⟨1, 1, ""⟩
  let number (value : Int) : Expr Location := .literal here ⟨here, .num value⟩
  .comprehension here .list (.id here "x") "x" (.listLiteral here [number 1, number 2])
    (some (.binOp here .gt (.id here "x") (number 1)))

theorem checkExpr_iff_hasType_largeNumbers :
    let locals : Locals := { Locals.top with vars := [("x", .bool)] }
    largeNumbers.All Expr.NotCreation ∧
      (∃ e' after, outcome (checkExpr largeNumbers) ⟨.new .builtins, locals⟩ = (.ok e', after) ∧
        e'.ty = .list .num) ∧
      ∀ ty, largeNumbers.HasType .builtins locals.vars locals.itemTypes ty → ty = .list .num := by
  intro locals
  have hform : largeNumbers.All Expr.NotCreation := by
    simp [largeNumbers, Expr.All, Expr.AllOf, Expr.NotCreation]
  have hlist : largeNumbers.HasType .builtins locals.vars locals.itemTypes (.list .num) := by
    refine .filtered (.list .num (.cons .num .nil) ?_) .list ?_ (.item rfl)
    · simpa using Ty.Fits.agrees (.equal .num)
    · exact .binOp (.item rfl) .num (.comparison (by decide))
  have htypes := checkExpr_iff_hasType (.new .builtins) locals largeNumbers hform
  exact ⟨hform, (htypes.1 _).mpr hlist, fun ty hty => htypes.2 _ _ hty hlist⟩

end Typing
end Offside
