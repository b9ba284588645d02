import Offside.Proofs.Ast.Everywhere
import Offside.Proofs.Typing.CheckResolves

/-!
# Checked trees obey the rules

The types on a checked tree are those that the rules give: at each of its expressions the rule of
this form of expression accepts the checked parts, with the type that the expression has.

Main definitions:

- `Expr.Obeys`: the rule of an expression, given the types of its parts.
- `Expr.CreationHas`: what is asked of creations of objects that stand in an unchecked tree.

Main results:

- Theorem `Expr.Checks.all`: checked expressions have what follows from the rules.
- Theorem `check_all`: so do the expressions of checked programs.
- Theorems `Expr.Checks.obeys` and `check_obeys`: trees without creations obey the rules.
-/

namespace Offside

open Typing

/-- The type of an expression is what its rule gives for the types of its parts.  The type of a
name is that of what it stands for, so names have no rule here. -/
def Expr.Obeys (env : Env) : Expr Typed → Prop
  | .literal note value =>
    note.ty = literalType value.value ∧ value.note.ty = literalType value.value
  | .id .. => True
  | .binOp note op left right => binOpResult op left.ty right.ty note.location = .ok note.ty
  | .uniOp note op operand => uniOpResult op operand.ty note.location = .ok note.ty
  | .builtin1 note name argument => builtinCall env name argument note.location = .ok note.ty
  | .builtin2 note name left right =>
    functionCall env name [left, right] note.location = .ok note.ty
  | .call note name _ arguments =>
    env.class? name = none ∧ functionCall env name arguments note.location = .ok note.ty
  | .construct note name arguments => ∃ cls, env.class? name = some cls ∧
    construction cls name arguments note.location = .ok () ∧ note.ty.same (.plain name) = true
  | .lookup note object field =>
    fieldType env "field lookup" object field note.location = .ok note.ty
  | .methodCall note object method arguments =>
    Typing.methodCall env object method arguments note.location = .ok note.ty
  | .index note object position => indexType object position note.location = .ok note.ty
  | .listLiteral note elements => listType elements = .ok note.ty
  | .ternary note ifTrue condition ifFalse =>
    expectBool condition = .ok () ∧ ternaryType ifTrue.ty ifFalse.ty = note.ty
  | .comprehension note kind _ _ iterable none => ∃ element,
    expectIterable env iterable = .ok element ∧ kind.container element = note.ty
  | .comprehension note kind _ _ iterable (some filter) => ∃ element,
    expectIterable env iterable = .ok element ∧ expectBool filter = .ok () ∧
      kind.container element = note.ty

/-- A creation that stands in an unchecked tree has a property once it is checked, whatever its
arguments become; no other expression is asked for anything. -/
def Expr.CreationHas (P : Expr Typed → Prop) : Expr Location → Prop
  | .construct location name _ => ∀ arguments, P (.construct ⟨.plain name, location⟩ name arguments)
  | _ => True

theorem Expr.NotCreation.creationHas {P : Expr Typed → Prop} {e : Expr Location}
    (h : e.NotCreation) : e.CreationHas P := by
  cases e <;> trivial

namespace Typing

open Check

variable {env : Env} {P : Expr Typed → Prop}

/-! ## Expressions -/

/-- What a call is sorted into obeys its rule. -/
theorem typedCall_all (hrules : ∀ e : Expr Typed, e.Obeys env → P e) {name : String}
    {genericArgs : List Ty} {arguments : List (Expr Typed)} {location : Location} {e : Expr Typed}
    (h : typedCall env name genericArgs arguments location = .ok e)
    (harguments : Expr.AllOf P arguments) : e.All P := by
  unfold typedCall at h
  split at h
  · next cls hcls =>
    rw [verdict_bind_eq_ok] at h
    rcases h with ⟨_, hnew, h⟩
    cases h
    exact ⟨hrules _ ⟨cls, hcls, hnew, by simp [Ty.plain, Ty.same]⟩, harguments⟩
  · next hnone =>
    rw [verdict_bind_eq_ok] at h
    rcases h with ⟨ty, hcall, h⟩
    cases h
    exact ⟨hrules _ ⟨hnone, hcall⟩, harguments⟩

end Typing

section Accepted

variable {P : Expr Typed → Prop}

mutual

/-- The expressions of a checked expression have what the rules give. -/
theorem Expr.Checks.all {e : Expr Location} {context : Context} {e' : Expr Typed}
    (h : e.Checks context e') (hrules : ∀ e : Expr Typed, e.Obeys context.checker.env → P e)
    (hform : e.All (Expr.CreationHas P)) : e'.All P := by
  match h with
  | .literal => exact hrules _ ⟨rfl, rfl⟩
  | .item _ | .var _ _ => exact hrules _ trivial
  | .binOp onLeft onRight gives | .builtin2 onLeft onRight gives =>
    exact ⟨hrules _ gives, onLeft.all hrules hform.2.1, onRight.all hrules hform.2.2⟩
  | .uniOp onOperand gives => exact ⟨hrules _ gives, onOperand.all hrules hform.2⟩
  | .builtin1 onArgument gives => exact ⟨hrules _ gives, onArgument.all hrules hform.2⟩
  | .call onArguments gives =>
    exact typedCall_all hrules gives (onArguments.all hrules hform.2)
  | .construct _ onArguments => exact ⟨hform.1 _, onArguments.all hrules hform.2⟩
  | .lookup onObject gives => exact ⟨hrules _ gives, onObject.all hrules hform.2⟩
  | .methodCall onObject onArguments gives =>
    exact ⟨hrules _ gives, onObject.all hrules hform.2.1,
      onArguments.all hrules hform.2.2⟩
  | .index onObject onPosition gives =>
    exact ⟨hrules _ gives, onObject.all hrules hform.2.1,
      onPosition.all hrules hform.2.2⟩
  | .listLiteral onElements gives => exact ⟨hrules _ gives, onElements.all hrules hform.2⟩
  | .ternary onTrue onCondition onFalse isBool =>
    exact ⟨hrules _ ⟨isBool, rfl⟩, onTrue.all hrules hform.2.1,
      onCondition.all hrules hform.2.2.1, onFalse.all hrules hform.2.2.2⟩
  | .comprehension onIterable yields onResult =>
    exact ⟨hrules _ ⟨_, yields, rfl⟩, onIterable.all hrules hform.2.1,
      onResult.all hrules hform.2.2⟩
  | .filtered onIterable yields onFilter isBool onResult =>
    exact ⟨hrules _ ⟨_, yields, isBool, rfl⟩, onIterable.all hrules hform.2.1,
      onFilter.all hrules hform.2.2.1, onResult.all hrules hform.2.2.2⟩

/-- The expressions of checked expressions have it, one by one. -/
theorem Expr.ChecksAll.all {es : List (Expr Location)} {context : Context}
    {es' : List (Expr Typed)} (h : Expr.ChecksAll context es es')
    (hrules : ∀ e : Expr Typed, e.Obeys context.checker.env → P e)
    (hform : Expr.AllOf (Expr.CreationHas P) es) : Expr.AllOf P es' := by
  match h with
  | .nil => trivial
  | .cons onFirst onRest =>
    exact ⟨onFirst.all hrules hform.1, onRest.all hrules hform.2⟩

end

/-- A checked expression obeys the rules. -/
theorem Expr.Checks.obeys {e : Expr Location} {context : Context} {e' : Expr Typed}
    (h : e.Checks context e') (hform : e.All Expr.NotCreation) :
    e'.All (Expr.Obeys context.checker.env) :=
  h.all (fun _ hobeys => hobeys) (hform.mono fun _ => Expr.NotCreation.creationHas)

/-! ## Statements -/

mutual

/-- The expressions of a checked statement have what the rules give. -/
theorem Stmt.Checks.all {s : Stmt Location} {context after : Context} {s' : Stmt Typed}
    (h : s.Checks context s' after)
    (hrules : ∀ e : Expr Typed, e.Obeys context.checker.env → P e)
    (hform : s.All (Expr.CreationHas P)) : s'.All P := by
  match h with
  | .assign onValue _ _ => exact onValue.all hrules hform
  | .fieldAssign onObject onValue _ _ =>
    exact ⟨onObject.all hrules hform.1, onValue.all hrules hform.2⟩
  | .indexAssign onObject onPosition onValue _ _ _ =>
    exact ⟨onObject.all hrules hform.1, onPosition.all hrules hform.2.1,
      onValue.all hrules hform.2.2⟩
  | .expr onValue => exact onValue.all hrules hform
  | .return _ onValue _ => exact onValue.all hrules hform
  | .cond onCondition _ onBody onOtherwise =>
    obtain ⟨_, rfl⟩ := onBody.move
    exact ⟨onCondition.all hrules hform.1, onBody.all hrules hform.2.1,
      onOtherwise.all hrules hform.2.2⟩
  | .while onCondition _ onBody =>
    exact ⟨onCondition.all hrules hform.1, onBody.all hrules hform.2⟩
  | .for onIterable _ _ _ onBody onOtherwise =>
    obtain ⟨_, rfl⟩ := onBody.move
    exact ⟨onIterable.all hrules hform.1, onBody.all hrules hform.2.1,
      onOtherwise.all hrules hform.2.2⟩
  | .pass | .continue _ | .break _ => trivial

/-- The expressions of checked statements have it. -/
theorem Stmt.ChecksAll.all {block : List (Stmt Location)} {context after : Context}
    {block' : List (Stmt Typed)} (h : Stmt.ChecksAll context block block' after)
    (hrules : ∀ e : Expr Typed, e.Obeys context.checker.env → P e)
    (hform : Stmt.AllOf (Expr.CreationHas P) block) : Stmt.AllOf P block' := by
  match h with
  | .nil => trivial
  | .cons onFirst onRest =>
    obtain ⟨_, rfl⟩ := onFirst.move
    exact ⟨onFirst.all hrules hform.1, onRest.all hrules hform.2⟩

end

end Accepted

namespace Typing

variable {env : Env} {P : Expr Typed → Prop}

/-! ## Declarations and programs -/

variable {α β : Type}

/-- The run of a function's body that an accepted function has behind it. -/
theorem checkFunDef_eq_ok {fn : FunDef Location} {checker after : Checker} {fn' : FunDef Typed}
    (h : outcome (checkFunDef fn) checker = (.ok fn', after)) :
    checkInits fn.inits = .ok fn'.inits ∧
      (∃ last, outcome (checkBlock fn.body) ⟨checker, bodyLocals fn⟩ = (.ok fn'.body, last) ∧
        last.locals.actualRet.isAssignable last.locals.expectedRet = true) ∧
      fn' = ⟨⟨.none, fn.note⟩, fn.name, fn.parameters, fn.ret, fn'.inits, fn'.body⟩ := by
  simp only [checkFunDef, outcome_bind_ok, outcome_lift, outcome_inBody, outcome_pure,
    Prod.mk.injEq, Except.ok.injEq] at h
  rcases h with ⟨inits', _, ⟨hinits, rfl⟩, body', _, ⟨hbody, -⟩, rfl, -⟩
  have hbody : ∃ last, outcome (checkBody fn) ⟨checker, bodyLocals fn⟩ = (.ok body', last) :=
    ⟨_, Prod.ext hbody rfl⟩
  rcases hbody with ⟨last, hbody⟩
  simp only [checkBody, outcome_bind_ok, outcome_lift, outcome_locals, outcome_pure,
    Prod.mk.injEq, Except.ok.injEq, require_eq_ok] at hbody
  rcases hbody with ⟨_, _, hblock, _, _, ⟨rfl, rfl⟩, _, _, ⟨hret, rfl⟩, rfl, rfl⟩
  exact ⟨hinits, ⟨_, hblock, hret⟩, rfl⟩

/-- The expressions of a checked function have what the rules give. -/
theorem checkFunDef_all (hrules : ∀ e : Expr Typed, e.Obeys env → P e) (fn : FunDef Location)
    {checker after : Checker} {fn' : FunDef Typed} (hform : fn.All (Expr.CreationHas P))
    (h : outcome (checkFunDef fn) checker = (.ok fn', after)) (henv : checker.env = env) :
    fn'.All P := by
  obtain ⟨-, ⟨last, hbody, -⟩, -⟩ := checkFunDef_eq_ok h
  exact (checkBlock_eq_ok.mp hbody).all (henv ▸ hrules) hform

/-- What a row of checks makes of entries has what each of the checks gives. -/
theorem mapM_obeys {itemsOf : α → List String} {check : α → ModuleCheck β} {P : α → Prop}
    {Q : Env → β → Prop} (hands : ∀ entry, HandsOut ModuleMove (itemsOf entry) (check entry))
    (hcheck : ∀ entry {checker after : Checker} {value : β}, P entry →
      outcome (check entry) checker = (.ok value, after) → Q checker.env value)
    {entries : List α} (hentries : ∀ entry ∈ entries, P entry) {checker after : Checker}
    {values : List β} (h : outcome (entries.mapM check) checker = (.ok values, after)) :
    ∀ value ∈ values, Q checker.env value := by
  have heach := mapM_accepts hands h
  clear h
  induction heach with
  | nil => simp
  | cons hfirst _ ih =>
    rw [List.forall_mem_cons] at hentries ⊢
    rcases hfirst with ⟨other, henv, hok⟩
    refine ⟨?_, ih hentries.2⟩
    rw [← henv]
    exact hcheck _ hentries.1 (Prod.ext hok rfl)

/-- The parts of an accepted class. -/
theorem checkClassDef_eq_ok {cls : ClassDef Location} {checker after : Checker}
    {cls' : ClassDef Typed} (h : outcome (checkClassDef cls) checker = (.ok cls', after)) :
    checkInits cls.fields = .ok cls'.fields ∧
      outcome (cls.methods.mapM checkFunDef) checker = (.ok cls'.methods, after) ∧
      (cls'.method? "__init__").any (isConstructor cls.name) = true ∧
      cls' = ⟨⟨.none, cls.note⟩, cls.name, cls.generics, cls'.fields, cls'.methods⟩ := by
  simp only [checkClassDef, outcome_bind_ok, outcome_lift, outcome_pure, Prod.mk.injEq,
    Except.ok.injEq, require_eq_ok] at h
  rcases h with ⟨fields', _, ⟨hfields, rfl⟩, methods', _, hmethods, _, _, ⟨hinit, rfl⟩, rfl, rfl⟩
  exact ⟨hfields, hmethods, hinit, rfl⟩

theorem checkClassDef_all (hrules : ∀ e : Expr Typed, e.Obeys env → P e)
    (cls : ClassDef Location) {checker after : Checker} {cls' : ClassDef Typed}
    (hform : cls.All (Expr.CreationHas P))
    (h : outcome (checkClassDef cls) checker = (.ok cls', after)) (henv : checker.env = env) :
    cls'.All P := by
  obtain ⟨-, hmethods, -, -⟩ := checkClassDef_eq_ok h
  exact fun fn hfn => mapM_obeys (Q := fun other fn => other = env → fn.All P)
    checkFunDef_handsOut (fun fn => checkFunDef_all hrules fn) hform hmethods fn hfn henv

/-- The run of the statements that an accepted top level has behind it. -/
theorem checkTop_eq_ok {stmts : List (Stmt Location)} {checker after : Checker}
    {stmts' : List (Stmt Typed)} (h : outcome (checkTop stmts) checker = (.ok stmts', after)) :
    ∃ last, outcome (checkBlock stmts) ⟨checker, .top⟩ = (.ok stmts', last) := by
  simp only [checkTop, outcome_bind_ok, outcome_inBody, outcome_modify, outcome_pure,
    Prod.mk.injEq, Except.ok.injEq] at h
  rcases h with ⟨⟨_, vars⟩, _, ⟨hbody, -⟩, _, _, -, rfl, -⟩
  have hbody : ∃ last, outcome (do return (← checkBlock stmts, (← Check.locals).vars))
      ⟨checker, Locals.top⟩ = (.ok (_, vars), last) := ⟨_, Prod.ext hbody rfl⟩
  rcases hbody with ⟨last, hbody⟩
  simp only [outcome_bind_ok, outcome_locals, outcome_pure, Prod.mk.injEq,
    Except.ok.injEq] at hbody
  rcases hbody with ⟨_, _, hblock, _, _, ⟨rfl, rfl⟩, ⟨rfl, rfl⟩, rfl⟩
  exact ⟨_, hblock⟩

/-- The expressions of the parts of a program have what the rules give. -/
theorem checkParts_all (hrules : ∀ e : Expr Typed, e.Obeys env → P e)
    {program : Program Location} {checker after : Checker} {program' : Program Typed}
    (hform : program.All (Expr.CreationHas P))
    (h : outcome (checkParts program) checker = (.ok program', after))
    (henv : checker.env = env) : program'.All P := by
  simp only [checkParts, outcome_bind_ok, outcome_lift, outcome_pure, Prod.mk.injEq,
    Except.ok.injEq] at h
  obtain ⟨inits', _, ⟨hinits, rfl⟩, funs', _, hfuns, classes', _, hclasses, stmts', _, hstmts,
    rfl, rfl⟩ := h
  have onFuns := mapM_obeys (Q := fun other fn => other = env → fn.All P) checkFunDef_handsOut
    (fun fn => checkFunDef_all hrules fn) hform.funs hfuns
  obtain rfl := (HandsOut.mapM checkFunDef_handsOut program.funs).moves_of_ok hfuns
  have onClasses := mapM_obeys (Q := fun other cls => other = env → cls.All P)
    checkClassDef_handsOut (fun cls => checkClassDef_all hrules cls) hform.classes hclasses
  obtain rfl := (HandsOut.mapM checkClassDef_handsOut program.classes).moves_of_ok hclasses
  rcases checkTop_eq_ok hstmts with ⟨last, hblock⟩
  exact ⟨fun fn hfn => onFuns fn hfn henv, fun cls hcls => onClasses cls hcls henv,
    (checkBlock_eq_ok.mp hblock).all (henv ▸ hrules) hform.stmts⟩

end Typing

/-- All expressions of a checked program have what all expressions have that obey the rules in the
environment with its declarations, if creations that stand in the program already have it. -/
theorem check_all {checker after : Checker} {program : Program Location}
    {program' : Program Typed} {P : Expr Typed → Prop}
    (hrules : ∀ e : Expr Typed, e.Obeys (checker.env.augment program) → P e)
    (hform : program.All (Expr.CreationHas P))
    (h : checker.check program = (.ok program', after)) : program'.All P :=
  checkParts_all hrules hform (check_eq_ok.mp h) rfl

/-- The expressions of a checked program obey the rules in the environment with its
declarations. -/
theorem check_obeys {checker after : Checker} {program : Program Location}
    {program' : Program Typed} (hform : program.All Expr.NotCreation)
    (h : checker.check program = (.ok program', after)) :
    program'.All (Expr.Obeys (checker.env.augment program)) :=
  check_all (fun _ => id) (hform.mono fun _ => Expr.NotCreation.creationHas) h

end Offside
