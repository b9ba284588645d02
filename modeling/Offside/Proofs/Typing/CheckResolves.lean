import Offside.Proofs.Typing.Checks
import Offside.Proofs.Typing.Resolution

/-!
# Checked programs are resolved

The checker walks a tree with a stack of scopes, one for each comprehension around.  Each
check that succeeds gives the tree with its names resolved, and the new names of its items
are those that the counters at its start stand for.

Main results:

- Theorem `Expr.Checks.resolves`: what an expression is accepted as.
- Theorem `Stmt.ChecksAll.resolves`: what statements are accepted as.
- Theorem `check_resolves`: what a checker makes of a program.
-/

namespace Offside

open Typing

namespace Typing

open Check

variable {α β : Type}

/-- A call that is accepted creates an object exactly if its name is that of a class. -/
theorem typedCall_eq_ok {env : Env} {name : String} {genericArgs : List Ty}
    {arguments : List (Expr Typed)} {location : Location} {e : Expr Typed}
    (h : typedCall env name genericArgs arguments location = .ok e) :
    ((∃ cls, env.class? name = some cls) ∧
        e = .construct ⟨.object name genericArgs, location⟩ name arguments) ∨
      (env.class? name = none ∧ ∃ ty, e = .call ⟨ty, location⟩ name genericArgs arguments) := by
  unfold typedCall at h
  split at h
  · rename_i cls hcls
    left
    rcases hnew : construction cls name arguments location with diagnostic | ⟨⟩
    · rw [hnew] at h
      nomatch h
    · rw [hnew] at h
      cases h
      exact ⟨⟨cls, hcls⟩, rfl⟩
  · rename_i hnone
    right
    rcases hcall : functionCall env name arguments location with diagnostic | ty
    · rw [hcall] at h
      nomatch h
    · rw [hcall] at h
      cases h
      exact ⟨hnone, ty, rfl⟩

/-! ## Expressions -/

/-- The stack of scopes holds one item in each scope. -/
def Context.Binds (context : Context) (around : Bindings) : Prop :=
  context.locals.scopes = around.map fun binding => [binding]

theorem item?_of_binds {context : Context} {around : Bindings} (h : context.Binds around)
    (name : String) : context.locals.item? name = Table.find? around name := by
  rw [Locals.item?, h]
  clear h
  induction around with
  | nil => rfl
  | cons binding rest ih =>
    rcases binding with ⟨item, target⟩
    rw [List.map_cons, List.findSome?_cons, Table.find?_cons, Table.find?_cons]
    by_cases hname : name = item
    · simp [hname]
    · simpa [hname] using ih

theorem Context.Binds.handOut {context : Context} {around : Bindings}
    (h : context.Binds around) (items : List String) : (context.handOut items).Binds around := h

/-- Nothing else of the body tells which items are in scope. -/
theorem Context.Binds.of_scopes_eq {context other : Context} {around : Bindings}
    (h : context.Binds around) (hscopes : other.locals.scopes = context.locals.scopes) :
    other.Binds around := by
  unfold Context.Binds at h ⊢
  rw [hscopes, h]

/-- In the scope of an item, this item is in front of those around. -/
theorem Context.Binds.enter {context : Context} {around : Bindings}
    (h : context.Binds around) (item renamed : String) (ty : Ty) :
    (context.enter item renamed ty).Binds ((item, (renamed, ty)) :: around) := by
  unfold Context.Binds at h ⊢
  rw [List.map_cons, ← h]
  rfl

/-- The item of a comprehension gets the name that its counter stands for. -/
theorem Context.Binds.forItem {context : Context} {around : Bindings} (h : context.Binds around)
    (item : String) (ty : Ty) :
    (context.forItem item ty).Binds ((item, (context.nextName item, ty)) :: around) :=
  (h.handOut [item]).enter item _ ty

end Typing

mutual

/-- An expression that is accepted is resolved. -/
theorem Expr.Checks.resolves {e : Expr Location} {around : Bindings} {context : Context}
    {e' : Expr Typed} (h : e.Checks context e') (hbinds : context.Binds around) :
    e.Resolves context.checker.env context.locals.vars around
      (newNames context.checker.counters e.items) e' := by
  match h with
  | .literal => exact .literal
  | .item bound =>
    rw [item?_of_binds hbinds] at bound
    exact .item bound
  | @Expr.Checks.var _ _ name _ free declared =>
    rw [item?_of_binds hbinds] at free
    rw [Context.var?] at declared
    rcases hlocal : Table.find? context.locals.vars name with _ | ty
    · rw [hlocal, Option.none_or] at declared
      exact .global free hlocal declared
    · rw [hlocal, Option.some_or] at declared
      obtain rfl := Option.some.inj declared
      exact .local free hlocal
  | .binOp onLeft onRight _ =>
    rw [Expr.items, newNames_append]
    exact .binOp (onLeft.resolves hbinds) (onRight.resolves (hbinds.handOut _))
  | .uniOp onOperand _ => exact .uniOp (onOperand.resolves hbinds)
  | .builtin1 onArgument _ => exact .builtin1 (onArgument.resolves hbinds)
  | .builtin2 onLeft onRight _ =>
    rw [Expr.items, newNames_append]
    exact .builtin2 (onLeft.resolves hbinds) (onRight.resolves (hbinds.handOut _))
  | .call onArguments gives =>
    have hall := onArguments.resolves hbinds
    rcases typedCall_eq_ok gives with ⟨⟨cls, hcls⟩, rfl⟩ | ⟨hnone, ty, rfl⟩
    · exact .create hcls hall
    · exact .call hnone hall
  | .construct _ onArguments => exact .construct (onArguments.resolves hbinds)
  | .lookup onObject _ => exact .lookup (onObject.resolves hbinds)
  | .methodCall onObject onArguments _ =>
    rw [Expr.items, newNames_append]
    exact .methodCall (onObject.resolves hbinds) (onArguments.resolves (hbinds.handOut _))
  | .index onObject onPosition _ =>
    rw [Expr.items, newNames_append]
    exact .index (onObject.resolves hbinds) (onPosition.resolves (hbinds.handOut _))
  | .listLiteral onElements _ => exact .listLiteral (onElements.resolves hbinds)
  | .ternary onTrue onCondition onFalse _ =>
    rw [Expr.items, newNames_append, newNames_append]
    exact .ternary (onTrue.resolves hbinds) (onCondition.resolves (hbinds.handOut _))
      (onFalse.resolves ((hbinds.handOut _).handOut _))
  | .comprehension onIterable yields onResult =>
    rw [Expr.items, newNames_append, newNames_cons]
    exact .comprehension (onIterable.resolves hbinds) (expectIterable_eq_ok.mp yields)
      (onResult.resolves ((hbinds.handOut _).forItem _ _))
  | .filtered onIterable yields onFilter _ onResult =>
    rw [Expr.items, newNames_append, newNames_cons, newNames_append]
    exact .filtered (onIterable.resolves hbinds) (expectIterable_eq_ok.mp yields)
      (onFilter.resolves ((hbinds.handOut _).forItem _ _))
      (onResult.resolves (((hbinds.handOut _).forItem _ _).handOut _))

/-- Expressions that are accepted are resolved one by one. -/
theorem Expr.ChecksAll.resolves {es : List (Expr Location)} {around : Bindings}
    {context : Context} {es' : List (Expr Typed)} (h : Expr.ChecksAll context es es')
    (hbinds : context.Binds around) :
    Expr.ResolvesAll context.checker.env context.locals.vars around es
      (newNames context.checker.counters (Expr.itemsAll es)) es' := by
  match h with
  | .nil => exact .nil
  | .cons onFirst onRest =>
    rw [Expr.itemsAll, newNames_append]
    exact .cons (onFirst.resolves hbinds) (onRest.resolves (hbinds.handOut _))

end

/-! ## Statements -/

mutual

/-- A statement that is accepted is resolved. -/
theorem Stmt.Checks.resolves {s : Stmt Location} {context after : Context} {s' : Stmt Typed}
    (h : s.Checks context s' after) (hbinds : context.Binds []) :
    s.Resolves context.checker.env context.locals.vars
      (newNames context.checker.counters s.items) s' := by
  match h with
  | .assign onValue _ _ => exact .assign (onValue.resolves hbinds)
  | .fieldAssign onObject onValue _ _ =>
    rw [Stmt.items, newNames_append]
    exact .fieldAssign (onObject.resolves hbinds) (onValue.resolves (hbinds.handOut _))
  | .indexAssign onObject onPosition onValue _ _ _ =>
    rw [Stmt.items, newNames_append, newNames_append]
    exact .indexAssign (onObject.resolves hbinds) (onPosition.resolves (hbinds.handOut _))
      (onValue.resolves ((hbinds.handOut _).handOut _))
  | .expr onValue => exact .expr (onValue.resolves hbinds)
  | .return _ onValue _ => exact .return (onValue.resolves hbinds)
  | .cond onCondition _ onBody onOtherwise =>
    obtain ⟨_, rfl⟩ := onBody.move
    have hbody := onBody.resolves (hbinds.of_scopes_eq rfl)
    have hotherwise := onOtherwise.resolves (hbinds.of_scopes_eq rfl)
    rw [Stmt.items, newNames_append, newNames_append]
    exact .cond (onCondition.resolves hbinds) hbody hotherwise
  | .while onCondition _ onBody =>
    have hbody := onBody.resolves (hbinds.of_scopes_eq rfl)
    rw [Stmt.items, newNames_append]
    exact .while (onCondition.resolves hbinds) hbody
  | .for onIterable _ _ _ onBody onOtherwise =>
    obtain ⟨_, rfl⟩ := onBody.move
    have hbody := onBody.resolves (hbinds.of_scopes_eq rfl)
    have hotherwise := onOtherwise.resolves (hbinds.of_scopes_eq rfl)
    rw [Stmt.items, newNames_append, newNames_append]
    exact .for (onIterable.resolves hbinds) hbody hotherwise
  | .pass => exact .pass
  | .continue _ => exact .continue
  | .break _ => exact .break

/-- Statements that are accepted are resolved one by one. -/
theorem Stmt.ChecksAll.resolves {block : List (Stmt Location)} {context after : Context}
    {block' : List (Stmt Typed)} (h : Stmt.ChecksAll context block block' after)
    (hbinds : context.Binds []) :
    Stmt.ResolvesAll context.checker.env context.locals.vars block
      (newNames context.checker.counters (Stmt.itemsAll block)) block' := by
  match h with
  | .nil => exact .nil
  | .cons onFirst onRest =>
    obtain ⟨_, rfl⟩ := onFirst.move
    have hrest := onRest.resolves (hbinds.of_scopes_eq rfl)
    rw [Stmt.itemsAll, newNames_append]
    exact .cons (onFirst.resolves hbinds) hrest

end

namespace Typing

/-! ## Declarations -/

/-- Declarations that are accepted are the same but for their types. -/
theorem checkInits_eq_ok {inits : List (VarInit Location)} {inits' : List (VarInit Typed)}
    (h : checkInits inits = .ok inits') :
    inits'.map (VarInit.map Typed.location) = inits := by
  unfold checkInits at h
  induction inits generalizing inits' with
  | nil =>
    rw [List.mapM_nil] at h
    cases h
    rfl
  | cons init rest ih =>
    rw [List.mapM_cons] at h
    rcases hstore : storable init.ty (typedLiteral init.value).note.ty init.note with _ | ⟨⟩
    · simp only [checkInit, hstore] at h
      nomatch h
    · rcases hrest : rest.mapM checkInit with _ | rest'
      · simp only [checkInit, hstore, hrest] at h
        nomatch h
      · simp only [checkInit, hstore, hrest] at h
        cases h
        rw [List.map_cons, ih hrest]
        rfl

/-- A function that is accepted is resolved. -/
theorem checkFunDef_resolves (fn : FunDef Location) {checker after : Checker}
    {fn' : FunDef Typed} (h : outcome (checkFunDef fn) checker = (.ok fn', after)) :
    fn.Resolves checker.env (newNames checker.counters fn.items) fn' := by
  simp only [checkFunDef, outcome_bind_ok, outcome_lift, outcome_inBody, outcome_pure,
    Prod.mk.injEq, Except.ok.injEq] at h
  rcases h with ⟨inits', _, ⟨hinits, rfl⟩, body', _, ⟨hbody, -⟩, rfl, -⟩
  have hbody : ∃ last, outcome (checkBody fn) ⟨checker, bodyLocals fn⟩ = (.ok body', last) :=
    ⟨_, Prod.ext hbody rfl⟩
  rcases hbody with ⟨last, hbody⟩
  simp only [checkBody, outcome_bind_ok, outcome_lift, outcome_locals, outcome_pure,
    Prod.mk.injEq, Except.ok.injEq] at hbody
  rcases hbody with ⟨_, _, hblock, _, _, ⟨rfl, rfl⟩, _, _, ⟨hret, rfl⟩, rfl, rfl⟩
  exact ⟨rfl, rfl, rfl, rfl, checkInits_eq_ok hinits, (checkBlock_eq_ok.mp hblock).resolves rfl⟩

/-- Entries that are accepted one after the other are resolved one by one. -/
theorem mapM_resolves (resolves : Env → α → List String → β → Prop)
    {itemsOf : α → List String} {check : α → ModuleCheck β}
    (hands : ∀ entry, HandsOut ModuleMove (itemsOf entry) (check entry))
    (hcheck : ∀ entry {checker after : Checker} {result : β},
      outcome (check entry) checker = (.ok result, after) →
        resolves checker.env entry (newNames checker.counters (itemsOf entry)) result)
    (entries : List α) {checker after : Checker} {results : List β}
    (h : outcome (entries.mapM check) checker = (.ok results, after)) :
    ResolvesEach (resolves checker.env) entries
      (newNames checker.counters (entries.flatMap itemsOf)) results := by
  induction entries generalizing checker results with
  | nil =>
    simp only [List.mapM_nil, outcome_pure, Prod.mk.injEq, Except.ok.injEq] at h
    rcases h with ⟨rfl, rfl⟩
    exact .nil
  | cons entry entries ih =>
    simp only [List.mapM_cons, outcome_bind_ok, outcome_pure, Prod.mk.injEq,
      Except.ok.injEq] at h
    rcases h with ⟨first, _, hfirst, rest, _, hrest, rfl, rfl⟩
    obtain rfl := (hands entry).moves_of_ok hfirst
    have onRest := ih hrest
    rw [List.flatMap_cons, newNames_append]
    exact .cons (hcheck entry hfirst) onRest

/-- A class that is accepted is resolved. -/
theorem checkClassDef_resolves (cls : ClassDef Location) {checker after : Checker}
    {cls' : ClassDef Typed} (h : outcome (checkClassDef cls) checker = (.ok cls', after)) :
    cls.Resolves checker.env (newNames checker.counters cls.items) cls' := by
  simp only [checkClassDef, outcome_bind_ok, outcome_lift, outcome_pure, Prod.mk.injEq,
    Except.ok.injEq] at h
  rcases h with ⟨fields', _, ⟨hfields, rfl⟩, methods', _, hmethods, _, _, ⟨hinit, rfl⟩, rfl, rfl⟩
  have onMethods := mapM_resolves FunDef.Resolves checkFunDef_handsOut
    checkFunDef_resolves cls.methods hmethods
  exact ⟨rfl, rfl, rfl, checkInits_eq_ok hfields, onMethods⟩

/-! ## Programs -/

/-- A top level that is accepted is resolved. -/
theorem checkTop_resolves (stmts : List (Stmt Location)) {checker after : Checker}
    {stmts' : List (Stmt Typed)} (h : outcome (checkTop stmts) checker = (.ok stmts', after)) :
    Stmt.ResolvesAll checker.env [] stmts
      (newNames checker.counters (Stmt.itemsAll stmts)) stmts' := by
  simp only [checkTop, outcome_bind_ok, outcome_inBody, outcome_modify, outcome_pure,
    Prod.mk.injEq, Except.ok.injEq] at h
  rcases h with ⟨⟨_, vars⟩, _, ⟨hbody, -⟩, _, _, -, rfl, -⟩
  have hbody : ∃ last, outcome (do return (← checkBlock stmts, (← Check.locals).vars))
      ⟨checker, Locals.top⟩ = (.ok (_, vars), last) := ⟨_, Prod.ext hbody rfl⟩
  rcases hbody with ⟨last, hbody⟩
  simp only [outcome_bind_ok, outcome_locals, outcome_pure, Prod.mk.injEq,
    Except.ok.injEq] at hbody
  rcases hbody with ⟨_, _, hblock, _, _, ⟨rfl, rfl⟩, ⟨rfl, rfl⟩, rfl⟩
  exact (checkBlock_eq_ok.mp hblock).resolves rfl

/-- A program that is accepted is resolved in the environment with its declarations. -/
theorem checkParts_resolves (program : Program Location) {checker after : Checker}
    {program' : Program Typed}
    (h : outcome (checkParts program) checker = (.ok program', after)) :
    program.Resolves checker.env (newNames checker.counters program.items) program' := by
  simp only [checkParts, outcome_bind_ok, outcome_lift, outcome_pure, Prod.mk.injEq,
    Except.ok.injEq] at h
  obtain ⟨inits', _, ⟨hinits, rfl⟩, funs', _, hfuns, classes', _, hclasses, stmts', _, hstmts,
    rfl, rfl⟩ := h
  have onFuns := mapM_resolves FunDef.Resolves checkFunDef_handsOut
    checkFunDef_resolves program.funs hfuns
  obtain rfl := (HandsOut.mapM checkFunDef_handsOut program.funs).moves_of_ok hfuns
  have onClasses := mapM_resolves ClassDef.Resolves checkClassDef_handsOut
    checkClassDef_resolves program.classes hclasses
  obtain rfl := (HandsOut.mapM checkClassDef_handsOut program.classes).moves_of_ok hclasses
  have onStmts := checkTop_resolves program.stmts hstmts
  refine ⟨rfl, checkInits_eq_ok hinits, _, _, _, ?_, onFuns, onClasses, onStmts⟩
  rw [Program.items, newNames_append, newNames_append]
  rfl

end Typing

/-- A program that a checker accepts is resolved in the environment with its declarations;
the new names of its comprehension items are those that come next, in order. -/
theorem check_resolves (checker after : Checker) (program : Program Location)
    (program' : Program Typed) (h : checker.check program = (.ok program', after)) :
    program.Resolves (checker.env.augment program)
      (newNames checker.counters program.items) program' := by
  unfold Checker.check at h
  split at h
  · rename_i typed last hparts
    cases h
    exact checkParts_resolves program hparts
  · nomatch h

/-- `[x for x in [x for x in [1]]]`, where the first `x` is the item of the outer
comprehension and the second one that of the inner. -/
def nestedItems : Program Location :=
  let here : Location := ⟨1, 1, ""⟩
  let inner : Expr Location :=
    .comprehension here .list (.id here "x") "x"
      (.listLiteral here [.literal here ⟨here, .num 1⟩]) none
  ⟨here, [], [], [], [.expr here (.comprehension here .list (.id here "x") "x" inner none)]⟩

theorem check_resolves_nestedItems :
    ∃ program' after, (Checker.new .builtins).check nestedItems = (.ok program', after) ∧
      nestedItems.Resolves (Env.builtins.augment nestedItems) ["compvar$x1", "compvar$x2"]
        program' :=
  ⟨_, _, rfl, check_resolves (Checker.new .builtins) _ nestedItems _ rfl⟩

end Offside
