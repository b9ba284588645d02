import Offside.Proofs.Typing.CheckResolves

/-!
# More declarations change no verdict

A program that is accepted in an environment is accepted, with the same types, in every environment
that knows more.  The one way in which more knowledge could get in the way is a call: a name is
looked up as a class first and as a function only then, so no new class may have the name of a
function.

Main definitions:

- `Env.Extends`: an environment has every binding of another one.
- `Env.Widens`: it also has no new class that captures the calls of a function.
- `Follows`: a check succeeds whenever another one does, with the same result.

Main results:

- Theorems `Expr.Checks.widens` and `Stmt.Checks.widens`: what is accepted in a body is accepted
  where more is known.
- Theorem `checkParts_follows`: so are the parts of a program.
- Theorem `check_extends`: so are programs, and what is known afterwards is more again.
-/

namespace Offside

/-! ## Environments that know more -/

/-- Two classes have the same fields and methods, with the same types. -/
structure ClassInfo.Same (cls cls' : ClassInfo) : Prop where
  field?_eq : ∀ name, Table.find? cls.fields name = Table.find? cls'.fields name
  method?_eq : ∀ name, Table.find? cls.methods name = Table.find? cls'.methods name

/-- `env.Extends env'`: the environment `env'` has every variable, function and class of `env`, with
the same value. -/
structure Env.Extends (env env' : Env) : Prop where
  global? : ∀ {name ty}, env.global? name = some ty → env'.global? name = some ty
  function? : ∀ {name signature},
    env.function? name = some signature → env'.function? name = some signature
  class? : ∀ {name cls},
    env.class? name = some cls → ∃ cls', env'.class? name = some cls' ∧ cls.Same cls'

/-- What a check has to know of an environment that knows more: a class that is new has not the
name of a function, so a call means what it meant. -/
structure Env.Widens (env env' : Env) : Prop extends env.Extends env' where
  uncaptured : ∀ {name}, env.class? name = none → env'.class? name ≠ none →
    env.function? name = none

/-- What is found after the same entries are set in two tables. -/
theorem Table.find?_insertAll_imp {β : Type} {table table' : Table β} {R : β → β → Prop}
    (hrefl : ∀ value, R value value)
    (h : ∀ {name value}, Table.find? table name = some value →
      ∃ value', Table.find? table' name = some value' ∧ R value value')
    (entries : List (String × β)) {name : String} {value : β}
    (hfound : Table.find? (Table.insertAll table entries) name = some value) :
    ∃ value', Table.find? (Table.insertAll table' entries) name = some value' ∧ R value value' := by
  rw [Table.find?_insertAll] at hfound ⊢
  cases hentry : Table.find? entries.reverse name with
  | some entry =>
    rw [hentry, Option.some_or, Option.some.injEq] at hfound
    exact ⟨entry, rfl, hfound ▸ hrefl entry⟩
  | none =>
    rw [hentry, Option.none_or] at hfound
    simpa using h hfound

/-- Setting entries keeps all that is found in a larger table. -/
theorem Table.find?_insertAll_mono {β : Type} {table table' : Table β}
    (h : ∀ {name value}, Table.find? table name = some value →
      Table.find? table' name = some value)
    (entries : List (String × β)) {name : String} {value : β}
    (hfound : Table.find? (Table.insertAll table entries) name = some value) :
    Table.find? (Table.insertAll table' entries) name = some value := by
  obtain ⟨_, hfound', rfl⟩ := Table.find?_insertAll_imp (R := Eq) (fun _ => rfl)
    (fun hfound => ⟨_, h hfound, rfl⟩) entries hfound
  exact hfound'

namespace Env.Extends

variable {env env' : Env}

/-- The declarations of a program are the same additions on both sides. -/
theorem augment {α : Type} (h : env.Extends env') (program : Program α) :
    (env.augment program).Extends (env'.augment program) where
  global? := Table.find?_insertAll_mono h.global? _
  function? := Table.find?_insertAll_mono h.function? _
  class? := Table.find?_insertAll_imp (fun _ => ⟨fun _ => rfl, fun _ => rfl⟩) h.class? _

/-- So are the variables of a top level. -/
theorem withGlobals (h : env.Extends env') (vars : Table Ty) :
    Env.Extends { env with globals := Table.insertAll env.globals vars }
      { env' with globals := Table.insertAll env'.globals vars } where
  global? := Table.find?_insertAll_mono h.global? _
  function? := h.function?
  class? := h.class?

/-- An iterable yields the same. -/
theorem element? (h : env.Extends env') {ty element : Ty} (hty : env.element? ty = some element) :
    env'.element? ty = some element := by
  cases ty with
  | object name arguments =>
    simp only [Env.element?, Option.bind_eq_bind, Option.bind_eq_some_iff] at hty ⊢
    obtain ⟨cls, hcls, hasnext, hhasnext, next, hnext, hret⟩ := hty
    obtain ⟨cls', hcls', hsame⟩ := h.class? hcls
    exact ⟨cls', hcls', hasnext, hsame.method?_eq _ ▸ hhasnext, next, hsame.method?_eq _ ▸ hnext,
      hret⟩
  | _ => exact hty

end Env.Extends

/-- With the declarations of a program, no new class captures a call if none has the name of a
function that was there or is declared. -/
theorem Env.Extends.widens_augment {α : Type} {env env' : Env} (h : env.Extends env')
    (program : Program α)
    (hnew : ∀ name, env.class? name = none → env'.class? name ≠ none →
      env.function? name = none ∧ ∀ fn ∈ program.funs, fn.name ≠ name) :
    (env.augment program).Widens (env'.augment program) where
  toExtends := h.augment program
  uncaptured := by
    intro name habsent hpresent
    -- The class is none of those that the program declares, so it was new before them.
    simp only [Env.class?, Env.augment, Table.find?_insertAll, Option.or_eq_none_iff] at habsent
    simp only [Env.class?, Env.augment, Table.find?_insertAll, habsent.1, Option.none_or]
      at hpresent
    obtain ⟨hold, hdeclared⟩ := hnew name habsent.2 hpresent
    simp only [Env.function?, Env.augment, Table.find?_insertAll, Option.or_eq_none_iff]
    refine ⟨?_, hold⟩
    rw [Table.find?, List.lookup_eq_none_iff]
    rintro ⟨declared, signature⟩ hmem
    simp only [List.mem_reverse, List.mem_map, Prod.mk.injEq] at hmem
    obtain ⟨fn, hfn, rfl, -⟩ := hmem
    simpa using (hdeclared fn hfn).symm

namespace Typing

/-! ## Rules -/

section Rules

variable {env env' : Env} {location : Location}

/-- A rule persists if it accepts, with the same result, in every environment that knows more. -/
def Persists {α : Type} (rule : Env → Verdict α) : Prop :=
  ∀ {env env' : Env}, env.Extends env' → ∀ {value}, rule env = .ok value → rule env' = .ok value

/-- A field that is found is found again. -/
theorem fieldType_persists (operation : String) (object : Expr Typed) (field : String)
    (location : Location) :
    Persists fun env => fieldType env operation object field location := by
  intro env env' h ty hty
  obtain ⟨name, cls, hname, hcls, hfield⟩ := fieldType_eq_ok.mp hty
  obtain ⟨cls', hcls', hsame⟩ := h.class? hcls
  exact fieldType_eq_ok.mpr ⟨name, cls', hname, hcls', hsame.field?_eq _ ▸ hfield⟩

/-- A function that takes arguments takes them again. -/
theorem functionCall_persists (name : String) (arguments : List (Expr Typed))
    (location : Location) :
    Persists fun env => functionCall env name arguments location := by
  intro env env' h ty hty
  obtain ⟨signature, hfound, hfits, hret⟩ := functionCall_eq_ok.mp hty
  exact functionCall_eq_ok.mpr ⟨signature, h.function? hfound, hfits, hret⟩

/-- So does a builtin function. -/
theorem builtinCall_persists (name : String) (argument : Expr Typed) (location : Location) :
    Persists fun env => builtinCall env name argument location := by
  intro env env' h ty hty
  rw [builtinCall_eq_ok] at hty ⊢
  split at hty
  · next hprint => rwa [if_pos hprint]
  · next hprint =>
    rw [if_neg hprint]
    exact functionCall_persists name [argument] location h hty

/-- So does a method. -/
theorem methodCall_persists (object : Expr Typed) (method : String)
    (arguments : List (Expr Typed)) (location : Location) :
    Persists fun env => methodCall env object method arguments location := by
  intro env env' h ty hty
  obtain ⟨name, cls, signature, hname, hcls, hmethod, hfits, hret⟩ := methodCall_eq_ok.mp hty
  obtain ⟨cls', hcls', hsame⟩ := h.class? hcls
  exact methodCall_eq_ok.mpr
    ⟨name, cls', signature, hname, hcls', hsame.method?_eq _ ▸ hmethod, hfits, hret⟩

/-- What can be gone through can be gone through again. -/
theorem expectIterable_persists (iterable : Expr Typed) :
    Persists fun env => expectIterable env iterable := by
  intro env env' h ty hty
  exact expectIterable_eq_ok.mpr (h.element? (expectIterable_eq_ok.mp hty))

/-- A call is sorted in the same way: the failed search for a class fails again. -/
theorem typedCall_widens (h : env.Widens env') {name : String} {genericArgs : List Ty}
    {arguments : List (Expr Typed)} {e : Expr Typed}
    (he : typedCall env name genericArgs arguments location = .ok e) :
    typedCall env' name genericArgs arguments location = .ok e := by
  unfold typedCall at he ⊢
  cases hclass : env.class? name with
  | some cls =>
    obtain ⟨cls', hclass', hsame⟩ := h.class? hclass
    simp only [hclass, hclass'] at he ⊢
    rwa [construction, ← hsame.method?_eq]
  | none =>
    rw [hclass] at he
    obtain ⟨ty, hty, hcall⟩ := verdict_bind_eq_ok.mp he
    obtain ⟨signature, hfunction, -⟩ := functionCall_eq_ok.mp hty
    have hclass' : env'.class? name = none := by
      by_contra hnew
      nomatch hfunction.symm.trans (h.uncaptured hclass hnew)
    rw [hclass']
    exact verdict_bind_eq_ok.mpr
      ⟨ty, functionCall_persists name arguments location h.toExtends hty, hcall⟩

end Rules

/-! ## Checks that follow others -/

section Follows

variable {σ α β : Type}

/-- A check follows another one: started in a related state it succeeds whenever that one does, with
the same result, and the states behind are related again. -/
def Follows (states : σ → σ → Prop) (check check' : ExceptT Diagnostic (StateM σ) α) : Prop :=
  ∀ state state', states state state' → ∀ value after,
    outcome check state = (.ok value, after) →
      ∃ after', outcome check' state' = (.ok value, after') ∧ states after after'

namespace Follows

variable {states : σ → σ → Prop}

/-- Equal values are given without a check. -/
theorem pure (value : α) : Follows states (Pure.pure value) (Pure.pure value) := by
  intro state state' hstates value' after h
  cases h
  exact ⟨state', rfl, hstates⟩

/-- A rule may be replaced by one that accepts whenever it does. -/
theorem lift {verdict verdict' : Verdict α}
    (h : ∀ value, verdict = .ok value → verdict' = .ok value) :
    Follows states (liftM verdict) (liftM verdict') := by
  intro state state' hstates value after hrun
  rw [outcome_lift, Prod.mk.injEq] at hrun
  obtain ⟨hverdict, rfl⟩ := hrun
  exact ⟨state', by rw [outcome_lift, h value hverdict], hstates⟩

/-- A rule that does not look at the environment gives the same. -/
theorem rule (verdict : Verdict α) : Follows states (liftM verdict) (liftM verdict) :=
  lift fun _ h => h

/-- In a row, each check is followed by its own. -/
theorem bind {first first' : ExceptT Diagnostic (StateM σ) α}
    {next next' : α → ExceptT Diagnostic (StateM σ) β} (hfirst : Follows states first first')
    (hnext : ∀ value, Follows states (next value) (next' value)) :
    Follows states (first >>= next) (first' >>= next') := by
  intro state state' hstates result last h
  obtain ⟨value, middle, hvalue, hresult⟩ := outcome_bind_ok.mp h
  obtain ⟨middle', hvalue', hmiddle⟩ := hfirst _ _ hstates _ _ hvalue
  obtain ⟨last', hresult', hlast⟩ := hnext value _ _ hmiddle _ _ hresult
  exact ⟨last', outcome_bind_ok.mpr ⟨value, middle', hvalue', hresult'⟩, hlast⟩

/-- A check of each entry of a list is followed if the check of an entry is. -/
theorem mapM {γ : Type} {check : γ → ExceptT Diagnostic (StateM σ) α}
    (h : ∀ entry, Follows states (check entry) (check entry)) (entries : List γ) :
    Follows states (entries.mapM check) (entries.mapM check) := by
  induction entries with
  | nil => exact pure []
  | cons entry entries ih =>
    rw [List.mapM_cons]
    exact bind (h entry) fun _ => bind ih fun _ => pure _

end Follows
end Follows

/-! ## Bodies -/

/-- Two checkers have handed out the same names, and the second knows more. -/
structure Checker.Widens (checker checker' : Checker) : Prop where
  env : checker.env.Widens checker'.env
  counters_eq : checker'.counters = checker.counters

/-- Two contexts are the same body of two such checkers. -/
structure Context.Widens (context context' : Context) : Prop where
  checker : Checker.Widens context.checker context'.checker
  locals_eq : context'.locals = context.locals

/-- A variable that is found is found again. -/
theorem Context.Widens.var? {context context' : Context} (h : context.Widens context')
    {name : String} {ty : Ty} (hty : context.var? name = some ty) :
    context'.var? name = some ty := by
  rw [Context.var?, h.locals_eq]
  rw [Context.var?] at hty
  cases hlocal : Table.find? context.locals.vars name with
  | some local' => rwa [hlocal] at hty
  | none =>
    rw [hlocal, Option.none_or] at hty
    exact h.checker.env.global? hty

namespace Context.Widens

variable {context context' : Context}

/-- What a rule accepts in the module it accepts where more is known. -/
theorem rule {α : Type} {verdict : Env → Verdict α} {value : α} (h : context.Widens context')
    (hpersists : Persists verdict) (hrule : verdict context.checker.env = .ok value) :
    verdict context'.checker.env = .ok value :=
  hpersists h.checker.env.toExtends hrule

/-- Names that are handed out on both sides are the same. -/
theorem handOut (h : context.Widens context') (items : List String) :
    (context.handOut items).Widens (context'.handOut items) where
  checker := ⟨h.checker.env, congrArg (countAll · items) h.checker.counters_eq⟩
  locals_eq := h.locals_eq

/-- The next name of an item is the same on both sides. -/
theorem nextName_eq (h : context.Widens context') (item : String) :
    context'.nextName item = context.nextName item := by
  rw [Context.nextName, Context.nextName, h.checker.counters_eq]

/-- The scope of an item is the same on both sides. -/
theorem forItem (h : context.Widens context') (item : String) (ty : Ty) :
    (context.forItem item ty).Widens (context'.forItem item ty) where
  checker := (h.handOut [item]).checker
  locals_eq := by
    simp [Context.forItem, Context.enter, Context.handOut, h.nextName_eq, h.locals_eq]

/-- Loops are entered on both sides. -/
theorem enterLoop (h : context.Widens context') : context.enterLoop.Widens context'.enterLoop where
  checker := h.checker
  locals_eq := by simp [Context.enterLoop, h.locals_eq]

/-- Loops are left on both sides. -/
theorem leaveLoop (h : context.Widens context') : context.leaveLoop.Widens context'.leaveLoop where
  checker := h.checker
  locals_eq := by simp [Context.leaveLoop, h.locals_eq]

/-- What is returned is noted on both sides. -/
theorem returning (h : context.Widens context') (ret : Ty) :
    (context.returning ret).Widens (context'.returning ret) where
  checker := h.checker
  locals_eq := by simp [Context.returning, h.locals_eq]

end Context.Widens

end Typing

open Typing

section Accepted

mutual

/-- An expression that is accepted is accepted where more is known. -/
theorem Expr.Checks.widens {e : Expr Location} {context context' : Context} {e' : Expr Typed}
    (h : e.Checks context e') (hwidens : context.Widens context') : e.Checks context' e' := by
  match h with
  | .literal => exact .literal
  | .item bound => exact .item (by rw [hwidens.locals_eq]; exact bound)
  | .var free declared =>
    exact .var (by rw [hwidens.locals_eq]; exact free) (hwidens.var? declared)
  | .binOp onLeft onRight gives =>
    exact .binOp (onLeft.widens hwidens) (onRight.widens (hwidens.handOut _)) gives
  | .uniOp onOperand gives => exact .uniOp (onOperand.widens hwidens) gives
  | .builtin1 onArgument gives =>
    exact .builtin1 (onArgument.widens hwidens)
      (hwidens.rule (builtinCall_persists _ _ _) gives)
  | .builtin2 onLeft onRight gives =>
    exact .builtin2 (onLeft.widens hwidens) (onRight.widens (hwidens.handOut _))
      (hwidens.rule (functionCall_persists _ _ _) gives)
  | .call onArguments gives =>
    exact .call (onArguments.widens hwidens) (typedCall_widens hwidens.checker.env gives)
  | .construct isClass onArguments =>
    obtain ⟨cls', hclass, -⟩ := hwidens.checker.env.class? isClass
    exact .construct hclass (onArguments.widens hwidens)
  | .lookup onObject gives =>
    exact .lookup (onObject.widens hwidens) (hwidens.rule (fieldType_persists _ _ _ _) gives)
  | .methodCall onObject onArguments gives =>
    exact .methodCall (onObject.widens hwidens) (onArguments.widens (hwidens.handOut _))
      (hwidens.rule (methodCall_persists _ _ _ _) gives)
  | .index onObject onPosition gives =>
    exact .index (onObject.widens hwidens) (onPosition.widens (hwidens.handOut _)) gives
  | .listLiteral onElements gives => exact .listLiteral (onElements.widens hwidens) gives
  | .ternary onTrue onCondition onFalse isBool =>
    exact .ternary (onTrue.widens hwidens) (onCondition.widens (hwidens.handOut _))
      (onFalse.widens ((hwidens.handOut _).handOut _)) isBool
  | .comprehension onIterable yields onResult =>
    rw [← (hwidens.handOut _).nextName_eq]
    exact .comprehension (onIterable.widens hwidens)
      (hwidens.rule (expectIterable_persists _) yields)
      (onResult.widens ((hwidens.handOut _).forItem _ _))
  | .filtered onIterable yields onFilter isBool onResult =>
    rw [← (hwidens.handOut _).nextName_eq]
    exact .filtered (onIterable.widens hwidens)
      (hwidens.rule (expectIterable_persists _) yields)
      (onFilter.widens ((hwidens.handOut _).forItem _ _)) isBool
      (onResult.widens (((hwidens.handOut _).forItem _ _).handOut _))

/-- Expressions that are accepted are accepted where more is known. -/
theorem Expr.ChecksAll.widens {es : List (Expr Location)} {context context' : Context}
    {es' : List (Expr Typed)} (h : Expr.ChecksAll context es es')
    (hwidens : context.Widens context') : Expr.ChecksAll context' es es' := by
  match h with
  | .nil => exact .nil
  | .cons onFirst onRest =>
    exact .cons (onFirst.widens hwidens) (onRest.widens (hwidens.handOut _))

end

mutual

/-- A statement that is accepted is accepted where more is known. -/
theorem Stmt.Checks.widens {s : Stmt Location} {context context' after : Context}
    {s' : Stmt Typed} (h : s.Checks context s' after) (hwidens : context.Widens context') :
    ∃ after', s.Checks context' s' after' ∧ after.Widens after' := by
  match h with
  | .assign onValue declared fits =>
    exact ⟨_, .assign (onValue.widens hwidens) (hwidens.var? declared) fits, hwidens.handOut _⟩
  | .fieldAssign onObject onValue gives fits =>
    exact ⟨_, .fieldAssign (onObject.widens hwidens) (onValue.widens (hwidens.handOut _))
      (hwidens.rule (fieldType_persists _ _ _ _) gives) fits, hwidens.handOut _⟩
  | .indexAssign onObject onPosition onValue isIndex isList fits =>
    exact ⟨_, .indexAssign (onObject.widens hwidens) (onPosition.widens (hwidens.handOut _))
      (onValue.widens ((hwidens.handOut _).handOut _)) isIndex isList fits, hwidens.handOut _⟩
  | .expr onValue => exact ⟨_, .expr (onValue.widens hwidens), hwidens.handOut _⟩
  | .return inFunction onValue fits =>
    rw [← hwidens.locals_eq] at inFunction fits
    exact ⟨_, .return inFunction (onValue.widens hwidens) fits,
      (hwidens.handOut _).returning _⟩
  | .cond onCondition isBool onBody onOtherwise =>
    obtain ⟨middle', hbody, hmiddle⟩ := onBody.widens (hwidens.handOut _)
    obtain ⟨last', hotherwise, hlast⟩ := onOtherwise.widens (hmiddle.returning .none)
    refine ⟨_, ?_, hlast.returning _⟩
    rw [← hmiddle.locals_eq, ← hlast.locals_eq]
    exact .cond (onCondition.widens hwidens) isBool hbody hotherwise
  | .while onCondition isBool onBody =>
    obtain ⟨last', hbody, hlast⟩ := onBody.widens (hwidens.handOut _).enterLoop
    exact ⟨_, .while (onCondition.widens hwidens) isBool hbody, hlast.leaveLoop⟩
  | .for onIterable yields declared fits onBody onOtherwise =>
    obtain ⟨middle', hbody, hmiddle⟩ := onBody.widens (hwidens.handOut _).enterLoop
    obtain ⟨last', hotherwise, hlast⟩ := onOtherwise.widens hmiddle.leaveLoop
    exact ⟨_, .for (onIterable.widens hwidens) (hwidens.rule (expectIterable_persists _) yields)
      (hwidens.var? declared) fits hbody hotherwise, hlast⟩
  | .pass => exact ⟨_, .pass, hwidens⟩
  | .continue inLoop => exact ⟨_, .continue (hwidens.locals_eq ▸ inLoop), hwidens⟩
  | .break inLoop => exact ⟨_, .break (hwidens.locals_eq ▸ inLoop), hwidens⟩

/-- Statements that are accepted are accepted where more is known. -/
theorem Stmt.ChecksAll.widens {block : List (Stmt Location)} {context context' after : Context}
    {block' : List (Stmt Typed)} (h : Stmt.ChecksAll context block block' after)
    (hwidens : context.Widens context') :
    ∃ after', Stmt.ChecksAll context' block block' after' ∧ after.Widens after' := by
  match h with
  | .nil => exact ⟨_, .nil, hwidens⟩
  | .cons onFirst onRest =>
    obtain ⟨middle', hfirst, hmiddle⟩ := onFirst.widens hwidens
    obtain ⟨last', hrest, hlast⟩ := onRest.widens hmiddle
    exact ⟨_, .cons hfirst hrest, hlast⟩

end

end Accepted

namespace Typing

open Offside.Typing.Follows

/-- The state of the body is the same where more is known. -/
theorem locals_follows : Follows Context.Widens Check.locals Check.locals := by
  intro context context' hwidens value after h
  cases h
  exact ⟨context', by rw [outcome_locals, hwidens.locals_eq], hwidens⟩

/-- The check of a block succeeds again where more is known. -/
theorem checkBlock_follows (block : List (Stmt Location)) :
    Follows Context.Widens (checkBlock block) (checkBlock block) := by
  intro context context' hwidens block' after h
  obtain ⟨after', hchecks, hafter⟩ := (checkBlock_eq_ok.mp h).widens hwidens
  exact ⟨after', checkBlock_eq_ok.mpr hchecks, hafter⟩

/-! ## Declarations and programs -/

section Declarations

open Offside.Typing.Follows

variable {α : Type}

/-- A body is followed if its check is. -/
theorem inBody_follows (locals : Locals) {check check' : Check α}
    (h : Follows Context.Widens check check') :
    Follows Checker.Widens (inBody locals check) (inBody locals check') := by
  intro checker checker' hwidens value after hrun
  rw [outcome_inBody, Prod.mk.injEq] at hrun
  obtain ⟨hvalue, rfl⟩ := hrun
  obtain ⟨last', hlast', hwidens'⟩ :=
    h ⟨checker, locals⟩ ⟨checker', locals⟩ ⟨hwidens, rfl⟩ _ _ (Prod.ext hvalue rfl)
  exact ⟨last'.checker, by rw [outcome_inBody, hlast'], hwidens'.checker⟩

/-- A function that is accepted is accepted where more is known. -/
theorem checkFunDef_follows (fn : FunDef Location) :
    Follows Checker.Widens (checkFunDef fn) (checkFunDef fn) := by
  unfold checkFunDef
  refine bind (.rule _) fun _ => bind (inBody_follows _ ?_) fun _ => .pure _
  unfold checkBody
  refine bind (checkBlock_follows fn.body) fun _ => bind locals_follows fun _ => ?_
  exact bind (.rule _) fun _ => .pure _

/-- A class that is accepted is accepted where more is known. -/
theorem checkClassDef_follows (cls : ClassDef Location) :
    Follows Checker.Widens (checkClassDef cls) (checkClassDef cls) := by
  unfold checkClassDef
  refine bind (.rule _) fun _ => bind (mapM checkFunDef_follows cls.methods) fun _ => ?_
  exact bind (.rule _) fun _ => .pure _

/-- The top level adds the same variables on both sides. -/
theorem checkTop_follows (stmts : List (Stmt Location)) :
    Follows Checker.Widens (checkTop stmts) (checkTop stmts) := by
  unfold checkTop
  refine bind (inBody_follows _ ?_) fun (_, vars) => bind ?_ fun _ => .pure _
  · exact bind (checkBlock_follows stmts) fun _ => bind locals_follows fun _ => .pure _
  · intro checker checker' hwidens value after h
    cases h
    have henv := hwidens.env.toExtends.withGlobals vars
    exact ⟨_, rfl, ⟨henv, hwidens.env.uncaptured⟩, hwidens.counters_eq⟩

/-- The parts of a program that are accepted are accepted where more is known. -/
theorem checkParts_follows (program : Program Location) :
    Follows Checker.Widens (checkParts program) (checkParts program) := by
  unfold checkParts
  refine bind (.rule _) fun _ => bind (mapM checkFunDef_follows program.funs) fun _ => ?_
  refine bind (mapM checkClassDef_follows program.classes) fun _ => ?_
  exact bind (checkTop_follows program.stmts) fun _ => .pure _

end Declarations

/-- A program that is accepted in an environment is accepted, with the same types and the same names
handed out, in every environment with all its bindings, if no class there is new and has the name
of a function that was known or that the program declares.  What is known afterwards is again all
that was known, and possibly more. -/
theorem check_extends {env env' : Env} (hextends : env.Extends env') (program : Program Location)
    (hnew : ∀ name, env.class? name = none → env'.class? name ≠ none →
      env.function? name = none ∧ ∀ fn ∈ program.funs, fn.name ≠ name)
    (counters : Table Nat) {typed : Program Typed} {after : Checker}
    (h : (Checker.mk env counters).check program = (.ok typed, after)) :
    ∃ after', (Checker.mk env' counters).check program = (.ok typed, after') ∧
      after'.counters = after.counters ∧ after.env.Extends after'.env := by
  have hstart : Checker.Widens ⟨env.augment program, counters⟩ ⟨env'.augment program, counters⟩ :=
    ⟨hextends.widens_augment program hnew, rfl⟩
  obtain ⟨after', hrun, hwidens⟩ :=
    checkParts_follows program _ _ hstart _ _ (check_eq_ok.mp h)
  exact ⟨after', check_eq_ok.mpr hrun, hwidens.counters_eq, hwidens.env.toExtends⟩

/-- The builtin functions, a variable `x` and a class `Point`. -/
def withPoint : Env :=
  { Env.builtins with globals := [("x", .bool)], classes := [("Point", ⟨[("x", .num)], []⟩)] }

/-- The absolute values of the elements of a list, which have the name of the variable. -/
def absoluteValues : Program Location :=
  let here : Location := ⟨1, 1, ""⟩
  ⟨here, [], [], [], [.expr here (.comprehension here .list (.builtin1 here "abs" (.id here "x"))
    "x" (.listLiteral here [.literal here ⟨here, .num 1⟩]) none)]⟩

theorem check_extends_absoluteValues :
    ∃ typed after after', (Checker.new .builtins).check absoluteValues = (.ok typed, after) ∧
      (Checker.mk withPoint []).check absoluteValues = (.ok typed, after') ∧
        after.env.Extends after'.env := by
  have hextends : Env.builtins.Extends withPoint :=
    ⟨nofun, id, nofun⟩
  have hnew : ∀ name, Env.builtins.class? name = none → withPoint.class? name ≠ none →
      Env.builtins.function? name = none ∧ ∀ fn ∈ absoluteValues.funs, fn.name ≠ name := by
    intro name _ hpresent
    by_cases hname : name = "Point"
    · subst hname
      exact ⟨by decide, nofun⟩
    · exact absurd (if_neg hname) (by rwa [Env.class?, withPoint, Table.find?_cons] at hpresent)
  obtain ⟨after', hrun, -, hafter⟩ := check_extends hextends absoluteValues hnew [] rfl
  exact ⟨_, _, after', rfl, hrun, hafter⟩

end Typing
end Offside
