import Offside.Proofs.Typing.CheckResolves
import Offside.Proofs.Typing.Matching

/-!
# Checks side by side

Two checkers that know the same variables, functions and classes, and differ only in the names
that they hand out, come to the same verdict: both refuse, for the same reason at the same
place, or both accept, with the same types.  This module compares the checks of one tree in two
such contexts, step by step.

Main definitions:

- `Agree`: two verdicts are the same, up to a relation of what is accepted.
- `Parallel`: two checks agree and keep states related.
- `Env.Agrees`: two environments know the same.
- `renumbered`: checked trees that differ in the numbers of item names alone.

Main results:

- Theorem `checkExpr_parallel`: the checks of an expression in two contexts.
- Theorem `checkBlock_parallel`: the checks of statements in two contexts.
- Theorem `checkParts_parallel`: the checks of a program.
-/

namespace Offside
namespace Typing

/-! ## Verdicts and checks that agree -/

/-- Two verdicts agree: both accept, and what they accept goes together, or both refuse for
the same reason at the same place. -/
inductive Agree {α β : Type} (rel : α → β → Prop) :
    Except Diagnostic α → Except Diagnostic β → Prop where
  | ok {value : α} {value' : β} (h : rel value value') : Agree rel (.ok value) (.ok value')
  | error (diagnostic : Diagnostic) : Agree rel (.error diagnostic) (.error diagnostic)

section Parallel

variable {σ τ α β γ δ : Type}

/-- Verdicts that are equal agree. -/
theorem Agree.of_eq {verdict verdict' : Except Diagnostic α} (h : verdict = verdict') :
    Agree Eq verdict verdict' := by
  subst h
  cases verdict with
  | ok value => exact .ok rfl
  | error diagnostic => exact .error diagnostic

/-- Two checks that start in related states agree, and end in related states. -/
def Parallel (states : σ → τ → Prop) (rel : α → β → Prop)
    (check : ExceptT Diagnostic (StateM σ) α) (check' : ExceptT Diagnostic (StateM τ) β) : Prop :=
  ∀ state state', states state state' →
    Agree rel (outcome check state).1 (outcome check' state').1 ∧
      states (outcome check state).2 (outcome check' state').2

namespace Parallel

variable {states : σ → τ → Prop} {rel : α → β → Prop} {rel' : γ → δ → Prop}

/-- Two checks give values that go together. -/
theorem pure {value : α} {value' : β} (h : rel value value') :
    Parallel states rel (Pure.pure value) (Pure.pure value') :=
  fun _ _ hstates => ⟨.ok h, hstates⟩

/-- Two checks refuse for the same. -/
theorem throw (diagnostic : Diagnostic) :
    Parallel states rel (throw diagnostic) (throw diagnostic) :=
  fun _ _ hstates => ⟨.error diagnostic, hstates⟩

/-- Two looks at the state give states that go together. -/
theorem get :
    Parallel states states (MonadState.get : ExceptT Diagnostic (StateM σ) σ)
      (MonadState.get : ExceptT Diagnostic (StateM τ) τ) :=
  fun _ _ hstates => ⟨.ok hstates, hstates⟩

/-- Rules that agree may be lifted. -/
theorem lift {verdict : Verdict α} {verdict' : Verdict β} (h : Agree rel verdict verdict') :
    Parallel states rel (liftM verdict) (liftM verdict') := by
  intro state state' hstates
  rw [outcome_lift, outcome_lift]
  exact ⟨h, hstates⟩

/-- A rule that is the same on both sides. -/
theorem lift_eq {verdict verdict' : Verdict α} (h : verdict = verdict') :
    Parallel states Eq (liftM verdict : ExceptT Diagnostic (StateM σ) α)
      (liftM verdict' : ExceptT Diagnostic (StateM τ) α) :=
  lift (.of_eq h)

/-- Two checks in a row agree when the first ones do, and the second ones on what these
give. -/
theorem bind {R : α → β → Prop} {first : ExceptT Diagnostic (StateM σ) α}
    {first' : ExceptT Diagnostic (StateM τ) β} {next : α → ExceptT Diagnostic (StateM σ) γ}
    {next' : β → ExceptT Diagnostic (StateM τ) δ} (hfirst : Parallel states R first first')
    (hnext : ∀ value value', R value value' →
      Parallel states rel' (next value) (next' value')) :
    Parallel states rel' (first >>= next) (first' >>= next') := by
  intro state state' hstates
  have hboth := hfirst state state' hstates
  rw [outcome_bind, outcome_bind]
  rcases hout : outcome first state with ⟨verdict, middle⟩
  rcases hout' : outcome first' state' with ⟨verdict', middle'⟩
  rw [hout, hout'] at hboth
  obtain ⟨hagree, hmiddle⟩ := hboth
  cases hagree with
  | error diagnostic => exact ⟨.error diagnostic, hmiddle⟩
  | ok hvalue => exact hnext _ _ hvalue middle middle' hmiddle

/-- Checks that agree on each entry agree on a list. -/
theorem mapM {check : γ → ExceptT Diagnostic (StateM σ) α}
    {check' : γ → ExceptT Diagnostic (StateM τ) β}
    (h : ∀ entry, Parallel states rel (check entry) (check' entry)) (entries : List γ) :
    Parallel states (List.Forall₂ rel) (entries.mapM check) (entries.mapM check') := by
  induction entries with
  | nil => exact pure .nil
  | cons entry entries ih =>
    rw [List.mapM_cons, List.mapM_cons]
    refine bind (h entry) fun _ _ hfirst => bind ih fun _ _ hrest => ?_
    exact pure (.cons hfirst hrest)

end Parallel
end Parallel

/-! ## Rules -/

end Typing

/-- Two environments know the same variables, functions and classes. -/
structure Env.Agrees (env env' : Env) : Prop where
  global?_eq : ∀ name, env.global? name = env'.global? name
  function?_eq : ∀ name, env.function? name = env'.function? name
  class?_eq : ∀ name, env.class? name = env'.class? name

namespace Typing

/-- The rules look at nothing of a checked expression but its type and its place. -/
abbrev SameNote (e e' : Expr Typed) : Prop := e.note = e'.note

section Rules

variable {env env' : Env} {e e' f f' : Expr Typed} {es es' : List (Expr Typed)}
  {location : Location}

/-- Expressions with the same note have the same type. -/
theorem ty_eq (h : SameNote e e') : e.ty = e'.ty := congrArg Typed.ty h

/-- A condition is judged by its note. -/
theorem expectBool_eq (h : SameNote e e') : expectBool e = expectBool e' := by
  rw [expectBool, expectBool, ty_eq h, h]

/-- So is an index. -/
theorem expectIndex_eq (h : SameNote e e') : expectIndex e = expectIndex e' := by
  rw [expectIndex, expectIndex, ty_eq h, h]

/-- What an iterable yields depends on the classes that both environments know. -/
theorem element?_eq (henv : env.Agrees env') (ty : Ty) : env.element? ty = env'.element? ty := by
  cases ty <;> simp only [Env.element?, henv.class?_eq]

/-- An iterable is judged by its note. -/
theorem expectIterable_eq (henv : env.Agrees env') (h : SameNote e e') :
    expectIterable env e = expectIterable env' e' := by
  rw [expectIterable, expectIterable, ty_eq h, h, element?_eq henv]

/-- The class of an object is told by its note. -/
theorem classOf_eq (henv : env.Agrees env') (operation : String) (h : SameNote e e') :
    classOf env operation e location = classOf env' operation e' location := by
  simp only [classOf, expectObject, ty_eq h, henv.class?_eq]

/-- The type of a field depends on the note of the object. -/
theorem fieldType_eq (henv : env.Agrees env') (operation field : String) (h : SameNote e e') :
    fieldType env operation e field location = fieldType env' operation e' field location := by
  rw [fieldType, fieldType, classOf_eq henv operation h]

/-- The first argument that does not fit is the same. -/
theorem map_find?_misfit_eq (parameters : List Ty) (h : List.Forall₂ SameNote es es') :
    ((parameters.zip es).find? fun (parameter, argument) =>
        !argument.ty.isAssignable parameter).map (Prod.map id Expr.note) =
      ((parameters.zip es').find? fun (parameter, argument) =>
        !argument.ty.isAssignable parameter).map (Prod.map id Expr.note) := by
  induction h generalizing parameters with
  | nil => simp
  | @cons e e' _ _ hfirst _ ih =>
    cases parameters with
    | nil => rfl
    | cons parameter parameters =>
      simp only [List.zip_cons_cons, List.find?_cons, ty_eq hfirst]
      split
      · rw [Option.map_some, Option.map_some, Prod.map, Prod.map, hfirst]
      · exact ih parameters

/-- Arguments are judged by their notes. -/
theorem checkArguments_eq (name : String) (parameters : List Ty)
    (h : List.Forall₂ SameNote es es') :
    checkArguments name parameters es location = checkArguments name parameters es' location := by
  have hmisfit := map_find?_misfit_eq parameters h
  simp only [checkArguments, h.length_eq]
  split
  · generalize (parameters.zip es).find? _ = misfit at hmisfit ⊢
    generalize (parameters.zip es').find? _ = misfit' at hmisfit ⊢
    rcases misfit with _ | ⟨parameter, argument⟩ <;> rcases misfit' with _ | ⟨parameter', argument'⟩
    · rfl
    · nomatch hmisfit
    · nomatch hmisfit
    · simp only [Option.map_some, Option.some.injEq, Prod.map, id, Prod.mk.injEq] at hmisfit
      have hty : argument.ty = argument'.ty := ty_eq hmisfit.2
      simp only [hmisfit.1, hmisfit.2, hty]
  · rfl

/-- A call depends on the notes of its arguments. -/
theorem functionCall_eq (henv : env.Agrees env') (name : String)
    (h : List.Forall₂ SameNote es es') :
    functionCall env name es location = functionCall env' name es' location := by
  simp only [functionCall, henv.function?_eq, checkArguments_eq _ _ h]

/-- A method call depends on the notes of the object and of the arguments. -/
theorem methodCall_eq (henv : env.Agrees env') (method : String) (he : SameNote e e')
    (hes : List.Forall₂ SameNote es es') :
    methodCall env e method es location = methodCall env' e' method es' location := by
  simp only [methodCall, classOf_eq henv _ he, checkArguments_eq _ _ hes, hes.length_eq, ty_eq he,
    show e.note = e'.note from he]

/-- The call of a builtin function depends on the note of its argument. -/
theorem builtinCall_eq (henv : env.Agrees env') (name : String) (h : SameNote e e') :
    builtinCall env name e location = builtinCall env' name e' location := by
  simp only [builtinCall, functionCall_eq henv name (.cons h .nil), ty_eq h]

/-- The creation of an object depends on the notes of the arguments. -/
theorem construction_eq (cls : ClassInfo) (name : String) (h : List.Forall₂ SameNote es es') :
    construction cls name es location = construction cls name es' location := by
  simp only [construction, checkArguments_eq _ _ h]

/-- The first element that does not fit is the same. -/
theorem map_find?_element_eq (ty : Ty) (h : List.Forall₂ SameNote es es') :
    (es.find? fun element => !element.ty.isAssignable ty).map Expr.note =
      (es'.find? fun element => !element.ty.isAssignable ty).map Expr.note := by
  induction h with
  | nil => rfl
  | cons hfirst _ ih =>
    simp only [List.find?_cons, ty_eq hfirst]
    split
    · rw [Option.map_some, Option.map_some, hfirst]
    · exact ih

/-- The type of a list depends on the notes of its elements. -/
theorem listType_eq (h : List.Forall₂ SameNote es es') : listType es = listType es' := by
  cases h with
  | nil => rfl
  | @cons first first' rest rest' hfirst hrest =>
    have hmisfit := map_find?_element_eq first'.ty hrest
    simp only [listType, ty_eq hfirst]
    generalize rest.find? _ = misfit at hmisfit ⊢
    generalize rest'.find? _ = misfit' at hmisfit ⊢
    rcases misfit with _ | misfit <;> rcases misfit' with _ | misfit'
    · rfl
    · nomatch hmisfit
    · nomatch hmisfit
    · have hnote : misfit.note = misfit'.note := by simpa using hmisfit
      simp only [ty_eq hnote, hnote]

/-- The type of an element depends on the notes of the list and of the index. -/
theorem indexType_eq (he : SameNote e e') (hf : SameNote f f') :
    indexType e f location = indexType e' f' location := by
  rw [indexType, indexType, expectIndex_eq hf, ty_eq he]

end Rules

/-! ## Contexts -/

/-- Checked trees that differ in nothing but the numbers in the names of items. -/
def renumbered : Matching Typed Typed where
  note := Eq
  item renamed renamed' := ∃ item n m, 
    renamed = Check.itemName item n ∧ renamed' = Check.itemName item m

/-- Comprehension items in scope on both sides, the innermost first, each with its two new
names and its type. -/
abbrev Shared := Table ((String × String) × Ty)

/-- The items with their names and types on the left. -/
def Shared.left (shared : Shared) : Bindings :=
  shared.map fun entry => (entry.1, (entry.2.1.1, entry.2.2))

/-- The items with their names and types on the right. -/
def Shared.right (shared : Shared) : Bindings :=
  shared.map fun entry => (entry.1, (entry.2.1.2, entry.2.2))

/-- The two names of each item. -/
def Shared.names (shared : Shared) : List (String × String) := shared.map fun entry => entry.2.1

/-- What the first context finds of shared items. -/
theorem Shared.find?_left (shared : Shared) (name : String) :
    Table.find? shared.left name =
      (Table.find? shared name).map fun entry => (entry.1.1, entry.2) := by
  induction shared with
  | nil => rfl
  | cons entry rest ih =>
    rcases entry with ⟨item, names, ty⟩
    rw [Shared.left, List.map_cons, Table.find?_cons, Table.find?_cons]
    split
    · rfl
    · exact ih

/-- What the second context finds of them. -/
theorem Shared.find?_right (shared : Shared) (name : String) :
    Table.find? shared.right name =
      (Table.find? shared name).map fun entry => (entry.1.2, entry.2) := by
  induction shared with
  | nil => rfl
  | cons entry rest ih =>
    rcases entry with ⟨item, names, ty⟩
    rw [Shared.right, List.map_cons, Table.find?_cons, Table.find?_cons]
    split
    · rfl
    · exact ih

/-- The two names of an item that is found are shared. -/
theorem Shared.mem_names {shared : Shared} {name : String} {names : String × String} {ty : Ty}
    (h : Table.find? shared name = some (names, ty)) : names ∈ shared.names := by
  induction shared with
  | nil => nomatch h
  | cons entry rest ih =>
    rcases entry with ⟨item, _, _⟩
    rw [Table.find?_cons] at h
    split at h
    · cases h
      exact List.mem_cons_self
    · exact List.mem_cons_of_mem _ (ih h)

/-- Two contexts know the same and are in the same body, but for the names of the items in
scope. -/
structure Context.Alike (shared : Shared) (context context' : Context) : Prop where
  env : context.checker.env.Agrees context'.checker.env
  left : context.Binds shared.left
  right : context'.Binds shared.right
  body : context'.locals = { context.locals with scopes := context'.locals.scopes }

namespace Context.Alike

variable {shared : Shared} {context context' : Context}

/-- Contexts that are alike find the same variables. -/
theorem var?_eq (h : context.Alike shared context') (name : String) :
    context.var? name = context'.var? name := by
  rw [Context.var?, Context.var?, h.body, h.env.global?_eq]

/-- Outside of comprehensions the bodies are the same. -/
theorem locals_eq (h : context.Alike [] context') : context.locals = context'.locals := by
  have hleft : context.locals.scopes = [] := h.left
  have hright : context'.locals.scopes = [] := h.right
  rw [h.body, hright, ← hleft]

/-- A change of the body that leaves the items in scope keeps contexts alike. -/
theorem modify (h : context.Alike [] context') (change : Locals → Locals)
    (hscopes : ∀ locals, (change locals).scopes = locals.scopes) :
    Context.Alike [] { context with locals := change context.locals }
      { context' with locals := change context'.locals } where
  env := h.env
  left := h.left.of_scopes_eq (hscopes _)
  right := h.right.of_scopes_eq (hscopes _)
  body := by rw [h.locals_eq]

end Context.Alike

/-! ## Expressions -/

section Expressions

open Parallel Check

variable {shared : Shared} {α β γ : Type} {rel : α → β → Prop}

/-- Looks at the environment give environments that agree. -/
theorem env_parallel :
    Parallel (Context.Alike shared) Env.Agrees Check.env Check.env :=
  fun _ _ halike => ⟨.ok halike.env, halike⟩

/-- A rule that gives the same on both sides, and what is made of it. -/
theorem rule_parallel {verdict verdict' : Verdict γ} {make : γ → α} {make' : γ → β}
    (hrule : verdict = verdict') (hmake : ∀ value, rel (make value) (make' value)) :
    Parallel (Context.Alike shared) rel (do return make (← liftM verdict))
      (do return make' (← liftM verdict')) := by
  refine bind (lift_eq hrule) fun value _ heq => ?_
  subst heq
  exact .pure (hmake value)

/-- A rule in the environment gives the same in environments that agree. -/
theorem envRule_parallel {rule rule' : Env → Verdict γ} {make : γ → α} {make' : γ → β}
    (hrule : ∀ env env', env.Agrees env' → rule env = rule' env')
    (hmake : ∀ value, rel (make value) (make' value)) :
    Parallel (Context.Alike shared) rel (do return make (← liftM (rule (← Check.env))))
      (do return make' (← liftM (rule' (← Check.env)))) :=
  bind env_parallel fun _ _ henv => rule_parallel (hrule _ _ henv) hmake

/-- The names that both sides hand out for an item differ in the number. -/
theorem freshName_parallel (item : String) :
    Parallel (Context.Alike shared) renumbered.item (freshName item) (freshName item) := by
  intro context context' halike
  exact ⟨.ok ⟨item, _, _, rfl, rfl⟩, halike.env, halike.left, halike.right, halike.body⟩

/-- In the scope of an item the two names of this item are shared. -/
theorem inScope_parallel {item renamed renamed' : String} {ty : Ty} {check : Check α}
    {check' : Check β}
    (h : Parallel (Context.Alike ((item, ((renamed, renamed'), ty)) :: shared)) rel check check') :
    Parallel (Context.Alike shared) rel (inScope item renamed ty check)
      (inScope item renamed' ty check') := by
  intro context context' halike
  have hinside : (context.enter item renamed ty).Alike ((item, ((renamed, renamed'), ty)) :: shared)
      (context'.enter item renamed' ty) := {
    env := halike.env
    left := halike.left.enter item renamed ty
    right := halike.right.enter item renamed' ty
    body := by rw [Context.enter, Context.enter, halike.body] }
  obtain ⟨hagree, hafter⟩ := h _ _ hinside
  rw [inScope, inScope, outcome_between, outcome_between]
  refine ⟨hagree, hafter.env, ?_, ?_, ?_⟩
  · exact congrArg List.tail hafter.left
  · exact congrArg List.tail hafter.right
  · have hbody := hafter.body
    exact congrArg (fun locals => { locals with scopes := locals.scopes.tail }) hbody

/-- A name becomes the same on both sides but for the new names of items. -/
theorem checkId_parallel (location : Location) (name : String) :
    Parallel (Context.Alike shared) (Expr.Matches renumbered shared.names)
      (checkId location name) (checkId location name) := by
  refine bind .get fun context context' halike => ?_
  rw [item?_of_binds halike.left, item?_of_binds halike.right, Shared.find?_left,
    Shared.find?_right, halike.var?_eq]
  rcases hitem : Table.find? shared name with _ | ⟨⟨renamed, renamed'⟩, ty⟩
  · rcases context'.var? name with _ | ty
    · exact .throw _
    · exact .pure (.id rfl)
  · exact .pure (.item rfl (Shared.mem_names hitem))

/-- A call is sorted in the same way on both sides. -/
theorem typedCall_parallel {env env' : Env} (henv : env.Agrees env') {es es' : List (Expr Typed)}
    (name : String) (genericArgs : List Ty) (location : Location)
    (h : Expr.MatchesAll renumbered shared.names es es') :
    Agree (Expr.Matches renumbered shared.names) (typedCall env name genericArgs es location)
      (typedCall env' name genericArgs es' location) := by
  unfold typedCall
  rw [henv.class?_eq]
  split
  · rw [construction_eq _ _ h.notes]
    rcases construction _ name es' location with diagnostic | ⟨⟩
    · exact .error diagnostic
    · exact .ok (.construct rfl h)
  · rw [functionCall_eq henv name h.notes]
    rcases functionCall env' name es' location with diagnostic | ty
    · exact .error diagnostic
    · exact .ok (.call rfl h)

mutual

/-- The checks of an expression in two contexts that are alike agree. -/
theorem checkExpr_parallel (e : Expr Location) {shared : Shared} :
    Parallel (Context.Alike shared) (Expr.Matches renumbered shared.names)
      (checkExpr e) (checkExpr e) := by
  match e with
  | .literal location literal =>
    rw [checkExpr]
    exact .pure (.literal rfl rfl rfl)
  | .id location name =>
    rw [checkExpr]
    exact checkId_parallel location name
  | .binOp location op left right =>
    rw [checkExpr]
    refine bind (checkExpr_parallel left) fun _ _ hleft => ?_
    refine bind (checkExpr_parallel right) fun _ _ hright => ?_
    refine rule_parallel ?_ fun _ => .binOp rfl hleft hright
    rw [ty_eq hleft.note, ty_eq hright.note]
  | .uniOp location op operand =>
    rw [checkExpr]
    refine bind (checkExpr_parallel operand) fun _ _ hoperand => ?_
    refine rule_parallel ?_ fun _ => .uniOp rfl hoperand
    rw [ty_eq hoperand.note]
  | .builtin1 location name argument =>
    rw [checkExpr]
    refine bind (checkExpr_parallel argument) fun _ _ hargument => ?_
    exact envRule_parallel (fun _ _ henv => builtinCall_eq henv name hargument.note)
      fun _ => .builtin1 rfl hargument
  | .builtin2 location name left right =>
    rw [checkExpr]
    refine bind (checkExpr_parallel left) fun _ _ hleft => ?_
    refine bind (checkExpr_parallel right) fun _ _ hright => ?_
    have hnotes := (Expr.MatchesAll.cons hleft (.cons hright .nil)).notes
    exact envRule_parallel (fun _ _ henv => functionCall_eq henv name hnotes)
      fun _ => .builtin2 rfl hleft hright
  | .call location name genericArgs arguments =>
    rw [checkExpr]
    refine bind (checkExprs_parallel arguments) fun _ _ harguments => ?_
    exact bind env_parallel fun _ _ henv =>
      lift (typedCall_parallel henv name genericArgs location harguments)
  | .construct location name arguments =>
    rw [checkExpr]
    refine bind env_parallel fun env env' henv => ?_
    refine bind (lift_eq (by rw [henv.class?_eq])) fun _ _ _ => ?_
    exact bind (checkExprs_parallel arguments) fun _ _ harguments =>
      .pure (.construct rfl harguments)
  | .lookup location object field =>
    rw [checkExpr]
    refine bind (checkExpr_parallel object) fun _ _ hobject => ?_
    exact envRule_parallel (fun _ _ henv => fieldType_eq henv _ field hobject.note)
      fun _ => .lookup rfl hobject
  | .methodCall location object method arguments =>
    rw [checkExpr]
    refine bind (checkExpr_parallel object) fun _ _ hobject => ?_
    refine bind (checkExprs_parallel arguments) fun _ _ harguments => ?_
    exact envRule_parallel
      (fun _ _ henv => methodCall_eq henv method hobject.note harguments.notes)
      fun _ => .methodCall rfl hobject harguments
  | .index location object position =>
    rw [checkExpr]
    refine bind (checkExpr_parallel object) fun _ _ hobject => ?_
    refine bind (checkExpr_parallel position) fun _ _ hposition => ?_
    exact rule_parallel (indexType_eq hobject.note hposition.note)
      fun _ => .index rfl hobject hposition
  | .listLiteral location elements =>
    rw [checkExpr]
    refine bind (checkExprs_parallel elements) fun _ _ helements => ?_
    exact rule_parallel (listType_eq helements.notes) fun _ => .listLiteral rfl helements
  | .ternary location ifTrue condition ifFalse =>
    rw [checkExpr]
    refine bind (checkExpr_parallel ifTrue) fun _ _ htrue => ?_
    refine bind (checkExpr_parallel condition) fun _ _ hcondition => ?_
    refine bind (checkExpr_parallel ifFalse) fun _ _ hfalse => ?_
    refine rule_parallel (expectBool_eq hcondition.note) fun _ => ?_
    rw [ty_eq htrue.note, ty_eq hfalse.note]
    exact .ternary rfl htrue hcondition hfalse
  | .comprehension location kind result item iterable none =>
    rw [checkExpr]
    refine bind (checkExpr_parallel iterable) fun _ _ hiterable => ?_
    refine bind env_parallel fun _ _ henv => ?_
    refine bind (lift_eq (expectIterable_eq henv hiterable.note)) fun element _ heq => ?_
    subst heq
    refine bind (freshName_parallel item) fun _ _ hitem => ?_
    exact bind (inScope_parallel (checkExpr_parallel result)) fun _ _ hresult =>
      .pure (.comprehension rfl hitem hiterable hresult)
  | .comprehension location kind result item iterable (some filter) =>
    rw [checkExpr]
    refine bind (checkExpr_parallel iterable) fun _ _ hiterable => ?_
    refine bind env_parallel fun _ _ henv => ?_
    refine bind (lift_eq (expectIterable_eq henv hiterable.note)) fun element _ heq => ?_
    subst heq
    refine bind (freshName_parallel item) fun renamed renamed' hitem => ?_
    let inner : Shared := (item, ((renamed, renamed'), element)) :: shared
    refine bind (R := fun both both' => both.1.Matches renumbered inner.names both'.1 ∧
      both.2.Matches renumbered inner.names both'.2) (inScope_parallel ?_) ?_
    · refine bind (checkExpr_parallel filter) fun _ _ hfilter => ?_
      refine bind (lift_eq (expectBool_eq hfilter.note)) fun _ _ _ => ?_
      exact bind (checkExpr_parallel result) fun _ _ hresult => .pure ⟨hresult, hfilter⟩
    · rintro ⟨_, _⟩ ⟨_, _⟩ ⟨hresult, hfilter⟩
      exact .pure (.filtered rfl hitem hiterable hfilter hresult)

/-- The checks of expressions in two contexts that are alike agree one by one. -/
theorem checkExprs_parallel (es : List (Expr Location)) {shared : Shared} :
    Parallel (Context.Alike shared) (Expr.MatchesAll renumbered shared.names)
      (checkExprs es) (checkExprs es) := by
  match es with
  | [] =>
    rw [checkExprs]
    exact .pure .nil
  | first :: rest =>
    rw [checkExprs]
    refine bind (checkExpr_parallel first) fun _ _ hfirst => ?_
    exact bind (checkExprs_parallel rest) fun _ _ hrest => .pure (.cons hfirst hrest)

end

end Expressions

/-! ## Statements -/

section Statements

open Parallel Check

variable {α β : Type} {rel : α → β → Prop}

/-- Outside of comprehensions the states of two bodies that are alike are equal. -/
theorem locals_parallel : Parallel (Context.Alike []) Eq Check.locals Check.locals :=
  fun _ _ halike => ⟨.ok halike.locals_eq, halike⟩

/-- What is returned is noted on both sides. -/
theorem setActualRet_parallel (ret : Ty) :
    Parallel (Context.Alike []) Eq (setActualRet ret) (setActualRet ret) :=
  fun _ _ halike => ⟨.ok rfl, halike.modify (fun locals =>
    { locals with actualRet := ret }) fun _ => rfl⟩

/-- The target of an assignment has the same type on both sides. -/
theorem targetType_parallel (location : Location) (name : String) :
    Parallel (Context.Alike []) Eq (targetType location name) (targetType location name) := by
  intro context context' halike
  rw [outcome_targetType, outcome_targetType, halike.var?_eq]
  exact ⟨.of_eq rfl, halike⟩

/-- A statement of loops stands in a loop on both sides, or on none. -/
theorem expectInLoop_parallel (keyword : String) (location : Location) :
    Parallel (Context.Alike []) Eq (expectInLoop keyword location)
      (expectInLoop keyword location) := by
  intro context context' halike
  rw [outcome_expectInLoop, outcome_expectInLoop, halike.locals_eq]
  exact ⟨.of_eq rfl, halike⟩

/-- In loops, contexts stay alike. -/
theorem inLoop_parallel {check : Check α} {check' : Check β}
    (h : Parallel (Context.Alike []) rel check check') :
    Parallel (Context.Alike []) rel (inLoop check) (inLoop check') := by
  intro context context' halike
  rw [inLoop, inLoop, outcome_between, outcome_between]
  obtain ⟨hagree, hafter⟩ := h _ _
    (halike.modify (fun locals => { locals with loopDepth := locals.loopDepth + 1 })
      fun _ => rfl)
  exact ⟨hagree, hafter.modify (fun locals =>
    { locals with loopDepth := locals.loopDepth - 1 }) fun _ => rfl⟩

mutual

/-- The checks of a statement in two contexts that are alike agree. -/
theorem checkStmt_parallel (s : Stmt Location) :
    Parallel (Context.Alike []) (Stmt.Matches renumbered) (checkStmt s) (checkStmt s) := by
  match s with
  | .assign location name value =>
    rw [checkStmt]
    refine bind (checkExpr_parallel value) fun _ _ hvalue => ?_
    refine bind (targetType_parallel location name) fun target _ heq => ?_
    subst heq
    exact rule_parallel (by rw [ty_eq hvalue.note]) fun _ => .assign rfl hvalue
  | .fieldAssign location object field value =>
    rw [checkStmt]
    refine bind (checkExpr_parallel object) fun _ _ hobject => ?_
    refine bind (checkExpr_parallel value) fun _ _ hvalue => ?_
    refine bind env_parallel fun _ _ henv => ?_
    refine bind (lift_eq (fieldType_eq henv _ field hobject.note)) fun target _ heq => ?_
    subst heq
    exact rule_parallel (by rw [ty_eq hvalue.note]) fun _ => .fieldAssign rfl hobject hvalue
  | .indexAssign location object position value =>
    rw [checkStmt]
    refine bind (checkExpr_parallel object) fun object _ hobject => ?_
    refine bind (checkExpr_parallel position) fun _ _ hposition => ?_
    refine bind (checkExpr_parallel value) fun _ _ hvalue => ?_
    refine bind (lift_eq (expectIndex_eq hposition.note)) fun _ _ _ => ?_
    rw [← ty_eq hobject.note]
    split
    · exact rule_parallel (by rw [ty_eq hvalue.note])
        fun _ => .indexAssign rfl hobject hposition hvalue
    · exact .throw _
  | .expr location value =>
    rw [checkStmt]
    refine bind (checkExpr_parallel value) fun _ _ hvalue => ?_
    rw [ty_eq hvalue.note]
    exact .pure (.expr rfl hvalue)
  | .return location value =>
    rw [checkStmt]
    refine bind locals_parallel fun locals _ heq => ?_
    subst heq
    refine bind (lift_eq rfl) fun _ _ _ => ?_
    refine bind (checkExpr_parallel value) fun _ _ hvalue => ?_
    refine bind locals_parallel fun locals _ heq => ?_
    subst heq
    rw [ty_eq hvalue.note]
    refine bind (lift_eq rfl) fun _ _ _ => ?_
    exact bind (setActualRet_parallel _) fun _ _ _ => .pure (.return rfl hvalue)
  | .cond location condition body otherwise =>
    rw [checkStmt]
    refine bind (checkExpr_parallel condition) fun _ _ hcondition => ?_
    refine bind (lift_eq (expectBool_eq hcondition.note)) fun _ _ _ => ?_
    refine bind (checkBlock_parallel body) fun _ _ hbody => ?_
    refine bind locals_parallel fun locals _ heq => ?_
    subst heq
    refine bind (setActualRet_parallel _) fun _ _ _ => ?_
    refine bind (checkBlock_parallel otherwise) fun _ _ hotherwise => ?_
    refine bind locals_parallel fun locals _ heq => ?_
    subst heq
    exact bind (setActualRet_parallel _) fun _ _ _ =>
      .pure (.cond rfl hcondition hbody hotherwise)
  | .while location condition body =>
    rw [checkStmt]
    refine bind (checkExpr_parallel condition) fun _ _ hcondition => ?_
    refine bind (lift_eq (expectBool_eq hcondition.note)) fun _ _ _ => ?_
    exact bind (inLoop_parallel (checkBlock_parallel body)) fun _ _ hbody =>
      .pure (.while rfl hcondition hbody)
  | .for location item iterable body otherwise =>
    rw [checkStmt]
    refine bind (checkExpr_parallel iterable) fun _ _ hiterable => ?_
    refine bind env_parallel fun _ _ henv => ?_
    refine bind (lift_eq (expectIterable_eq henv hiterable.note)) fun element _ heq => ?_
    subst heq
    refine bind (targetType_parallel location item) fun target _ heq => ?_
    subst heq
    refine bind (lift_eq rfl) fun _ _ _ => ?_
    refine bind (inLoop_parallel (checkBlock_parallel body)) fun _ _ hbody => ?_
    exact bind (checkBlock_parallel otherwise) fun _ _ hotherwise =>
      .pure (.for rfl hiterable hbody hotherwise)
  | .pass location =>
    rw [checkStmt]
    exact .pure (.pass rfl)
  | .continue location =>
    rw [checkStmt]
    exact bind (expectInLoop_parallel _ location) fun _ _ _ => .pure (.continue rfl)
  | .break location =>
    rw [checkStmt]
    exact bind (expectInLoop_parallel _ location) fun _ _ _ => .pure (.break rfl)

/-- The checks of statements in two contexts that are alike agree one by one. -/
theorem checkBlock_parallel (block : List (Stmt Location)) :
    Parallel (Context.Alike []) (Stmt.MatchesAll renumbered) (checkBlock block)
      (checkBlock block) := by
  match block with
  | [] =>
    rw [checkBlock]
    exact .pure .nil
  | first :: rest =>
    rw [checkBlock]
    refine bind (checkStmt_parallel first) fun _ _ hfirst => ?_
    exact bind (checkBlock_parallel rest) fun _ _ hrest => .pure (.cons hfirst hrest)

end

end Statements

/-! ## Declarations -/

section Declarations

open Parallel

variable {α β : Type} {rel : α → β → Prop}

/-- Two checkers know the same. -/
abbrev KnowSame (checker checker' : Checker) : Prop := checker.env.Agrees checker'.env

/-- Checks that agree in contexts that are alike agree when they start a body. -/
theorem inBody_parallel {locals : Locals} (hscopes : locals.scopes = []) {check : Check α}
    {check' : Check β} (h : Parallel (Context.Alike []) rel check check') :
    Parallel KnowSame rel (inBody locals check) (inBody locals check') := by
  intro checker checker' hsame
  obtain ⟨hagree, hafter⟩ := h ⟨checker, locals⟩ ⟨checker', locals⟩ ⟨hsame, hscopes, hscopes, rfl⟩
  rw [outcome_inBody, outcome_inBody]
  exact ⟨hagree, hafter.env⟩

/-- Declared variables are checked without items, so they match themselves. -/
theorem VarInit.matches_refl (inits : List (VarInit Typed)) :
    List.Forall₂ (VarInit.Matches renumbered) inits inits :=
  List.forall₂_same.mpr fun _ _ => ⟨rfl, rfl, rfl, rfl, rfl⟩

/-- The body of a function becomes the same on both sides but for the names of items. -/
theorem checkBody_parallel (fn : FunDef Location) :
    Parallel (Context.Alike []) (Stmt.MatchesAll renumbered) (checkBody fn) (checkBody fn) := by
  unfold checkBody
  refine bind (checkBlock_parallel fn.body) fun _ _ hbody => ?_
  refine bind locals_parallel fun locals _ heq => ?_
  subst heq
  exact bind (lift_eq rfl) fun _ _ _ => .pure hbody

/-- The checks of a function by two checkers that know the same agree. -/
theorem checkFunDef_parallel (fn : FunDef Location) :
    Parallel KnowSame (FunDef.Matches renumbered) (checkFunDef fn) (checkFunDef fn) := by
  unfold checkFunDef
  refine bind (lift_eq rfl) fun inits _ heq => ?_
  subst heq
  refine bind (inBody_parallel rfl (checkBody_parallel fn)) fun _ _ hbody => ?_
  exact .pure ⟨rfl, rfl, rfl, rfl, VarInit.matches_refl inits, hbody⟩

/-- Whether there is a constructor as it has to be does not hang on the bodies of methods. -/
theorem any_isConstructor_eq (className : String) {m : Matching Typed Typed}
    {methods methods' : List (FunDef Typed)}
    (h : List.Forall₂ (FunDef.Matches m) methods methods') :
    (methods.find? fun method => method.name = "__init__").any (isConstructor className) =
      (methods'.find? fun method => method.name = "__init__").any (isConstructor className) := by
  induction h with
  | nil => rfl
  | cons hfirst _ ih =>
    simp only [List.find?_cons, hfirst.name]
    split
    · simp only [Option.any_some, isConstructor, hfirst.parameters, hfirst.ret]
    · exact ih

/-- The checks of a class by two checkers that know the same agree. -/
theorem checkClassDef_parallel (cls : ClassDef Location) :
    Parallel KnowSame (ClassDef.Matches renumbered) (checkClassDef cls) (checkClassDef cls) := by
  unfold checkClassDef
  refine bind (lift_eq rfl) fun fields _ heq => ?_
  subst heq
  refine bind (Parallel.mapM checkFunDef_parallel cls.methods) fun _ _ hmethods => ?_
  refine bind (lift_eq (by rw [any_isConstructor_eq cls.name hmethods])) fun _ _ _ => ?_
  exact .pure ⟨rfl, rfl, rfl, VarInit.matches_refl fields, hmethods⟩

/-! ## Programs -/

/-- The top levels of two checkers that know the same come to know the same. -/
theorem checkTop_parallel (stmts : List (Stmt Location)) :
    Parallel KnowSame (Stmt.MatchesAll renumbered) (checkTop stmts) (checkTop stmts) := by
  unfold checkTop
  refine bind (R := fun both both' => Stmt.MatchesAll renumbered both.1 both'.1 ∧
    both.2 = both'.2) (inBody_parallel rfl ?_) ?_
  · refine bind (checkBlock_parallel stmts) fun _ _ hstmts => ?_
    refine bind locals_parallel fun locals _ heq => ?_
    subst heq
    exact .pure ⟨hstmts, rfl⟩
  · rintro ⟨_, vars⟩ ⟨_, _⟩ ⟨hstmts, rfl⟩
    refine bind (R := Eq) (fun checker checker' hsame => ⟨.ok rfl, ?_⟩) fun _ _ _ => .pure hstmts
    refine ⟨fun name => ?_, hsame.function?_eq, hsame.class?_eq⟩
    have hname : Table.find? checker.env.globals name = Table.find? checker'.env.globals name :=
      hsame.global?_eq name
    simp only [outcome_modify, Env.global?, Table.find?_insertAll, hname]

/-- Statements that match end with the same type. -/
theorem getLast?_ty_eq {stmts stmts' : List (Stmt Typed)}
    (h : Stmt.MatchesAll renumbered stmts stmts') :
    stmts.getLast?.map Stmt.ty = stmts'.getLast?.map Stmt.ty := by
  have htys : stmts.map Stmt.ty = stmts'.map Stmt.ty := by
    have heach := Stmt.matchesAll_iff.mp h
    clear h
    induction heach with
    | nil => rfl
    | cons hfirst _ ih =>
      have hty := congrArg Typed.ty hfirst.note
      rw [List.map_cons, List.map_cons, ih, Stmt.ty, Stmt.ty, hty]
  rw [← List.getLast?_map, htys, List.getLast?_map]

/-- The checks of a program by two checkers that know the same agree. -/
theorem checkParts_parallel (program : Program Location) :
    Parallel KnowSame (Program.Matches renumbered) (checkParts program) (checkParts program) := by
  unfold checkParts
  refine bind (lift_eq rfl) fun inits _ heq => ?_
  subst heq
  refine bind (Parallel.mapM checkFunDef_parallel program.funs) fun _ _ hfuns => ?_
  refine bind (Parallel.mapM checkClassDef_parallel program.classes) fun _ _ hclasses => ?_
  refine bind (checkTop_parallel program.stmts) fun _ _ hstmts => ?_
  rw [getLast?_ty_eq hstmts]
  exact .pure ⟨rfl, VarInit.matches_refl inits, hfuns, hclasses, hstmts⟩

end Declarations

end Typing
end Offside
