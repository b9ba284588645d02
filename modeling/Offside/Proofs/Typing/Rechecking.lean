import Offside.Proofs.Typing.Matching
import Offside.Proofs.Typing.SameTypes
import Offside.Proofs.Typing.WellTyped

/-!
# Checking a checked program again

A checked program without its types is a program again, in which items have their new names and
the creations of objects are spelled out.  It is checked once more without trouble, and all its
nodes get the types they had, but for the type arguments of classes.

Main definitions:

- `rechecked`: how the two checked trees go together.
- `Again`: a context for the second check of an expression.

Main results:

- Theorem `Expr.Resolves.again`: a checked expression is accepted once more.
- Theorem `Stmt.ChecksAll.again`: so are checked statements.
-/

namespace Offside
namespace Typing

/-- A tree that is checked for the second time, and the first: the types are equal, the places are
the same, and items have once more got new names. -/
def rechecked : Matching Typed Typed where
  note again first := again.ty.same first.ty = true ∧ again.location = first.location
  item again first := ∃ n, again = Check.itemName first n

/-! ## Items in scope -/

/-- An item in scope the first time, and the second: what it is called the second time is its new
name from the first time, and its types are equal. -/
def Renewed (first second : String × (String × Ty)) : Prop :=
  second.1 = first.2.1 ∧ second.2.2.same first.2.2 = true

/-- The names of items from the second time and the first. -/
def renewedNames (second : Bindings) : List (String × String) :=
  second.map fun binding => (binding.2.1, binding.1)

/-- The names from the first time are found again if they are told apart. -/
theorem find?_renewed {first second : Bindings} (h : List.Forall₂ Renewed first second)
    (hnodup : (second.map Prod.fst).Nodup) {name renamed : String} {ty : Ty}
    (hfound : Table.find? first name = some (renamed, ty)) :
    ∃ again ty', Table.find? second renamed = some (again, ty') ∧ ty'.same ty = true ∧
      (again, renamed) ∈ renewedNames second := by
  induction h with
  | nil => nomatch hfound
  | @cons binding binding' first second hbinding _ ih =>
    rcases binding with ⟨item, target⟩
    rcases binding' with ⟨_, again, ty'⟩
    obtain ⟨rfl, hsame⟩ := hbinding
    rw [List.map_cons, List.nodup_cons] at hnodup
    rw [Table.find?_cons] at hfound
    split at hfound
    · cases hfound
      exact ⟨again, ty', by rw [Table.find?_cons, if_pos rfl], hsame, List.mem_cons_self⟩
    · rcases ih hnodup.2 hfound with ⟨again', ty'', hagain, hsame', hmem⟩
      refine ⟨again', ty'', ?_, hsame', List.mem_cons_of_mem _ hmem⟩
      rw [Table.find?_cons, if_neg, hagain]
      rintro rfl
      obtain ⟨_, _, hentry⟩ := List.mem_map.mp hmem
      simp only [Prod.mk.injEq] at hentry
      exact hnodup.1 (List.mem_map.mpr ⟨_, by assumption, hentry.2⟩)

/-- A context for the second check of an expression: it is in the same body, and knows the items
around by their new names, which are told apart from each other and from the names `names` of the
items in the expression, and from all names of a source. -/
structure Again (env : Env) (vars : Table Ty) (first second : Bindings) (names : List String)
    (context : Context) : Prop where
  env_eq : context.checker.env = env
  vars_eq : context.locals.vars = vars
  binds : context.Binds second
  renewed : List.Forall₂ Renewed first second
  nodup : (second.map Prod.fst ++ names).Nodup
  marked : ∀ name ∈ second.map Prod.fst ++ names, '$' ∈ name.toList

namespace Again

variable {α : Type} {env : Env} {vars : Table Ty} {first second : Bindings}
  {names names' : List String} {context : Context}

/-- A context for some names is one for fewer of them. -/
theorem of_sublist (h : Again env vars first second names context) (hsub : names'.Sublist names) :
    Again env vars first second names' context where
  env_eq := h.env_eq
  vars_eq := h.vars_eq
  binds := h.binds
  renewed := h.renewed
  nodup := h.nodup.sublist (hsub.append_left _)
  marked name hname := h.marked name ((hsub.append_left _).subset hname)

/-- It stays one when names are handed out. -/
theorem handOut (h : Again env vars first second names context) (items : List String) :
    Again env vars first second names (context.handOut items) :=
  { h with binds := h.binds.handOut items }

/-- It is one for the names of the first part. -/
theorem left (h : Again env vars first second (names ++ names') context) :
    Again env vars first second names context :=
  h.of_sublist (List.sublist_append_left _ _)

/-- What comes behind is checked after names have been handed out for what is in front. -/
theorem behind (h : Again env vars first second (names ++ names') context) (items : List String) :
    Again env vars first second names' (context.handOut items) :=
  (h.of_sublist (List.sublist_append_right _ _)).handOut items

/-- An item gets a new name, with which it is in scope. -/
theorem forItem {renamed : String} {ty ty' : Ty}
    (h : Again env vars first second (renamed :: names) context) (hsame : ty'.same ty = true)
    (item : String) :
    Again env vars ((item, (renamed, ty)) :: first)
      ((renamed, (context.nextName renamed, ty')) :: second) names
      (context.forItem renamed ty') where
  env_eq := h.env_eq
  vars_eq := h.vars_eq
  binds := h.binds.forItem renamed ty'
  renewed := .cons ⟨rfl, hsame⟩ h.renewed
  nodup := List.perm_middle.nodup_iff.mp h.nodup
  marked := fun name hname => h.marked name (List.perm_middle.mem_iff.mpr hname)

/-- No name of a source is the new name of an item. -/
theorem find?_eq_none (h : Again env vars first second names context) {name : String}
    (hname : '$' ∉ name.toList) : Table.find? second name = none := by
  have hmarked : ∀ binding ∈ second, '$' ∈ binding.1.toList := fun binding hmem =>
    h.marked _ (List.mem_append_left _ (List.mem_map_of_mem hmem))
  clear h
  induction second with
  | nil => rfl
  | cons binding rest ih =>
    rw [List.forall_mem_cons] at hmarked
    rcases binding with ⟨key, target⟩
    rw [Table.find?_cons, if_neg, ih hmarked.2]
    rintro rfl
    exact hname hmarked.1

end Again

/-! ## Expressions -/

/-- Variables are found a second time, since their names are no new names. -/
theorem var?_again {env : Env} {vars : Table Ty} {first second : Bindings} {names : List String}
    {context : Context} {name : String} (hagain : Again env vars first second names context) :
    context.var? name = (Table.find? vars name).or (env.global? name) := by
  rw [Context.var?, hagain.vars_eq, hagain.env_eq]

/-- A name of a source is free the second time. -/
theorem item?_again {env : Env} {vars : Table Ty} {first second : Bindings} {names : List String}
    {context : Context} {name : String} (hagain : Again env vars first second names context)
    (hspelled : '$' ∉ name.toList) : context.locals.item? name = none := by
  rw [item?_of_binds hagain.binds, hagain.find?_eq_none hspelled]

/-- An expression that was checked again has an equal type. -/
theorem same_of_matches {bound : List (String × String)} {e e' : Expr Typed}
    (h : e.Matches rechecked bound e') : e.ty.same e'.ty = true :=
  h.note.1

/-- Expressions that were checked again have equal types. -/
theorem sameTypes_of_matches {bound : List (String × String)}
    {es es' : List (Expr Typed)} (h : Expr.MatchesAll rechecked bound es es') :
    SameTypes es es' :=
  h.notes.imp fun _ _ hnote => hnote.1

end Typing

open Typing

mutual

/-- A checked expression is accepted once more, with equal types. -/
theorem Expr.Resolves.again {env : Env} {vars : Table Ty} {first second : Bindings}
    {names : List String} {e : Expr Location} {e' : Expr Typed}
    (h : e.Resolves env vars first names e') (hspelled : e.All Expr.Spelled)
    (hobeys : e'.All (Expr.Obeys env)) {context : Context}
    (hagain : Again env vars first second names context) :
    ∃ e'', (e'.map Typed.location).Checks context e'' ∧
      e''.Matches rechecked (renewedNames second) e' := by
  match h with
  | .literal =>
    obtain ⟨hty, hlitTy⟩ := hobeys
    exact ⟨_, .literal, .literal ⟨hty ▸ Ty.same_refl _, rfl⟩ ⟨hlitTy ▸ Ty.same_refl _, rfl⟩ rfl⟩
  | .item bound =>
    obtain ⟨again, ty', hfound, hsame, hmem⟩ := find?_renewed hagain.renewed
      (hagain.nodup.sublist (List.sublist_append_left _ _)) bound
    rw [← item?_of_binds hagain.binds] at hfound
    exact ⟨_, .item hfound, .item ⟨hsame, rfl⟩ hmem⟩
  | .local _ declared =>
    refine ⟨_, .var (item?_again hagain hspelled) ?_, .id ⟨Ty.same_refl _, rfl⟩⟩
    rw [var?_again hagain, declared, Option.some_or]
  | .global _ undeclared declared =>
    refine ⟨_, .var (item?_again hagain hspelled) ?_, .id ⟨Ty.same_refl _, rfl⟩⟩
    rw [var?_again hagain, undeclared, declared, Option.none_or]
  | .binOp onLeft onRight =>
    obtain ⟨left, hleft, honLeft⟩ := onLeft.again hspelled.2.1 hobeys.2.1 hagain.left
    obtain ⟨right, hright, honRight⟩ :=
      onRight.again hspelled.2.2 hobeys.2.2 (hagain.behind _)
    have hrule := binOpResult_same (same_of_matches honLeft) (same_of_matches honRight) hobeys.1
    exact ⟨_, .binOp hleft hright hrule, .binOp ⟨Ty.same_refl _, rfl⟩ honLeft honRight⟩
  | .uniOp onOperand =>
    obtain ⟨operand, hoperand, honOperand⟩ := onOperand.again hspelled.2 hobeys.2 hagain
    obtain ⟨ty', hrule, hsame⟩ := uniOpResult_same (same_of_matches honOperand) hobeys.1
    exact ⟨_, .uniOp hoperand hrule, .uniOp ⟨hsame, rfl⟩ honOperand⟩
  | .call noClass onArguments =>
    obtain ⟨arguments, harguments, honArguments⟩ :=
      onArguments.again hspelled.2 hobeys.2 hagain
    have hrule := functionCall_same (sameTypes_of_matches honArguments) hobeys.1.2
    refine ⟨_, .call harguments ?_, .call ⟨Ty.same_refl _, rfl⟩ honArguments⟩
    simp only [typedCall, hagain.env_eq, noClass, hrule]
    rfl
  | .create isClass onArguments =>
    obtain ⟨arguments, harguments, honArguments⟩ :=
      onArguments.again hspelled.2 hobeys.2 hagain
    exact ⟨_, .construct (hagain.env_eq ▸ isClass) harguments,
      .construct ⟨Ty.plain_same _ _, rfl⟩ honArguments⟩
  | .construct _ => exact hspelled.1.elim
  | .builtin1 onArgument =>
    obtain ⟨argument, hargument, honArgument⟩ := onArgument.again hspelled.2 hobeys.2 hagain
    obtain ⟨ty', hrule, hsame⟩ := builtinCall_same (same_of_matches honArgument) hobeys.1
    exact ⟨_, .builtin1 hargument (hagain.env_eq ▸ hrule), .builtin1 ⟨hsame, rfl⟩ honArgument⟩
  | .builtin2 onLeft onRight =>
    obtain ⟨left, hleft, honLeft⟩ := onLeft.again hspelled.2.1 hobeys.2.1 hagain.left
    obtain ⟨right, hright, honRight⟩ :=
      onRight.again hspelled.2.2 hobeys.2.2 (hagain.behind _)
    have hrule := functionCall_same
      (.cons (same_of_matches honLeft) (.cons (same_of_matches honRight) .nil)) hobeys.1
    exact ⟨_, .builtin2 hleft hright (hagain.env_eq ▸ hrule),
      .builtin2 ⟨Ty.same_refl _, rfl⟩ honLeft honRight⟩
  | .methodCall onObject onArguments =>
    obtain ⟨object, hobject, honObject⟩ := onObject.again hspelled.2.1 hobeys.2.1 hagain.left
    obtain ⟨arguments, harguments, honArguments⟩ :=
      onArguments.again hspelled.2.2 hobeys.2.2 (hagain.behind _)
    have hrule := methodCall_same (same_of_matches honObject) (sameTypes_of_matches honArguments)
      hobeys.1
    exact ⟨_, .methodCall hobject harguments (hagain.env_eq ▸ hrule),
      .methodCall ⟨Ty.same_refl _, rfl⟩ honObject honArguments⟩
  | .lookup onObject =>
    obtain ⟨object, hobject, honObject⟩ := onObject.again hspelled.2 hobeys.2 hagain
    have hrule := fieldType_same (same_of_matches honObject) hobeys.1
    exact ⟨_, .lookup hobject (hagain.env_eq ▸ hrule), .lookup ⟨Ty.same_refl _, rfl⟩ honObject⟩
  | .index onObject onPosition =>
    obtain ⟨object, hobject, honObject⟩ := onObject.again hspelled.2.1 hobeys.2.1 hagain.left
    obtain ⟨position, hposition, honPosition⟩ :=
      onPosition.again hspelled.2.2 hobeys.2.2 (hagain.behind _)
    obtain ⟨ty', hrule, hsame⟩ :=
      indexType_same (same_of_matches honObject) (same_of_matches honPosition) hobeys.1
    exact ⟨_, .index hobject hposition hrule, .index ⟨hsame, rfl⟩ honObject honPosition⟩
  | .listLiteral onElements =>
    obtain ⟨elements, helements, honElements⟩ := onElements.again hspelled.2 hobeys.2 hagain
    obtain ⟨ty', hrule, hsame⟩ := listType_same (sameTypes_of_matches honElements) hobeys.1
    exact ⟨_, .listLiteral helements hrule, .listLiteral ⟨hsame, rfl⟩ honElements⟩
  | .ternary onTrue onCondition onFalse =>
    obtain ⟨ifTrue, htrue, honTrue⟩ := onTrue.again hspelled.2.1 hobeys.2.1 hagain.left
    obtain ⟨condition, hcondition, honCondition⟩ :=
      onCondition.again hspelled.2.2.1 hobeys.2.2.1 (hagain.behind _).left
    obtain ⟨ifFalse, hfalse, honFalse⟩ :=
      onFalse.again hspelled.2.2.2 hobeys.2.2.2 ((hagain.behind _).behind _)
    have hbool := expectBool_same (same_of_matches honCondition) hobeys.1.1
    have hsame := ternaryType_same (same_of_matches honTrue) (same_of_matches honFalse)
    exact ⟨_, .ternary htrue hcondition hfalse hbool,
      .ternary ⟨hobeys.1.2 ▸ hsame, rfl⟩ honTrue honCondition honFalse⟩
  | .comprehension onIterable yields onResult =>
    obtain ⟨iterable, hiterable, honIterable⟩ :=
      onIterable.again hspelled.2.1 hobeys.2.1 hagain.left
    obtain ⟨element', helement, hsame⟩ :=
      expectIterable_same (same_of_matches honIterable) (expectIterable_eq_ok.mpr yields)
    obtain ⟨result, hresult, honResult⟩ :=
      onResult.again hspelled.2.2 hobeys.2.2 ((hagain.behind _).forItem hsame _)
    obtain ⟨_, hyields, hty⟩ := hobeys.1
    obtain rfl := Option.some.inj ((expectIterable_eq_ok.mp hyields).symm.trans yields)
    exact ⟨_, .comprehension hiterable (hagain.env_eq ▸ helement) hresult,
      .comprehension ⟨hty ▸ container_same _ hsame, rfl⟩ ⟨_, rfl⟩ honIterable honResult⟩
  | .filtered onIterable yields onFilter onResult =>
    obtain ⟨iterable, hiterable, honIterable⟩ :=
      onIterable.again hspelled.2.1 hobeys.2.1 hagain.left
    obtain ⟨element', helement, hsame⟩ :=
      expectIterable_same (same_of_matches honIterable) (expectIterable_eq_ok.mpr yields)
    have hinner (items : List String) := (hagain.behind items).forItem hsame
    obtain ⟨filter, hfilter, honFilter⟩ :=
      onFilter.again hspelled.2.2.1 hobeys.2.2.1 (hinner _ _).left
    obtain ⟨result, hresult, honResult⟩ :=
      onResult.again hspelled.2.2.2 hobeys.2.2.2 ((hinner _ _).behind _)
    obtain ⟨_, hyields, hcondition, hty⟩ := hobeys.1
    have hbool := expectBool_same (same_of_matches honFilter) hcondition
    obtain rfl := Option.some.inj ((expectIterable_eq_ok.mp hyields).symm.trans yields)
    exact ⟨_, .filtered hiterable (hagain.env_eq ▸ helement) hfilter hbool hresult,
      .filtered ⟨hty ▸ container_same _ hsame, rfl⟩ ⟨_, rfl⟩ honIterable honFilter honResult⟩

/-- Checked expressions are accepted once more, one by one. -/
theorem Expr.ResolvesAll.again {env : Env} {vars : Table Ty} {first second : Bindings}
    {names : List String} {es : List (Expr Location)} {es' : List (Expr Typed)}
    (h : Expr.ResolvesAll env vars first es names es') (hspelled : Expr.AllOf Expr.Spelled es)
    (hobeys : Expr.AllOf (Expr.Obeys env) es') {context : Context}
    (hagain : Again env vars first second names context) :
    ∃ es'', Expr.ChecksAll context (Expr.mapAll Typed.location es') es'' ∧
      Expr.MatchesAll rechecked (renewedNames second) es'' es' := by
  match h with
  | .nil => exact ⟨[], .nil, .nil⟩
  | .cons onFirst onRest =>
    obtain ⟨head, hhead, honHead⟩ := onFirst.again hspelled.1 hobeys.1 hagain.left
    obtain ⟨rest, hrest, honRest⟩ := onRest.again hspelled.2 hobeys.2 (hagain.behind _)
    exact ⟨_, .cons hhead hrest, .cons honHead honRest⟩

end

namespace Typing

/-! ## Statements -/

/-- The contexts of the two checks of a statement. -/
structure Twice (first second : Context) : Prop where
  env_eq : second.checker.env = first.checker.env
  vars_eq : second.locals.vars = first.locals.vars
  expectedRet_eq : second.locals.expectedRet = first.locals.expectedRet
  actualRet_same : second.locals.actualRet.same first.locals.actualRet = true
  topLevel_eq : second.locals.topLevel = first.locals.topLevel
  loopDepth_eq : second.locals.loopDepth = first.locals.loopDepth
  first_binds : first.Binds []
  second_binds : second.Binds []

/-- The new names of items are told apart. -/
def Distinct (context : Context) (items : List String) : Prop :=
  (newNames context.checker.counters items).Nodup

/-- Items in a row are distinct one part after the other. -/
theorem Distinct.append {context : Context} {items more : List String}
    (h : Distinct context (items ++ more)) :
    Distinct context items ∧ Distinct (context.handOut items) more := by
  unfold Distinct at h ⊢
  rw [newNames_append] at h
  exact ⟨(List.nodup_append.mp h).1, (List.nodup_append.mp h).2.1⟩

/-- New names are marked. -/
theorem marked_of_mem_newNames {counters : Table Nat} {items : List String} {name : String}
    (h : name ∈ newNames counters items) : '$' ∈ name.toList := by
  induction items generalizing counters with
  | nil => nomatch h
  | cons item rest ih =>
    rw [newNames_cons, List.mem_cons] at h
    rcases h with rfl | h
    · simp [Check.itemName]
    · exact ih h

namespace Twice

variable {first second : Context}

/-- Names may be handed out on each side. -/
theorem handOut (h : Twice first second) (items items' : List String) :
    Twice (first.handOut items) (second.handOut items') where
  env_eq := h.env_eq
  vars_eq := h.vars_eq
  expectedRet_eq := h.expectedRet_eq
  actualRet_same := h.actualRet_same
  topLevel_eq := h.topLevel_eq
  loopDepth_eq := h.loopDepth_eq
  first_binds := h.first_binds
  second_binds := h.second_binds

/-- What is returned may be noted on both sides, with equal types. -/
theorem returning (h : Twice first second) {ret ret' : Ty} (hret : ret'.same ret = true) :
    Twice (first.returning ret) (second.returning ret') where
  env_eq := h.env_eq
  vars_eq := h.vars_eq
  expectedRet_eq := h.expectedRet_eq
  actualRet_same := hret
  topLevel_eq := h.topLevel_eq
  loopDepth_eq := h.loopDepth_eq
  first_binds := h.first_binds
  second_binds := h.second_binds

/-- Loops may be entered on both sides. -/
theorem enterLoop (h : Twice first second) : Twice first.enterLoop second.enterLoop where
  env_eq := h.env_eq
  vars_eq := h.vars_eq
  expectedRet_eq := h.expectedRet_eq
  actualRet_same := h.actualRet_same
  topLevel_eq := h.topLevel_eq
  loopDepth_eq := congrArg (· + 1) h.loopDepth_eq
  first_binds := h.first_binds
  second_binds := h.second_binds

/-- Loops may be left on both sides. -/
theorem leaveLoop (h : Twice first second) : Twice first.leaveLoop second.leaveLoop where
  env_eq := h.env_eq
  vars_eq := h.vars_eq
  expectedRet_eq := h.expectedRet_eq
  actualRet_same := h.actualRet_same
  topLevel_eq := h.topLevel_eq
  loopDepth_eq := congrArg (· - 1) h.loopDepth_eq
  first_binds := h.first_binds
  second_binds := h.second_binds

/-- Both sides have the same variables. -/
theorem var?_eq (h : Twice first second) (name : String) : second.var? name = first.var? name := by
  rw [Context.var?, Context.var?, h.vars_eq, h.env_eq]

/-- Both sides are in a loop, or none is. -/
theorem inLoop_eq (h : Twice first second) : second.locals.inLoop = first.locals.inLoop := by
  rw [Locals.inLoop, Locals.inLoop, h.loopDepth_eq]

/-- What a statement accepts of an expression, its second check accepts again. -/
theorem expr (h : Twice first second) {e : Expr Location} {e' : Expr Typed}
    (honce : e.Checks first e') (hspelled : e.All Expr.Spelled)
    (hdistinct : Distinct first e.items) :
    ∃ e'', (e'.map Typed.location).Checks second e'' ∧ e''.Matches rechecked [] e' ∧
      Twice (first.handOut e.items) (second.handOut (e'.map Typed.location).items) := by
  have hagain : Again first.checker.env first.locals.vars [] []
      (newNames first.checker.counters e.items) second := {
    env_eq := h.env_eq
    vars_eq := h.vars_eq
    binds := h.second_binds
    renewed := .nil
    nodup := hdistinct
    marked := fun _ hname => marked_of_mem_newNames hname }
  obtain ⟨e'', hsecond, hmatches⟩ := (honce.resolves h.first_binds).again hspelled
    (honce.obeys (hspelled.mono fun _ => Expr.Spelled.notCreation)) hagain
  exact ⟨e'', hsecond, hmatches, h.handOut _ _⟩

end Twice

/-- Joining equal types of what is returned gives equal types. -/
theorem joinReturns_same {a a' b b' : Ty} (ha : a.same a' = true) (hb : b.same b' = true) :
    (joinReturns a b).same (joinReturns a' b') = true := by
  unfold joinReturns
  rw [Ty.same_congr ha hb]
  split
  · exact hb
  · simp [Ty.same, ha, hb]

end Typing

mutual

/-- A checked statement is accepted once more, with equal types. -/
theorem Stmt.Checks.again {s : Stmt Location} {first second after : Context} {s' : Stmt Typed}
    (h : s.Checks first s' after) (hspelled : s.All Expr.Spelled)
    (hdistinct : Distinct first s.items) (htwice : Twice first second) :
    ∃ s'' after', (s'.map Typed.location).Checks second s'' after' ∧
      s''.Matches rechecked s' ∧ Twice after after' := by
  match h with
  | .assign onValue declared fits =>
    obtain ⟨value, hvalue, honValue, hnext⟩ := htwice.expr onValue hspelled hdistinct
    have hstore := storable_same (Ty.same_refl _) (same_of_matches honValue) fits
    exact ⟨_, _, .assign hvalue ((htwice.var?_eq _).trans declared) hstore,
      .assign ⟨Ty.same_refl _, rfl⟩ honValue, hnext⟩
  | .fieldAssign onObject onValue gives fits =>
    have hitems := hdistinct.append
    obtain ⟨object, hobject, honObject, hmiddle⟩ := htwice.expr onObject hspelled.1 hitems.1
    obtain ⟨value, hvalue, honValue, hnext⟩ := hmiddle.expr onValue hspelled.2 hitems.2
    have htarget := fieldType_same (same_of_matches honObject) gives
    have hstore := storable_same (Ty.same_refl _) (same_of_matches honValue) fits
    rw [Context.handOut_handOut, Context.handOut_handOut] at hnext
    exact ⟨_, _, .fieldAssign hobject hvalue (htwice.env_eq ▸ htarget) hstore,
      .fieldAssign ⟨Ty.same_refl _, rfl⟩ honObject honValue, hnext⟩
  | .indexAssign onObject onPosition onValue isIndex isList fits =>
    have hitems := hdistinct.append
    have hitems' := hitems.2.append
    obtain ⟨object, hobject, honObject, hmiddle⟩ := htwice.expr onObject hspelled.1 hitems.1
    obtain ⟨position, hposition, honPosition, hbehind⟩ :=
      hmiddle.expr onPosition hspelled.2.1 hitems'.1
    obtain ⟨value, hvalue, honValue, hnext⟩ := hbehind.expr onValue hspelled.2.2 hitems'.2
    have hindex := expectIndex_same (same_of_matches honPosition) isIndex
    obtain ⟨element', hlist, hsame⟩ := Ty.exists_eq_list (isList ▸ same_of_matches honObject)
    have hstore := storable_same hsame (same_of_matches honValue) fits
    simp only [Context.handOut_handOut, List.append_assoc] at hnext
    exact ⟨_, _, .indexAssign hobject hposition hvalue hindex hlist hstore,
      .indexAssign ⟨Ty.same_refl _, rfl⟩ honObject honPosition honValue, hnext⟩
  | .expr onValue =>
    obtain ⟨value, hvalue, honValue, hnext⟩ := htwice.expr onValue hspelled hdistinct
    exact ⟨_, _, .expr hvalue, .expr ⟨same_of_matches honValue, rfl⟩ honValue, hnext⟩
  | .return inFunction onValue fits =>
    obtain ⟨value, hvalue, honValue, hnext⟩ := htwice.expr onValue hspelled hdistinct
    have hsame := same_of_matches honValue
    have hfits := (Ty.isAssignable_congr hsame (Ty.same_refl _)).trans fits
    exact ⟨_, _, .return (htwice.topLevel_eq.trans inFunction) hvalue
      (htwice.expectedRet_eq ▸ hfits), .return ⟨hsame, rfl⟩ honValue, hnext.returning hsame⟩
  | .cond onCondition isBool onBody onOtherwise =>
    have hitems := hdistinct.append
    have hitems' := hitems.2.append
    obtain ⟨condition, hcondition, honCondition, hinside⟩ :=
      htwice.expr onCondition hspelled.1 hitems.1
    obtain ⟨body, middle', hbody, honBody, hmiddle⟩ :=
      onBody.again hspelled.2.1 hitems'.1 hinside
    obtain ⟨ret, rfl⟩ := onBody.move
    obtain ⟨otherwise, last', hotherwise, honOtherwise, hlast⟩ :=
      onOtherwise.again hspelled.2.2 hitems'.2 (hmiddle.returning (Ty.same_refl .none))
    have hbool := expectBool_same (same_of_matches honCondition) isBool
    exact ⟨_, _, .cond hcondition hbool hbody hotherwise,
      .cond ⟨hmiddle.actualRet_same, rfl⟩ honCondition honBody honOtherwise,
      hlast.returning (joinReturns_same hmiddle.actualRet_same hlast.actualRet_same)⟩
  | .while onCondition isBool onBody =>
    have hitems := hdistinct.append
    obtain ⟨condition, hcondition, honCondition, hinside⟩ :=
      htwice.expr onCondition hspelled.1 hitems.1
    obtain ⟨body, inner', hbody, honBody, hinner⟩ :=
      onBody.again hspelled.2 hitems.2 hinside.enterLoop
    have hbool := expectBool_same (same_of_matches honCondition) isBool
    exact ⟨_, _, .while hcondition hbool hbody,
      .while ⟨Ty.same_refl _, rfl⟩ honCondition honBody, hinner.leaveLoop⟩
  | .for onIterable yields declared fits onBody onOtherwise =>
    have hitems := hdistinct.append
    have hitems' := hitems.2.append
    obtain ⟨iterable, hiterable, honIterable, hinside⟩ :=
      htwice.expr onIterable hspelled.1 hitems.1
    obtain ⟨element', helement, hsame⟩ :=
      expectIterable_same (same_of_matches honIterable) yields
    have hstore := storable_same (Ty.same_refl _) hsame fits
    obtain ⟨body, inner', hbody, honBody, hinner⟩ :=
      onBody.again hspelled.2.1 hitems'.1 hinside.enterLoop
    obtain ⟨ret, rfl⟩ := onBody.move
    obtain ⟨otherwise, last', hotherwise, honOtherwise, hlast⟩ :=
      onOtherwise.again hspelled.2.2 hitems'.2 hinner.leaveLoop
    exact ⟨_, _, .for hiterable (htwice.env_eq ▸ helement) ((htwice.var?_eq _).trans declared)
      hstore hbody hotherwise, .for ⟨Ty.same_refl _, rfl⟩ honIterable honBody honOtherwise, hlast⟩
  | .pass => exact ⟨_, _, .pass, .pass ⟨Ty.same_refl _, rfl⟩, htwice⟩
  | .continue inLoop =>
    exact ⟨_, _, .continue (htwice.inLoop_eq.trans inLoop), .continue ⟨Ty.same_refl _, rfl⟩,
      htwice⟩
  | .break inLoop =>
    exact ⟨_, _, .break (htwice.inLoop_eq.trans inLoop), .break ⟨Ty.same_refl _, rfl⟩, htwice⟩

/-- Checked statements are accepted once more, one by one. -/
theorem Stmt.ChecksAll.again {block : List (Stmt Location)} {first second after : Context}
    {block' : List (Stmt Typed)} (h : Stmt.ChecksAll first block block' after)
    (hspelled : Stmt.AllOf Expr.Spelled block) (hdistinct : Distinct first (Stmt.itemsAll block))
    (htwice : Twice first second) :
    ∃ block'' after',
      Stmt.ChecksAll second (Stmt.mapAll Typed.location block') block'' after' ∧
        Stmt.MatchesAll rechecked block'' block' ∧ Twice after after' := by
  match h with
  | .nil => exact ⟨_, _, .nil, .nil, htwice⟩
  | .cons onFirst onRest =>
    have hitems := hdistinct.append
    obtain ⟨head, middle', hhead, honHead, hmiddle⟩ :=
      onFirst.again hspelled.1 hitems.1 htwice
    obtain ⟨ret, rfl⟩ := onFirst.move
    obtain ⟨rest, last', hrest, honRest, hlast⟩ :=
      onRest.again hspelled.2 hitems.2 hmiddle
    exact ⟨_, _, .cons hhead hrest, .cons honHead honRest, hlast⟩

end

end Offside
