import Offside.Proofs.Typing.ItemNames
import Mathlib.Data.List.Forall2

/-!
# What a check changes

A check may change the state it runs in, whether it succeeds or refuses.  This module says
once and for all what each check of the checker changes: it hands out names for a beginning
of the items of its tree, for all of them when it succeeds; in a body it may also change
what the statements so far return; and it changes nothing else.

Main definitions:

- `HandsOut`: the footprint of a check.
- `ExprMove`, `BodyMove` and `ModuleMove`: what may change while expressions, statements
  and declarations are checked.
- `Accepts`: an entry is accepted in an environment.

Main results:

- Theorems `checkExpr_handsOut` and `checkBlock_handsOut`: the footprint of the checks of
  bodies.
- Theorem `checkParts_handsOut`: the footprint of the check of a program.
- Theorem `check_footprint`: what a checker is after a program.
- Theorem `mapM_accepts`: what a row of checks accepts, entry by entry.
-/

namespace Offside
namespace Typing

variable {σ α β : Type}

/-! ## Outcomes -/

/-- The verdict of a check that starts in a state, and the state after it. -/
def outcome (check : ExceptT Diagnostic (StateM σ) α) (state : σ) : Except Diagnostic α × σ :=
  check.run state

/-- A value is given without a change of the state. -/
@[simp]
theorem outcome_pure (value : α) (state : σ) :
    outcome (pure value : ExceptT Diagnostic (StateM σ) α) state = (.ok value, state) := rfl

/-- A look at the state gives the state. -/
@[simp]
theorem outcome_get (state : σ) :
    outcome (get : ExceptT Diagnostic (StateM σ) σ) state = (.ok state, state) := rfl

/-- A change of the state succeeds. -/
@[simp]
theorem outcome_modify (change : σ → σ) (state : σ) :
    outcome (modify change : ExceptT Diagnostic (StateM σ) PUnit) state =
      (.ok ⟨⟩, change state) := rfl

/-- A rule that looks at checked parts alone leaves the state as it is. -/
@[simp]
theorem outcome_lift (verdict : Verdict α) (state : σ) :
    outcome (liftM verdict : ExceptT Diagnostic (StateM σ) α) state = (verdict, state) := by
  cases verdict <;> rfl

/-- Checks in a row: the second one goes on from where the first has ended, or is left out. -/
theorem outcome_bind (first : ExceptT Diagnostic (StateM σ) α)
    (next : α → ExceptT Diagnostic (StateM σ) β) (state : σ) :
    outcome (first >>= next) state =
      match outcome first state with
      | (.ok value, after) => outcome (next value) after
      | (.error diagnostic, after) => (.error diagnostic, after) := by
  have hbind : outcome (first >>= next) state =
      ExceptT.bindCont next (outcome first state).1 (outcome first state).2 := rfl
  rw [hbind]
  rcases outcome first state with ⟨_ | _, _⟩ <;> rfl

/-- Two checks in a row succeed when both do, the second in the state the first leaves. -/
theorem outcome_bind_ok {first : ExceptT Diagnostic (StateM σ) α}
    {next : α → ExceptT Diagnostic (StateM σ) β} {state last : σ} {result : β} :
    outcome (first >>= next) state = (.ok result, last) ↔
      ∃ value middle, outcome first state = (.ok value, middle) ∧
        outcome (next value) middle = (.ok result, last) := by
  rw [outcome_bind]
  rcases outcome first state with ⟨diagnostic | value, middle⟩
  · simp
  · constructor
    · intro h
      exact ⟨value, middle, rfl, h⟩
    · rintro ⟨_, _, hvalue, h⟩
      cases hvalue
      exact h

/-! ## Footprints -/

/-- A check hands out names for a beginning of some items, for all of them when it succeeds;
`moves` says how a state that has handed out names for items goes with the one before. -/
def HandsOut (moves : List String → σ → σ → Prop) (items : List String)
    (check : ExceptT Diagnostic (StateM σ) α) : Prop :=
  ∀ state, ∃ handed, handed <+: items ∧ moves handed state (outcome check state).2 ∧
    ∀ value, (outcome check state).1 = .ok value → handed = items

/-- Moves for items one after the other add up. -/
class Additive (moves : List String → σ → σ → Prop) : Prop where
  nil : ∀ state, moves [] state state
  append : ∀ {items more : List String} {first middle last : σ},
    moves items first middle → moves more middle last → moves (items ++ more) first last

namespace HandsOut

variable {moves : List String → σ → σ → Prop} [Additive moves] {items more : List String}

omit [Additive moves] in
/-- A check that succeeds has handed out all names. -/
theorem moves_of_ok {check : ExceptT Diagnostic (StateM σ) α} (h : HandsOut moves items check)
    {state last : σ} {value : α} (hok : outcome check state = (.ok value, last)) :
    moves items state last := by
  rcases h state with ⟨handed, -, hmoves, hall⟩
  rw [hok] at hmoves hall
  rwa [hall value rfl] at hmoves

/-- A check that looks at the state and does not change it hands out nothing. -/
theorem of_unchanged {check : ExceptT Diagnostic (StateM σ) α}
    (h : ∀ state, (outcome check state).2 = state) : HandsOut moves [] check := by
  intro state
  refine ⟨[], List.prefix_rfl, ?_, fun _ _ => rfl⟩
  rw [h state]
  exact Additive.nil state

/-- A value hands out no name. -/
theorem pure (value : α) :
    HandsOut moves [] (Pure.pure value : ExceptT Diagnostic (StateM σ) α) :=
  of_unchanged fun _ => rfl

/-- A look at the state hands out no name. -/
theorem get :
    HandsOut moves [] (MonadState.get : ExceptT Diagnostic (StateM σ) σ) :=
  of_unchanged fun _ => rfl

/-- A refusal hands out no name. -/
theorem throw (diagnostic : Diagnostic) :
    HandsOut moves [] (throw diagnostic : ExceptT Diagnostic (StateM σ) α) :=
  of_unchanged fun _ => rfl

/-- A rule hands out no name. -/
theorem lift (verdict : Verdict α) :
    HandsOut moves [] (liftM verdict : ExceptT Diagnostic (StateM σ) α) :=
  of_unchanged fun state => by rw [outcome_lift]

/-- Two checks in a row hand out the names of both, unless the first refuses. -/
theorem bind {first : ExceptT Diagnostic (StateM σ) α}
    {next : α → ExceptT Diagnostic (StateM σ) β} (hfirst : HandsOut moves items first)
    (hnext : ∀ value, HandsOut moves more (next value)) :
    HandsOut moves (items ++ more) (first >>= next) := by
  intro state
  rcases hfirst state with ⟨handed, hprefix, hmove, hall⟩
  rw [outcome_bind]
  rcases hout : outcome first state with ⟨diagnostic | value, middle⟩
  · rw [hout] at hmove
    exact ⟨handed, hprefix.trans (List.prefix_append items more), hmove, by simp⟩
  · rw [hout] at hmove hall
    rcases hnext value middle with ⟨handed', hprefix', hmove', hall'⟩
    have hhanded : handed = items := hall value rfl
    subst hhanded
    refine ⟨handed ++ handed', ?_, Additive.append hmove hmove', ?_⟩
    · exact (List.prefix_append_right_inj handed).2 hprefix'
    · intro result hresult
      rw [hall' result hresult]

/-- A first check that hands out nothing. -/
theorem bind_nil {first : ExceptT Diagnostic (StateM σ) α}
    {next : α → ExceptT Diagnostic (StateM σ) β} (hfirst : HandsOut moves [] first)
    (hnext : ∀ value, HandsOut moves items (next value)) :
    HandsOut moves items (first >>= next) :=
  bind hfirst hnext

/-- What is made of the result in the end hands out nothing more. -/
theorem bind_last {first : ExceptT Diagnostic (StateM σ) α}
    {next : α → ExceptT Diagnostic (StateM σ) β} (hfirst : HandsOut moves items first)
    (hnext : ∀ value, HandsOut moves [] (next value)) :
    HandsOut moves items (first >>= next) := by
  have h := bind hfirst hnext
  rwa [List.append_nil] at h

/-- A check made for each entry of a list hands out the names of all of them in order. -/
theorem mapM {γ : Type} {itemsOf : γ → List String}
    {check : γ → ExceptT Diagnostic (StateM σ) α}
    (h : ∀ entry, HandsOut moves (itemsOf entry) (check entry)) (entries : List γ) :
    HandsOut moves (entries.flatMap itemsOf) (entries.mapM check) := by
  induction entries with
  | nil => exact pure []
  | cons entry entries ih =>
    rw [List.mapM_cons, List.flatMap_cons]
    refine bind (h entry) fun _ => ?_
    exact bind_last ih fun _ => pure _

end HandsOut

/-! ## What may change in a body -/

/-- The context after handing out names for some items. -/
def Context.handOut (context : Context) (items : List String) : Context :=
  { context with checker := context.checker.handOut items }

/-- The context in which another type has been returned. -/
def Context.returning (context : Context) (ret : Ty) : Context :=
  { context with locals := { context.locals with actualRet := ret } }

/-- While an expression is checked, names are handed out. -/
def ExprMove (items : List String) (before after : Context) : Prop :=
  after = before.handOut items

/-- While statements are checked, names are handed out and the return type seen so far
changes. -/
def BodyMove (items : List String) (before after : Context) : Prop :=
  ∃ ret, after = (before.handOut items).returning ret

instance : Additive ExprMove where
  nil _ := rfl
  append := by
    intro items more first middle last hfirst hlast
    subst hfirst
    subst hlast
    simp [ExprMove, Context.handOut]

instance : Additive BodyMove where
  nil context := ⟨context.locals.actualRet, rfl⟩
  append := by
    rintro items more first middle last ⟨ret, rfl⟩ ⟨ret', rfl⟩
    exact ⟨ret', by simp [Context.handOut, Context.returning]⟩

/-- What an expression may change, a statement may change. -/
theorem BodyMove.of_exprMove {items : List String} {before after : Context}
    (h : ExprMove items before after) : BodyMove items before after := by
  subst h
  exact ⟨before.locals.actualRet, rfl⟩

/-- What an expression hands out is handed out in its statement. -/
theorem HandsOut.inStatement {items : List String} {check : Check α}
    (h : HandsOut ExprMove items check) : HandsOut BodyMove items check := by
  intro context
  rcases h context with ⟨handed, hprefix, hmove, hall⟩
  exact ⟨handed, hprefix, .of_exprMove hmove, hall⟩

/-! ## Expressions -/

section Expressions

open Check HandsOut

/-- A look at the environment hands out no name. -/
theorem env_handsOut : HandsOut ExprMove [] Check.env :=
  of_unchanged fun _ => rfl

/-- A new name is handed out for its item. -/
theorem freshName_handsOut (item : String) : HandsOut ExprMove [item] (freshName item) := by
  intro context
  refine ⟨[item], List.prefix_rfl, ?_, fun _ _ => rfl⟩
  rfl

/-- A check between two changes of the body, on success and on failure. -/
theorem outcome_between (before after : Locals → Locals) (check : Check α) (context : Context) :
    outcome (between before after check) context =
      let inner := outcome check { context with locals := before context.locals }
      (inner.1, { inner.2 with locals := after inner.2.locals }) := rfl

/-- Behind the scope of an item, the body is what it was. -/
theorem inScope_handsOut {items : List String} {check : Check α} (item renamed : String)
    (ty : Ty) (h : HandsOut ExprMove items check) :
    HandsOut ExprMove items (inScope item renamed ty check) := by
  intro context
  obtain ⟨handed, hprefix, hmove, hall⟩ :=
    h { context with locals :=
      { context.locals with scopes := [(item, (renamed, ty))] :: context.locals.scopes } }
  refine ⟨handed, hprefix, ?_, hall⟩
  unfold ExprMove at hmove ⊢
  rw [inScope, outcome_between]
  simp only [hmove]
  rfl

/-- A name hands out no name, whatever it stands for. -/
theorem checkId_handsOut (location : Location) (name : String) :
    HandsOut ExprMove [] (checkId location name) := by
  refine of_unchanged fun context => ?_
  simp only [checkId, outcome_bind, outcome_get]
  split
  · rfl
  · split <;> rfl

/-- A rule for checked parts, and what is made of its result, hand out nothing. -/
theorem rule_handsOut (rule : Verdict α) (make : α → β) :
    HandsOut ExprMove [] (do return make (← liftM rule) : Check β) :=
  bind_nil (lift rule) fun _ => .pure _

/-- A rule in the environment hands out no name. -/
theorem envRule_handsOut (rule : Env → Verdict α) (make : α → β) :
    HandsOut ExprMove [] (do return make (← liftM (rule (← Check.env))) : Check β) :=
  bind_nil env_handsOut fun _ => rule_handsOut _ make

mutual

/-- An expression hands out a name for each of its comprehension items. -/
theorem checkExpr_handsOut (e : Expr Location) : HandsOut ExprMove e.items (checkExpr e) := by
  match e with
  | .literal location literal =>
    rw [checkExpr]
    exact .pure _
  | .id location name =>
    rw [checkExpr]
    exact checkId_handsOut location name
  | .binOp location op left right =>
    rw [checkExpr]
    refine bind (checkExpr_handsOut left) fun _ => ?_
    exact bind_last (checkExpr_handsOut right) fun _ => rule_handsOut _ _
  | .uniOp location op operand =>
    rw [checkExpr]
    exact bind_last (checkExpr_handsOut operand) fun _ => rule_handsOut _ _
  | .builtin1 location name argument =>
    rw [checkExpr]
    exact bind_last (checkExpr_handsOut argument) fun _ => envRule_handsOut _ _
  | .builtin2 location name left right =>
    rw [checkExpr]
    refine bind (checkExpr_handsOut left) fun _ => ?_
    exact bind_last (checkExpr_handsOut right) fun _ => envRule_handsOut _ _
  | .call location name genericArgs arguments =>
    rw [checkExpr]
    refine bind_last (checkExprs_handsOut arguments) fun _ => ?_
    exact bind_nil env_handsOut fun _ => lift _
  | .construct location name arguments =>
    rw [checkExpr]
    refine bind_nil env_handsOut fun _ => bind_nil (lift _) fun _ => ?_
    exact bind_last (checkExprs_handsOut arguments) fun _ => .pure _
  | .lookup location object field =>
    rw [checkExpr]
    exact bind_last (checkExpr_handsOut object) fun _ => envRule_handsOut _ _
  | .methodCall location object method arguments =>
    rw [checkExpr]
    refine bind (checkExpr_handsOut object) fun _ => ?_
    exact bind_last (checkExprs_handsOut arguments) fun _ => envRule_handsOut _ _
  | .index location object position =>
    rw [checkExpr]
    refine bind (checkExpr_handsOut object) fun _ => ?_
    exact bind_last (checkExpr_handsOut position) fun _ => rule_handsOut _ _
  | .listLiteral location elements =>
    rw [checkExpr]
    exact bind_last (checkExprs_handsOut elements) fun _ => rule_handsOut _ _
  | .ternary location ifTrue condition ifFalse =>
    rw [checkExpr]
    refine bind (checkExpr_handsOut ifTrue) fun _ => ?_
    refine bind (checkExpr_handsOut condition) fun _ => ?_
    exact bind_last (checkExpr_handsOut ifFalse) fun _ => rule_handsOut _ _
  | .comprehension location kind result item iterable none =>
    rw [checkExpr]
    refine bind (checkExpr_handsOut iterable) fun _ => ?_
    refine bind_nil env_handsOut fun _ => bind_nil (lift _) fun _ => ?_
    refine bind (freshName_handsOut item) fun renamed => ?_
    exact bind_last (inScope_handsOut item renamed _ (checkExpr_handsOut result)) fun _ => .pure _
  | .comprehension location kind result item iterable (some filter) =>
    rw [checkExpr]
    refine bind (checkExpr_handsOut iterable) fun _ => ?_
    refine bind_nil env_handsOut fun _ => bind_nil (lift _) fun _ => ?_
    refine bind (freshName_handsOut item) fun renamed => ?_
    refine bind_last (inScope_handsOut item renamed _ ?_) fun _ => .pure _
    refine bind (checkExpr_handsOut filter) fun _ => bind_nil (lift _) fun _ => ?_
    exact bind_last (checkExpr_handsOut result) fun _ => .pure _

/-- Expressions hand out names in order. -/
theorem checkExprs_handsOut (es : List (Expr Location)) :
    HandsOut ExprMove (Expr.itemsAll es) (checkExprs es) := by
  match es with
  | [] =>
    rw [checkExprs]
    exact .pure _
  | first :: rest =>
    rw [checkExprs]
    refine bind (checkExpr_handsOut first) fun _ => ?_
    exact bind_last (checkExprs_handsOut rest) fun _ => .pure _

end

end Expressions

/-! ## Statements -/

section Statements

open Check HandsOut

/-- A look at the state of the body hands out no name. -/
theorem locals_handsOut : HandsOut BodyMove [] Check.locals :=
  of_unchanged fun _ => rfl

/-- Noting what is returned hands out no name. -/
theorem setActualRet_handsOut (ret : Ty) : HandsOut BodyMove [] (setActualRet ret) := by
  intro context
  exact ⟨[], List.prefix_rfl, ⟨ret, rfl⟩, fun _ _ => rfl⟩

/-- The target of an assignment hands out no name. -/
theorem targetType_handsOut (location : Location) (name : String) :
    HandsOut BodyMove [] (targetType location name) :=
  bind_nil .get fun _ => lift _

/-- The look for a loop hands out no name. -/
theorem expectInLoop_handsOut (keyword : String) (location : Location) :
    HandsOut BodyMove [] (expectInLoop keyword location) :=
  bind_nil locals_handsOut fun _ => lift _

/-- The context one loop deeper. -/
def Context.enterLoop (context : Context) : Context :=
  { context with locals := { context.locals with loopDepth := context.locals.loopDepth + 1 } }

/-- The context behind a loop. -/
def Context.leaveLoop (context : Context) : Context :=
  { context with locals := { context.locals with loopDepth := context.locals.loopDepth - 1 } }

/-- A check in a loop starts one loop deeper and ends one loop higher. -/
theorem outcome_inLoop (check : Check α) (context : Context) :
    outcome (Check.inLoop check) context =
      ((outcome check context.enterLoop).1, (outcome check context.enterLoop).2.leaveLoop) := rfl

/-- Behind a loop, the depth of loops is what it was. -/
theorem inLoop_handsOut {items : List String} {check : Check α}
    (h : HandsOut BodyMove items check) : HandsOut BodyMove items (inLoop check) := by
  intro context
  obtain ⟨handed, hprefix, ⟨ret, hmove⟩, hall⟩ := h context.enterLoop
  refine ⟨handed, hprefix, ⟨ret, ?_⟩, hall⟩
  rw [outcome_inLoop, hmove]
  rfl

mutual

/-- A statement hands out a name for each of its comprehension items. -/
theorem checkStmt_handsOut (s : Stmt Location) : HandsOut BodyMove s.items (checkStmt s) := by
  match s with
  | .assign location name value =>
    rw [checkStmt]
    refine bind_last (checkExpr_handsOut value).inStatement fun _ => ?_
    refine bind_nil (targetType_handsOut location name) fun _ => ?_
    exact bind_nil (lift _) fun _ => .pure _
  | .fieldAssign location object field value =>
    rw [checkStmt]
    refine bind (checkExpr_handsOut object).inStatement fun _ => ?_
    refine bind_last (checkExpr_handsOut value).inStatement fun _ => ?_
    refine bind_nil env_handsOut.inStatement fun _ => bind_nil (lift _) fun _ => ?_
    exact bind_nil (lift _) fun _ => .pure _
  | .indexAssign location object position value =>
    rw [checkStmt]
    refine bind (checkExpr_handsOut object).inStatement fun object => ?_
    refine bind (checkExpr_handsOut position).inStatement fun _ => ?_
    refine bind_last (checkExpr_handsOut value).inStatement fun _ => ?_
    refine bind_nil (lift _) fun _ => ?_
    split
    · exact bind_nil (lift _) fun _ => .pure _
    · exact .throw _
  | .expr location value =>
    rw [checkStmt]
    exact bind_last (checkExpr_handsOut value).inStatement fun _ => .pure _
  | .return location value =>
    rw [checkStmt]
    refine bind_nil locals_handsOut fun _ => bind_nil (lift _) fun _ => ?_
    refine bind_last (checkExpr_handsOut value).inStatement fun _ => ?_
    refine bind_nil locals_handsOut fun _ => bind_nil (lift _) fun _ => ?_
    exact bind_nil (setActualRet_handsOut _) fun _ => .pure _
  | .cond location condition body otherwise =>
    rw [checkStmt]
    refine bind (checkExpr_handsOut condition).inStatement fun _ => bind_nil (lift _) fun _ => ?_
    refine bind (checkBlock_handsOut body) fun _ => ?_
    refine bind_nil locals_handsOut fun _ => bind_nil (setActualRet_handsOut _) fun _ => ?_
    refine bind_last (checkBlock_handsOut otherwise) fun _ => ?_
    refine bind_nil locals_handsOut fun _ => bind_nil (setActualRet_handsOut _) fun _ => ?_
    exact .pure _
  | .while location condition body =>
    rw [checkStmt]
    refine bind (checkExpr_handsOut condition).inStatement fun _ => bind_nil (lift _) fun _ => ?_
    exact bind_last (inLoop_handsOut (checkBlock_handsOut body)) fun _ => .pure _
  | .for location item iterable body otherwise =>
    rw [checkStmt]
    refine bind (checkExpr_handsOut iterable).inStatement fun _ => ?_
    refine bind_nil env_handsOut.inStatement fun _ => bind_nil (lift _) fun _ => ?_
    refine bind_nil (targetType_handsOut location item) fun _ => bind_nil (lift _) fun _ => ?_
    refine bind (inLoop_handsOut (checkBlock_handsOut body)) fun _ => ?_
    exact bind_last (checkBlock_handsOut otherwise) fun _ => .pure _
  | .pass location =>
    rw [checkStmt]
    exact .pure _
  | .continue location =>
    rw [checkStmt]
    exact bind_nil (expectInLoop_handsOut "continue" location) fun _ => .pure _
  | .break location =>
    rw [checkStmt]
    exact bind_nil (expectInLoop_handsOut "break" location) fun _ => .pure _

/-- Statements hand out names in order. -/
theorem checkBlock_handsOut (block : List (Stmt Location)) :
    HandsOut BodyMove (Stmt.itemsAll block) (checkBlock block) := by
  match block with
  | [] =>
    rw [checkBlock]
    exact .pure _
  | first :: rest =>
    rw [checkBlock]
    refine bind (checkStmt_handsOut first) fun _ => ?_
    exact bind_last (checkBlock_handsOut rest) fun _ => .pure _

end

end Statements

/-! ## Declarations and programs -/

/-- While declarations are checked, names are handed out. -/
def ModuleMove (items : List String) (before after : Checker) : Prop :=
  after = before.handOut items

instance : Additive ModuleMove where
  nil _ := rfl
  append := by
    intro items more first middle last hfirst hlast
    subst hfirst
    subst hlast
    simp [ModuleMove]

section Declarations

open HandsOut

/-- A check in a body leaves the module behind, and nothing of the body. -/
theorem outcome_inBody (locals : Locals) (check : Check α) (checker : Checker) :
    outcome (inBody locals check) checker =
      ((outcome check ⟨checker, locals⟩).1, (outcome check ⟨checker, locals⟩).2.checker) := rfl

/-- A body hands out names in the checker it belongs to. -/
theorem inBody_handsOut {items : List String} {check : Check α} (locals : Locals)
    (h : HandsOut BodyMove items check) : HandsOut ModuleMove items (inBody locals check) := by
  intro checker
  rcases h ⟨checker, locals⟩ with ⟨handed, hprefix, ⟨ret, hmove⟩, hall⟩
  refine ⟨handed, hprefix, ?_, hall⟩
  unfold ModuleMove
  rw [outcome_inBody, hmove]
  rfl

/-- A function hands out a name for each comprehension item of its body. -/
theorem checkFunDef_handsOut (fn : FunDef Location) :
    HandsOut ModuleMove fn.items (checkFunDef fn) := by
  unfold checkFunDef
  refine bind_nil (lift _) fun _ => ?_
  refine bind_last (inBody_handsOut (bodyLocals fn) ?_) fun _ => .pure _
  unfold checkBody
  refine bind_last (checkBlock_handsOut fn.body) fun _ => ?_
  exact bind_nil locals_handsOut fun _ => bind_nil (lift _) fun _ => .pure _

/-- A class hands out a name for each comprehension item of its methods. -/
theorem checkClassDef_handsOut (cls : ClassDef Location) :
    HandsOut ModuleMove cls.items (checkClassDef cls) := by
  unfold checkClassDef
  refine bind_nil (lift _) fun _ => ?_
  refine bind_last (mapM checkFunDef_handsOut cls.methods) fun _ => ?_
  exact bind_nil (lift _) fun _ => .pure _

/-- The top level has no variables of its own, and so adds none to those of the module. -/
theorem checkTop_handsOut (stmts : List (Stmt Location)) :
    HandsOut ModuleMove (Stmt.itemsAll stmts) (checkTop stmts) := by
  intro checker
  rcases checkBlock_handsOut stmts ⟨checker, .top⟩ with ⟨handed, hprefix, ⟨ret, hmove⟩, hall⟩
  simp only [checkTop, outcome_bind, outcome_inBody, Check.locals]
  rcases hblock : outcome (checkBlock stmts) ⟨checker, .top⟩ with ⟨diagnostic | typed, after⟩
  · rw [hblock] at hmove
    subst hmove
    exact ⟨handed, hprefix, rfl, fun _ h => nomatch h⟩
  · rw [hblock] at hmove hall
    subst hmove
    refine ⟨handed, hprefix, rfl, fun _ _ => hall typed rfl⟩

/-- A program hands out a name for each of its comprehension items. -/
theorem checkParts_handsOut (program : Program Location) :
    HandsOut ModuleMove program.items (checkParts program) := by
  unfold checkParts
  refine bind_nil (lift _) fun _ => ?_
  refine bind (mapM checkFunDef_handsOut program.funs) fun _ => ?_
  refine bind (mapM checkClassDef_handsOut program.classes) fun _ => ?_
  exact bind_last (checkTop_handsOut program.stmts) fun _ => .pure _

/-- A program is accepted if its parts are in the environment with its declarations. -/
theorem check_eq_ok {checker after : Checker} {program : Program Location}
    {typed : Program Typed} :
    checker.check program = (.ok typed, after) ↔
      outcome (checkParts program) { checker with env := checker.env.augment program } =
        (.ok typed, after) := by
  unfold Checker.check outcome
  split
  · next heq => rw [heq]
  · next heq => simp [heq]

/-- After a program, names for a beginning of its items have been handed out, for all of
them if it is accepted; its declarations are kept if it is accepted, and else nothing is. -/
theorem check_footprint (checker : Checker) (program : Program Location) :
    ∃ handed, handed <+: program.items ∧
      (checker.check program).2.counters = countAll checker.counters handed ∧
      ((∃ typed, (checker.check program).1 = .ok typed) ∧ handed = program.items ∧
          (checker.check program).2.env = checker.env.augment program ∨
        (∃ diagnostic, (checker.check program).1 = .error diagnostic) ∧
          (checker.check program).2.env = checker.env) := by
  obtain ⟨handed, hprefix, hmove, hall⟩ :=
    checkParts_handsOut program { checker with env := checker.env.augment program }
  refine ⟨handed, hprefix, ?_⟩
  rcases hparts : outcome (checkParts program)
    { checker with env := checker.env.augment program } with ⟨diagnostic | typed, after⟩
  · have hcheck : checker.check program =
        (.error diagnostic, { after with env := checker.env }) := by
      rw [Checker.check, show (checkParts program).run _ = _ from hparts]
    rw [hparts] at hmove
    subst hmove
    rw [hcheck]
    exact ⟨rfl, .inr ⟨⟨diagnostic, rfl⟩, rfl⟩⟩
  · have hcheck : checker.check program = (.ok typed, after) := by
      rw [Checker.check, show (checkParts program).run _ = _ from hparts]
    rw [hparts] at hmove hall
    subst hmove
    rw [hcheck]
    exact ⟨rfl, .inl ⟨⟨typed, rfl⟩, hall typed rfl, rfl⟩⟩

end Declarations

/-! ## Rows of checks -/

section Rows

/-- A checker of an environment accepts an entry, with a result. -/
def Accepts (check : α → ModuleCheck β) (env : Env) (entry : α) (value : β) : Prop :=
  ∃ checker : Checker, checker.env = env ∧ (outcome (check entry) checker).1 = .ok value

/-- What a row of checks accepts is accepted entry by entry, each in a state that is as the ones
before leave it. -/
theorem outcome_mapM_ok (fits : σ → Prop) {check : α → ExceptT Diagnostic (StateM σ) β}
    (hkeeps : ∀ entry state value after, fits state →
      outcome (check entry) state = (.ok value, after) → fits after)
    {entries : List α} {state after : σ} {values : List β} (hstate : fits state)
    (h : outcome (entries.mapM check) state = (.ok values, after)) :
    List.Forall₂ (fun entry value => ∃ state, fits state ∧
      (outcome (check entry) state).1 = .ok value) entries values := by
  induction entries generalizing state values with
  | nil =>
    cases h
    exact .nil
  | cons entry entries ih =>
    simp only [List.mapM_cons, outcome_bind_ok, outcome_pure, Prod.mk.injEq, Except.ok.injEq] at h
    rcases h with ⟨value, middle, hfirst, rest, _, hrest, rfl, rfl⟩
    refine .cons ⟨state, hstate, by rw [hfirst]⟩ ?_
    exact ih (hkeeps entry state value middle hstate hfirst) hrest

/-- A list that is accepted is accepted entry by entry, each with the counters it meets. -/
theorem mapM_accepts {itemsOf : α → List String} {check : α → ModuleCheck β}
    (hands : ∀ entry, HandsOut ModuleMove (itemsOf entry) (check entry)) {entries : List α}
    {checker after : Checker} {values : List β}
    (h : outcome (entries.mapM check) checker = (.ok values, after)) :
    List.Forall₂ (Accepts check checker.env) entries values := by
  refine outcome_mapM_ok (fun other => other.env = checker.env) ?_ rfl h
  intro entry state value next henv hok
  obtain rfl := (hands entry).moves_of_ok hok
  exact henv

end Rows
end Typing
end Offside
