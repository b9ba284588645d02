import Offside.Proofs.Ast.Nesting
import Offside.Proofs.Typing.Footprint

/-!
# What the checker blames a program for

The checker refuses a program for a matter of types, or for a statement that may not stand where
it does.  A rule says its causes at the places where it refuses, and they are matters of types
alone; a check in a body or of a module adds to the rules that it lifts only the names that are not
bound, breaks and continues around which there is no loop, and returns at the top level.

Main definitions:

- `Faults`: a rule refuses for matters of some kind alone.
- `Misplaced` and `Program.Misplaces`: a refusal is for a statement at a wrong place.
- `Blames`: a check refuses for matters of types and of a further kind alone.

Main results:

- Theorems `checkExpr_blames` and `checkStmt_blames`: expressions and statements.
- Theorem `check_refuses_for`: programs are refused for types or for misplaced statements.
- Theorem `check_blames`: so the causes belong to the stage of types.
-/

namespace Offside

/-- A cause that lies in types, and not in the place of a statement. -/
def Cause.ofTypes : Cause → Bool
  | .outsideLoop _ | .returnOutsideFunction => false
  | cause => cause.stage = .typeCheck

/-- A cause that lies in types belongs to the stage of types. -/
theorem Cause.stage_of_ofTypes {cause : Cause} (h : cause.ofTypes = true) :
    cause.stage = .typeCheck := by
  unfold ofTypes at h
  split at h
  · nomatch h
  · nomatch h
  · exact of_decide_eq_true h

/-- A refusal for a statement of a program: for a break or continue that stands in no loop of its
function, method or top level, or for a return that stands at the top level. -/
inductive Program.Misplaces (program : Program Location) : Diagnostic → Prop where
  | outsideLoop {ret? : Option Ty} {block : List (Stmt Location)} {s : Stmt Location}
      {keyword : String} (isBody : program.HasBody ret? block) (stands : s.Stands false block)
      (leaves : s.loopKeyword? = some keyword) : Misplaces program ⟨.outsideLoop keyword, s.note⟩
  | returns {location : Location} {value : Expr Location} {inLoop : Bool}
      (stands : (Stmt.return location value).Stands inLoop program.stmts) :
      Misplaces program ⟨.returnOutsideFunction, location⟩

namespace Typing

variable {α β σ : Type} {cause : Cause} {location : Location}

/-! ## Rules -/

/-- A refusal for a matter of types. -/
def OfTypes (diagnostic : Diagnostic) : Prop := diagnostic.cause.ofTypes = true

/-- A rule refuses for matters of some kind alone. -/
def Faults (kind : Diagnostic → Prop) (verdict : Verdict α) : Prop :=
  match verdict with
  | .ok _ => True
  | .error diagnostic => kind diagnostic

namespace Faults

variable {kind kind' : Diagnostic → Prop}

/-- A rule that accepts refuses nothing. -/
theorem ok (value : α) : Faults kind (.ok value) := trivial

/-- A kind of refusals may be widened. -/
theorem mono (himp : ∀ diagnostic, kind diagnostic → kind' diagnostic) {verdict : Verdict α}
    (h : Faults kind verdict) : Faults kind' verdict := by
  cases verdict with
  | error diagnostic => exact himp diagnostic h
  | ok value => trivial

/-- Two rules in a row refuse for what one of them refuses. -/
theorem bind {first : Verdict α} {next : α → Verdict β} (h : Faults kind first)
    (hnext : ∀ value, Faults kind (next value)) : Faults kind (first >>= next) := by
  cases first with
  | error diagnostic => exact h
  | ok value => exact hnext value

/-- A plain refusal is for its cause. -/
theorem refuse (h : cause.ofTypes = true) :
    Faults OfTypes (refuse cause location : Verdict α) := h

/-- What is looked up and not found is refused for the cause given. -/
theorem demand (h : cause.ofTypes = true) {found : Option α} :
    Faults OfTypes (demand found cause location) := by
  cases found with
  | none => exact refuse h
  | some value => exact ok value

/-- So is a condition that does not hold. -/
theorem require (h : cause.ofTypes = true) {condition : Bool} :
    Faults OfTypes (require condition cause location) := by
  cases condition with
  | false => exact refuse h
  | true => exact ok ()

/-- A rule for each entry of a list refuses for one of them. -/
theorem mapM {γ : Type} {rule : γ → Verdict α} (h : ∀ entry, Faults kind (rule entry))
    (entries : List γ) : Faults kind (entries.mapM rule) := by
  induction entries with
  | nil => exact ok []
  | cons entry entries ih =>
    rw [List.mapM_cons]
    exact (h entry).bind fun _ => ih.bind fun _ => ok _

end Faults

/-- A condition is refused for its type. -/
theorem expectBool_faults (condition : Expr Typed) : Faults OfTypes (expectBool condition) :=
  .require rfl

/-- An index is refused for its type. -/
theorem expectIndex_faults (position : Expr Typed) : Faults OfTypes (expectIndex position) :=
  .require rfl

/-- An iterable is refused for its type. -/
theorem expectIterable_faults (env : Env) (iterable : Expr Typed) :
    Faults OfTypes (expectIterable env iterable) := .demand rfl

/-- A value that does not fit its target is refused for its type. -/
theorem storable_faults (target value : Ty) (location : Location) :
    Faults OfTypes (storable target value location) := .require rfl

/-- An object without a class is refused for its type. -/
theorem classOf_faults (env : Env) (operation : String) (object : Expr Typed)
    (location : Location) : Faults OfTypes (classOf env operation object location) :=
  (Faults.demand rfl).bind fun _ => (Faults.demand rfl).bind fun _ => .ok _

/-- A field is refused if the class does not have it. -/
theorem fieldType_faults (env : Env) (operation : String) (object : Expr Typed) (field : String)
    (location : Location) : Faults OfTypes (fieldType env operation object field location) :=
  (classOf_faults env operation object location).bind fun _ => .demand rfl

/-- Arguments are refused for their number or their types. -/
theorem checkArguments_faults (name : String) (parameters : List Ty)
    (arguments : List (Expr Typed)) (location : Location) :
    Faults OfTypes (checkArguments name parameters arguments location) := by
  unfold checkArguments
  split
  · dsimp only
    split
    · exact .refuse rfl
    · exact .ok _
  · exact .refuse rfl

/-- A call is refused for the function or the arguments. -/
theorem functionCall_faults (env : Env) (name : String) (arguments : List (Expr Typed))
    (location : Location) : Faults OfTypes (functionCall env name arguments location) :=
  (Faults.demand rfl).bind fun _ => (checkArguments_faults ..).bind fun _ => .ok _

/-- The creation of an object is refused for the arguments of its constructor. -/
theorem construction_faults (cls : ClassInfo) (name : String) (arguments : List (Expr Typed))
    (location : Location) : Faults OfTypes (construction cls name arguments location) := by
  unfold construction
  split
  · exact (checkArguments_faults ..).bind fun _ => .require rfl
  · exact .ok _

/-- A call of either kind is refused for a matter of types. -/
theorem typedCall_faults (env : Env) (name : String) (genericArgs : List Ty)
    (arguments : List (Expr Typed)) (location : Location) :
    Faults OfTypes (typedCall env name genericArgs arguments location) := by
  unfold typedCall
  split
  · exact (construction_faults ..).bind fun _ => .ok _
  · exact (functionCall_faults ..).bind fun _ => .ok _

/-- A method call is refused for the object, the method or the arguments. -/
theorem methodCall_faults (env : Env) (object : Expr Typed) (method : String)
    (arguments : List (Expr Typed)) (location : Location) :
    Faults OfTypes (methodCall env object method arguments location) := by
  refine (classOf_faults ..).bind fun _ => (Faults.demand rfl).bind fun signature => ?_
  cases signature.parameters with
  | nil => exact .refuse rfl
  | cons receiver parameters =>
    exact (Faults.require rfl).bind fun _ => (checkArguments_faults ..).bind fun _ => .ok _

/-- The call of a builtin function is refused for its argument. -/
theorem builtinCall_faults (env : Env) (name : String) (argument : Expr Typed)
    (location : Location) : Faults OfTypes (builtinCall env name argument location) := by
  unfold builtinCall
  split
  · exact (Faults.require rfl).bind fun _ => .ok _
  · exact functionCall_faults ..

/-- A list is refused for elements of different types. -/
theorem listType_faults (elements : List (Expr Typed)) : Faults OfTypes (listType elements) := by
  unfold listType
  split
  · exact .ok _
  · split
    · exact .refuse rfl
    · exact .ok _

theorem indexType_faults (object position : Expr Typed) (location : Location) :
    Faults OfTypes (indexType object position location) := by
  refine (expectIndex_faults position).bind fun _ => ?_
  split
  · exact .ok _
  · exact .refuse rfl

/-- A unary operation is refused for the type of its operand. -/
theorem uniOpResult_faults (op : UniOp) (operand : Ty) (location : Location) :
    Faults OfTypes (uniOpResult op operand location) :=
  (Faults.require rfl).bind fun _ => .ok _

/-- A binary operation is refused for the types of its operands. -/
theorem binOpResult_faults (op : BinOp) (left right : Ty) (location : Location) :
    Faults OfTypes (binOpResult op left right location) := by
  have hboth (ty result : Ty) : Faults OfTypes (bothAre ty op left right result location) :=
    (Faults.require rfl).bind fun _ => .ok _
  cases op with
  | eq | neq => exact (Faults.require rfl).bind fun _ => (Faults.require rfl).bind fun _ => .ok _
  | is => exact (Faults.require rfl).bind fun _ => .ok _
  | _ => exact hboth _ _

/-- A declared variable is refused for the type of its first value. -/
theorem checkInit_faults (init : VarInit Location) : Faults OfTypes (checkInit init) :=
  (storable_faults ..).bind fun _ => .ok _

/-- So are declared variables in a row. -/
theorem checkInits_faults (inits : List (VarInit Location)) : Faults OfTypes (checkInits inits) :=
  .mapM checkInit_faults inits

/-! ## Checks -/

/-- In a state that fits, a check refuses for matters of types or of another kind alone, and it
leaves a state that fits. -/
def Blames (fits : σ → Prop) (kind : Diagnostic → Prop)
    (check : ExceptT Diagnostic (StateM σ) α) : Prop :=
  ∀ state, fits state →
    Faults (fun diagnostic => OfTypes diagnostic ∨ kind diagnostic) (outcome check state).1 ∧
      fits (outcome check state).2

namespace Blames

variable {fits : σ → Prop} {kind kind' : Diagnostic → Prop}

/-- A check that gives a value refuses nothing. -/
theorem pure (value : α) :
    Blames fits kind (Pure.pure value : ExceptT Diagnostic (StateM σ) α) :=
  fun _ hfits => ⟨.ok value, hfits⟩

/-- A look at the state refuses nothing. -/
theorem get : Blames fits kind (MonadState.get : ExceptT Diagnostic (StateM σ) σ) :=
  fun state hfits => ⟨.ok state, hfits⟩

/-- A rule that is lifted refuses for matters of types. -/
theorem lift {verdict : Verdict α} (h : Faults OfTypes verdict) :
    Blames fits kind (liftM verdict : ExceptT Diagnostic (StateM σ) α) := by
  intro state hfits
  rw [outcome_lift]
  exact ⟨h.mono fun _ => .inl, hfits⟩

/-- A rule that is refused for a cause of the further kind. -/
theorem require {condition : Bool} (h : condition = false → kind ⟨cause, location⟩) :
    Blames fits kind
      (liftM (require condition cause location) : ExceptT Diagnostic (StateM σ) Unit) := by
  intro state hfits
  rw [outcome_lift]
  cases condition with
  | false => exact ⟨.inr (h rfl), hfits⟩
  | true => exact ⟨.ok (), hfits⟩

/-- A check may refuse for a matter of types by itself. -/
theorem refuseHere {fits : Context → Prop} (h : cause.ofTypes = true) :
    Blames fits kind (refuseHere cause location : Check α) :=
  fun _ hfits => ⟨.inl h, hfits⟩

/-- What a check blames a program for may be widened. -/
theorem mono (himp : ∀ diagnostic, kind diagnostic → kind' diagnostic)
    {check : ExceptT Diagnostic (StateM σ) α} (h : Blames fits kind check) :
    Blames fits kind' check := by
  intro state hfits
  obtain ⟨hfaults, hafter⟩ := h state hfits
  exact ⟨hfaults.mono fun diagnostic => Or.imp_right (himp diagnostic), hafter⟩

/-- Two checks in a row refuse for what one of them refuses. -/
theorem bind {first : ExceptT Diagnostic (StateM σ) α}
    {next : α → ExceptT Diagnostic (StateM σ) β} (h : Blames fits kind first)
    (hnext : ∀ value, Blames fits kind (next value)) : Blames fits kind (first >>= next) := by
  intro state hfits
  have hfirst := h state hfits
  rw [outcome_bind]
  generalize outcome first state = ended at hfirst ⊢
  rcases ended with ⟨diagnostic | value, middle⟩
  · exact hfirst
  · exact hnext value middle hfirst.2

/-- A check for each entry of a list refuses for one of them. -/
theorem mapM {γ : Type} {check : γ → ExceptT Diagnostic (StateM σ) α} {entries : List γ}
    (h : ∀ entry ∈ entries, Blames fits kind (check entry)) :
    Blames fits kind (entries.mapM check) := by
  induction entries with
  | nil => exact pure []
  | cons entry entries ih =>
    rw [List.forall_mem_cons] at h
    rw [List.mapM_cons]
    exact h.1.bind fun _ => (ih h.2).bind fun _ => pure _

end Blames

/-! ## Expressions -/

/-- Where in a program a check runs. -/
structure Place where
  topLevel : Bool
  loopDepth : Nat

/-- The context of a check that runs at a place. -/
structure At (place : Place) (context : Context) : Prop where
  topLevel : context.locals.topLevel = place.topLevel
  loopDepth : context.locals.loopDepth = place.loopDepth

section Bodies

open Check Blames

variable {place : Place} {kind : Diagnostic → Prop}

/-- A look at the environment refuses nothing. -/
theorem env_blames : Blames (At place) kind Check.env := fun _ hat => ⟨.ok _, hat⟩

/-- Handing out a name refuses nothing. -/
theorem freshName_blames (item : String) : Blames (At place) kind (freshName item) :=
  fun _ hat => ⟨.ok _, hat.topLevel, hat.loopDepth⟩

/-- Behind the scope of an item, the place is what it was. -/
theorem inScope_blames {check : Check α} (item renamed : String) (ty : Ty)
    (h : Blames (At place) kind check) :
    Blames (At place) kind (inScope item renamed ty check) := by
  intro context hat
  obtain ⟨hfaults, hafter⟩ := h { context with locals :=
    { context.locals with scopes := [(item, (renamed, ty))] :: context.locals.scopes } }
    ⟨hat.topLevel, hat.loopDepth⟩
  rw [inScope, outcome_between]
  exact ⟨hfaults, hafter.topLevel, hafter.loopDepth⟩

/-- A rule in the environment of the module. -/
theorem envRule_blames {rule : Env → Verdict α} {next : α → Check β}
    (h : ∀ env, Faults OfTypes (rule env)) (hnext : ∀ value, Blames (At place) kind (next value)) :
    Blames (At place) kind (do next (← liftM (rule (← Check.env)))) :=
  env_blames.bind fun env => (lift (h env)).bind hnext

/-- A name is refused if it is not bound. -/
theorem checkId_blames (location : Location) (name : String) :
    Blames (At place) kind (checkId location name) := by
  refine Blames.get.bind fun context => ?_
  split
  · exact .pure _
  · split
    · exact .pure _
    · exact .refuseHere rfl

mutual

/-- An expression is refused for matters of types alone. -/
theorem checkExpr_blames (e : Expr Location) : Blames (At place) kind (checkExpr e) := by
  match e with
  | .literal location literal =>
    rw [checkExpr]
    exact .pure _
  | .id location name =>
    rw [checkExpr]
    exact checkId_blames location name
  | .binOp location op left right =>
    rw [checkExpr]
    exact (checkExpr_blames left).bind fun _ => (checkExpr_blames right).bind fun _ =>
      (lift (binOpResult_faults ..)).bind fun _ => .pure _
  | .uniOp location op operand =>
    rw [checkExpr]
    exact (checkExpr_blames operand).bind fun _ =>
      (lift (uniOpResult_faults ..)).bind fun _ => .pure _
  | .builtin1 location name argument =>
    rw [checkExpr]
    exact (checkExpr_blames argument).bind fun _ =>
      envRule_blames (fun _ => builtinCall_faults ..) fun _ => .pure _
  | .builtin2 location name left right =>
    rw [checkExpr]
    exact (checkExpr_blames left).bind fun _ => (checkExpr_blames right).bind fun _ =>
      envRule_blames (fun _ => functionCall_faults ..) fun _ => .pure _
  | .call location name genericArgs arguments =>
    rw [checkExpr]
    exact (checkExprs_blames arguments).bind fun _ => env_blames.bind fun _ =>
      lift (typedCall_faults ..)
  | .construct location name arguments =>
    rw [checkExpr]
    exact envRule_blames (fun _ => .demand rfl) fun _ => (checkExprs_blames arguments).bind
      fun _ => .pure _
  | .lookup location object field =>
    rw [checkExpr]
    exact (checkExpr_blames object).bind fun _ =>
      envRule_blames (fun _ => fieldType_faults ..) fun _ => .pure _
  | .methodCall location object method arguments =>
    rw [checkExpr]
    exact (checkExpr_blames object).bind fun _ => (checkExprs_blames arguments).bind fun _ =>
      envRule_blames (fun _ => methodCall_faults ..) fun _ => .pure _
  | .index location object position =>
    rw [checkExpr]
    exact (checkExpr_blames object).bind fun _ => (checkExpr_blames position).bind fun _ =>
      (lift (indexType_faults ..)).bind fun _ => .pure _
  | .listLiteral location elements =>
    rw [checkExpr]
    exact (checkExprs_blames elements).bind fun _ =>
      (lift (listType_faults _)).bind fun _ => .pure _
  | .ternary location ifTrue condition ifFalse =>
    rw [checkExpr]
    exact (checkExpr_blames ifTrue).bind fun _ => (checkExpr_blames condition).bind fun _ =>
      (checkExpr_blames ifFalse).bind fun _ => (lift (expectBool_faults _)).bind fun _ => .pure _
  | .comprehension location kind result item iterable none =>
    rw [checkExpr]
    refine (checkExpr_blames iterable).bind fun _ =>
      envRule_blames (fun _ => expectIterable_faults ..) fun _ => ?_
    exact (freshName_blames item).bind fun _ =>
      (inScope_blames _ _ _ (checkExpr_blames result)).bind fun _ => .pure _
  | .comprehension location kind result item iterable (some filter) =>
    rw [checkExpr]
    refine (checkExpr_blames iterable).bind fun _ =>
      envRule_blames (fun _ => expectIterable_faults ..) fun _ => ?_
    refine (freshName_blames item).bind fun _ => (inScope_blames _ _ _ ?_).bind fun _ => .pure _
    exact (checkExpr_blames filter).bind fun _ => (lift (expectBool_faults _)).bind fun _ =>
      (checkExpr_blames result).bind fun _ => .pure _

/-- Expressions in a row are refused for matters of types, too. -/
theorem checkExprs_blames (es : List (Expr Location)) :
    Blames (At place) kind (checkExprs es) := by
  match es with
  | [] =>
    rw [checkExprs]
    exact .pure _
  | first :: rest =>
    rw [checkExprs]
    exact (checkExpr_blames first).bind fun _ => (checkExprs_blames rest).bind fun _ => .pure _

end

/-! ## Statements -/

/-- The place in the body of a loop. -/
def Place.inLoop (place : Place) : Place := { place with loopDepth := place.loopDepth + 1 }

/-- A refusal for a statement of a block at a place: for a break or continue that stands in no
loop, or for a return that stands at the top level. -/
inductive Misplaced (place : Place) (block : List (Stmt Location)) : Diagnostic → Prop where
  | outsideLoop {s : Stmt Location} {keyword : String} (stands : s.Stands false block)
      (leaves : s.loopKeyword? = some keyword) (noLoop : place.loopDepth = 0) :
      Misplaced place block ⟨.outsideLoop keyword, s.note⟩
  | returns {location : Location} {value : Expr Location} {inLoop : Bool}
      (stands : (Stmt.return location value).Stands inLoop block) (top : place.topLevel = true) :
      Misplaced place block ⟨.returnOutsideFunction, location⟩

/-- A refusal for a statement of a block is one for a statement of what the block stands in. -/
theorem Misplaced.within {block around : List (Stmt Location)}
    (h : ∀ (s : Stmt Location) inLoop, s.Stands inLoop block → s.Stands inLoop around)
    (diagnostic : Diagnostic) (hblock : Misplaced place block diagnostic) :
    Misplaced place around diagnostic := by
  cases hblock with
  | outsideLoop stands leaves noLoop => exact .outsideLoop (h _ _ stands) leaves noLoop
  | returns stands top => exact .returns (h _ _ stands) top

/-- In a loop breaks and continues may stand, and so it is refused for nothing but returns. -/
theorem Misplaced.ofLoop {block around : List (Stmt Location)}
    (h : ∀ (s : Stmt Location) inLoop, s.Stands inLoop block → s.Stands true around)
    (diagnostic : Diagnostic) (hblock : Misplaced place.inLoop block diagnostic) :
    Misplaced place around diagnostic := by
  cases hblock with
  | outsideLoop stands leaves noLoop => nomatch noLoop
  | returns stands top => exact .returns (h _ _ stands) top

/-- The state of a body is as the place says. -/
theorem locals_blames {next : Locals → Check β}
    (h : ∀ locals, locals.topLevel = place.topLevel → locals.loopDepth = place.loopDepth →
      Blames (At place) kind (next locals)) : Blames (At place) kind (Check.locals >>= next) :=
  fun context hat => h context.locals hat.topLevel hat.loopDepth context hat

/-- Noting what is returned refuses nothing. -/
theorem setActualRet_blames (ret : Ty) : Blames (At place) kind (setActualRet ret) :=
  fun _ hat => ⟨.ok _, hat.topLevel, hat.loopDepth⟩

/-- In the body of a loop, the place is one loop deeper. -/
theorem inLoop_blames {check : Check α} (h : Blames (At place.inLoop) kind check) :
    Blames (At place) kind (Check.inLoop check) := by
  intro context hat
  obtain ⟨hfaults, hafter⟩ :=
    h context.enterLoop ⟨hat.topLevel, congrArg Nat.succ hat.loopDepth⟩
  rw [outcome_inLoop]
  exact ⟨hfaults, hafter.topLevel, congrArg Nat.pred hafter.loopDepth⟩

/-- The target of an assignment is refused if it is not bound. -/
theorem targetType_blames (location : Location) (name : String) :
    Blames (At place) kind (targetType location name) :=
  Blames.get.bind fun _ => .lift (.demand rfl)

/-- A statement that is allowed in loops only is refused where there is none. -/
theorem expectInLoop_blames {s : Stmt Location} {keyword : String}
    (h : s.loopKeyword? = some keyword) :
    Blames (At place) (Misplaced place [s]) (expectInLoop keyword s.note) := by
  refine locals_blames fun locals _ hdepth => .require fun hloop => ?_
  have hnone : ¬ 0 < locals.loopDepth := of_decide_eq_false hloop
  exact .outsideLoop (.here (List.mem_singleton_self s)) h (by omega)

mutual

/-- A statement is refused for matters of types, or for a statement in it that is misplaced. -/
theorem checkStmt_blames (s : Stmt Location) {place : Place} :
    Blames (At place) (Misplaced place [s]) (checkStmt s) := by
  match s with
  | .assign location name value =>
    rw [checkStmt]
    exact (checkExpr_blames value).bind fun _ => (targetType_blames location name).bind fun _ =>
      (lift (storable_faults ..)).bind fun _ => .pure _
  | .fieldAssign location object field value =>
    rw [checkStmt]
    exact (checkExpr_blames object).bind fun _ => (checkExpr_blames value).bind fun _ =>
      envRule_blames (fun _ => fieldType_faults ..) fun _ =>
      (lift (storable_faults ..)).bind fun _ => .pure _
  | .indexAssign location object position value =>
    rw [checkStmt]
    refine (checkExpr_blames object).bind fun object => (checkExpr_blames position).bind fun _ =>
      (checkExpr_blames value).bind fun _ => (lift (expectIndex_faults _)).bind fun _ => ?_
    split
    · exact (lift (storable_faults ..)).bind fun _ => .pure _
    · exact .refuseHere rfl
  | .expr location value =>
    rw [checkStmt]
    exact (checkExpr_blames value).bind fun _ => .pure _
  | .return location value =>
    rw [checkStmt]
    refine locals_blames fun locals htop _ => (Blames.require fun hplace => ?_).bind fun _ =>
      (checkExpr_blames value).bind fun _ => locals_blames fun _ _ _ =>
      (lift (.require rfl)).bind fun _ => (setActualRet_blames _).bind fun _ => .pure _
    have hwhere : locals.topLevel = true := by simpa using hplace
    exact .returns (.here (List.mem_singleton_self _)) (htop ▸ hwhere)
  | .cond location condition body otherwise =>
    rw [checkStmt]
    have onBody : Blames (At place) (Misplaced place [.cond location condition body otherwise])
        (checkBlock body) := (checkBlock_blames body).mono
      (Misplaced.within fun _ _ => .condBody (List.mem_singleton_self _))
    have onOtherwise : Blames (At place) (Misplaced place [.cond location condition body otherwise])
        (checkBlock otherwise) := (checkBlock_blames otherwise).mono
      (Misplaced.within fun _ _ => .condOtherwise (List.mem_singleton_self _))
    exact (checkExpr_blames condition).bind fun _ => (lift (expectBool_faults _)).bind fun _ =>
      onBody.bind fun _ => locals_blames fun _ _ _ => (setActualRet_blames _).bind fun _ =>
      onOtherwise.bind fun _ => locals_blames fun _ _ _ => (setActualRet_blames _).bind fun _ =>
      .pure _
  | .while location condition body =>
    rw [checkStmt]
    have onBody : Blames (At place.inLoop) (Misplaced place [.while location condition body])
        (checkBlock body) := (checkBlock_blames body).mono
      (Misplaced.ofLoop fun _ _ => .whileBody (List.mem_singleton_self _))
    exact (checkExpr_blames condition).bind fun _ => (lift (expectBool_faults _)).bind fun _ =>
      (inLoop_blames onBody).bind fun _ => .pure _
  | .for location item iterable body otherwise =>
    rw [checkStmt]
    have onBody : Blames (At place.inLoop)
        (Misplaced place [.for location item iterable body otherwise]) (checkBlock body) :=
      (checkBlock_blames body).mono
        (Misplaced.ofLoop fun _ _ => .forBody (List.mem_singleton_self _))
    have onOtherwise : Blames (At place)
        (Misplaced place [.for location item iterable body otherwise]) (checkBlock otherwise) :=
      (checkBlock_blames otherwise).mono
        (Misplaced.within fun _ _ => .forOtherwise (List.mem_singleton_self _))
    exact (checkExpr_blames iterable).bind fun _ =>
      envRule_blames (fun _ => expectIterable_faults ..) fun _ =>
      (targetType_blames location item).bind fun _ => (lift (storable_faults ..)).bind fun _ =>
      (inLoop_blames onBody).bind fun _ => onOtherwise.bind fun _ => .pure _
  | .pass location =>
    rw [checkStmt]
    exact .pure _
  | .continue location =>
    rw [checkStmt]
    exact (expectInLoop_blames (s := .continue location) rfl).bind fun _ => .pure _
  | .break location =>
    rw [checkStmt]
    exact (expectInLoop_blames (s := .break location) rfl).bind fun _ => .pure _

/-- Statements in a row are refused for types, or for one that is misplaced among them. -/
theorem checkBlock_blames (block : List (Stmt Location)) {place : Place} :
    Blames (At place) (Misplaced place block) (checkBlock block) := by
  match block with
  | [] =>
    rw [checkBlock]
    exact .pure _
  | first :: rest =>
    rw [checkBlock]
    have onFirst : Blames (At place) (Misplaced place (first :: rest)) (checkStmt first) :=
      (checkStmt_blames first).mono (Misplaced.within fun _ _ => .mono (by simp))
    have onRest : Blames (At place) (Misplaced place (first :: rest)) (checkBlock rest) :=
      (checkBlock_blames rest).mono (Misplaced.within fun _ _ => .mono (List.subset_cons_self ..))
    exact onFirst.bind fun _ => onRest.bind fun _ => .pure _

end

end Bodies

/-! ## Declarations and programs -/

section Declarations

open Blames

variable {program : Program Location}

/-- A statement of a body is refused as a statement of the program. -/
theorem Misplaced.inProgram {place : Place} {ret? : Option Ty} {block : List (Stmt Location)}
    (hbody : program.HasBody ret? block) (htop : place.topLevel = true → block = program.stmts)
    (diagnostic : Diagnostic) (h : Misplaced place block diagnostic) :
    program.Misplaces diagnostic := by
  cases h with
  | outsideLoop stands leaves noLoop => exact .outsideLoop hbody stands leaves
  | returns stands top => exact .returns (htop top ▸ stands)

/-- Between declarations a checker is in no state that matters. -/
abbrev Anywhere (_ : Checker) : Prop := True

/-- A body is refused for what its check refuses at the place of the body. -/
theorem inBody_blames {kind : Diagnostic → Prop} {check : Check α} (place : Place)
    (locals : Locals) (hplace : ∀ checker, At place ⟨checker, locals⟩)
    (h : Blames (At place) kind check) : Blames Anywhere kind (inBody locals check) :=
  fun checker _ => ⟨(h ⟨checker, locals⟩ (hplace checker)).1, trivial⟩

/-- A function is refused for types, or for a statement misplaced in its body. -/
theorem checkFunDef_blames {ret? : Option Ty} {fn : FunDef Location}
    (hbody : program.HasBody ret? fn.body) :
    Blames Anywhere program.Misplaces (checkFunDef fn) := by
  refine (lift (checkInits_faults fn.inits)).bind fun _ =>
    (inBody_blames ⟨false, 0⟩ (bodyLocals fn) (fun _ => ⟨rfl, rfl⟩) ?_).bind fun _ => .pure _
  have onBlock : Blames (At ⟨false, 0⟩) program.Misplaces (checkBlock fn.body) :=
    (checkBlock_blames fn.body).mono (Misplaced.inProgram hbody (by simp))
  exact onBlock.bind fun _ => locals_blames fun _ _ _ =>
    (lift (.require rfl)).bind fun _ => .pure _

/-- A class is refused for types, or for a statement misplaced in one of its methods. -/
theorem checkClassDef_blames {cls : ClassDef Location} (hcls : cls ∈ program.classes) :
    Blames Anywhere program.Misplaces (checkClassDef cls) :=
  (lift (checkInits_faults cls.fields)).bind fun _ =>
    (Blames.mapM fun _ hmem => checkFunDef_blames (.method hcls hmem)).bind fun _ =>
    (lift (.require rfl)).bind fun _ => .pure _

/-- The top level is refused for types, or for a statement misplaced there. -/
theorem checkTop_blames (program : Program Location) :
    Blames Anywhere program.Misplaces (checkTop program.stmts) := by
  refine (inBody_blames ⟨true, 0⟩ .top (fun _ => ⟨rfl, rfl⟩) ?_).bind fun _ =>
    Blames.bind (fun _ _ => ⟨.ok _, trivial⟩) fun _ => .pure _
  have onBlock : Blames (At ⟨true, 0⟩) program.Misplaces (checkBlock program.stmts) :=
    (checkBlock_blames program.stmts).mono (Misplaced.inProgram .top fun _ => rfl)
  exact onBlock.bind fun _ => locals_blames fun _ _ _ => .pure _

/-- The parts of a program are refused for types, or for a statement misplaced in one. -/
theorem checkParts_blames (program : Program Location) :
    Blames Anywhere program.Misplaces (checkParts program) :=
  (lift (checkInits_faults program.inits)).bind fun _ =>
    (Blames.mapM fun _ hmem => checkFunDef_blames (.function hmem)).bind fun _ =>
    (Blames.mapM fun _ hmem => checkClassDef_blames hmem).bind fun _ =>
    (checkTop_blames program).bind fun _ => .pure _

end Declarations

/-- Whatever it knows, a checker refuses a program for matters of types, or for a statement of it
that is misplaced. -/
theorem check_refuses_for (checker : Checker) (program : Program Location) :
    Faults (fun diagnostic => OfTypes diagnostic ∨ program.Misplaces diagnostic)
      (checker.check program).1 := by
  have hparts :=
    (checkParts_blames program { checker with env := checker.env.augment program } trivial).1
  unfold outcome at hparts
  unfold Checker.check
  split
  · exact .ok _
  · next hrun =>
    rw [hrun] at hparts
    exact hparts

/-- The causes belong to the stage of types. -/
theorem check_blames (checker : Checker) (program : Program Location) :
    Faults (fun diagnostic => diagnostic.cause.stage = .typeCheck) (checker.check program).1 := by
  refine (check_refuses_for checker program).mono fun diagnostic h => ?_
  rcases h with htypes | hmisplaced
  · exact Cause.stage_of_ofTypes htypes
  · cases hmisplaced <;> rfl

end Typing
end Offside
