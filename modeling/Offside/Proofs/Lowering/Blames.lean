import Offside.Lowering.Declarations
import Offside.Proofs.Runs

/-!
# What walks blame a tree for

Wherever a walk starts, and whatever tree it walks over, it refuses the source only for what is
wrong with its text, never for a matter of types.  The causes are written at the places where a
walk refuses, so this is a statement about every place: what is made of two walks in a row blames
the source for what one of them does, and the rest follows the definitions of the walks.

Main definitions:

- `Failure.BelongsTo`: a refusal is for a cause of a stage.
- `Walk.Blames`: a walk blames the source for its text alone.

Main results:

- Theorem `Walk.Blames.bind`: walks in a row.
- Theorems `expr_blames`, `stmt_blames` and `program_blames`: expressions, statements and programs.
-/

namespace Offside

/-- A refusal is for a cause that belongs to a stage; the other failures are no refusals. -/
def Failure.BelongsTo (stage : Stage) : Failure → Prop
  | .refused diagnostic => diagnostic.cause.stage = stage
  | .offBoundary | .unfinished => True

namespace Walk

variable {α β : Type}

/-- From wherever it starts, a walk blames the source for its text alone. -/
def Blames (walk : Walk α) : Prop :=
  ∀ c, Meets (Failure.BelongsTo .parse) walk c fun _ _ => True

namespace Blames

/-- A walk that only gives a value refuses nothing. -/
theorem pure (value : α) : Blames (Pure.pure value) := fun _ => Meets.pure trivial

/-- A walk that fails blames the source for its text if the failure does. -/
theorem throw {failure : Failure} (h : failure.BelongsTo .parse) :
    Blames (MonadExcept.throw failure : Walk α) := fun _ => Meets.throw h

/-- Two walks in a row blame the source for what one of them does. -/
theorem bind {walk : Walk α} {next : α → Walk β} (h : walk.Blames)
    (hnext : ∀ value, (next value).Blames) : (walk >>= next).Blames :=
  fun c => (h c).bind fun value middle _ => hnext value middle

/-- Of two walks one is chosen, and blames the source as it would alone. -/
theorem ite {condition : Prop} [Decidable condition] {walk other : Walk α} (h : walk.Blames)
    (hother : other.Blames) : (if condition then walk else other).Blames := by
  split
  · exact h
  · exact hother

end Blames

/-! ## Moves and looks -/

/-- Moves refuse nothing. -/
theorem go_blames (move : Move) : (go move).Blames := by
  intro c
  unfold Meets go
  cases move.target? c <;> trivial

/-- Entering a node refuses nothing. -/
theorem enter_blames : enter.Blames := (go_blames _).bind fun _ => .pure _

/-- Stepping on refuses nothing, also where there is no next sibling. -/
theorem step_blames : step.Blames := (go_blames _).bind fun _ => .pure _

/-- Going back refuses nothing. -/
theorem leave_blames : leave.Blames := (go_blames _).bind fun _ => .pure _

/-- A look at the kind of a node refuses nothing. -/
theorem kind_blames : kind.Blames := fun _ => trivial

/-- A test for the kind of a node refuses nothing. -/
theorem isAt_blames (kind : SyntaxKind) : (isAt kind).Blames := fun _ => trivial

/-- Two tests in turn refuse what one of them does. -/
theorem andAlso_blames {first second : Walk Bool} (h : first.Blames) (hsecond : second.Blames) :
    (andAlso first second).Blames :=
  h.bind fun _ => .ite hsecond (.pure _)

/-- A repetition blames the source for what its walks do. -/
theorem collect_blames {stop : Walk Bool} {item : Walk (List α)} (hstop : stop.Blames)
    (hitem : item.Blames) (limit : Nat) : (collect stop item limit).Blames := by
  induction limit with
  | zero => exact .throw trivial
  | succ limit ih =>
    refine (go_blames _).bind fun _ => .ite (hstop.bind fun _ => .ite (.pure _) ?_) (.pure _)
    exact hitem.bind fun _ => ih.bind fun _ => .pure _

end Walk

namespace Lowering

open Walk

variable {α : Type} (l : Lowering)

/-- The text of a node is read without a refusal, even where its span is none of the source. -/
theorem text_blames : l.text.Blames := fun _ => trivial

/-- Where a node cannot be located, the walk breaks off; that is no refusal. -/
theorem location_blames : l.location.Blames := by
  intro c
  have hlocate : l.location c =
      (Outcome.locate l.source c.node.span.start).bind fun location => .ok (location, c) := rfl
  unfold Meets
  rw [hlocate, Outcome.locate]
  cases Source.location? l.source c.node.span.start <;> trivial

variable {l}

/-- A refusal at a location blames the source for its text if its cause is of this kind. -/
theorem refuseAt_blames {cause : Cause} (h : cause.stage = .parse) (location : Location) :
    (refuseAt location cause : Walk α).Blames :=
  .throw h

/-- So does a refusal at the node under the cursor. -/
theorem refuse_blames {cause : Cause} (h : cause.stage = .parse) :
    (l.refuse cause : Walk α).Blames :=
  l.location_blames.bind (refuseAt_blames h)

variable (l)

/-- A test for a keyword or mark refuses nothing. -/
theorem isToken_blames (word : String) : (l.isToken word).Blames :=
  kind_blames.bind fun _ => .ite (l.text_blames.bind fun _ => .pure _) (.pure _)

/-- Stepping to a keyword or mark refuses nothing. -/
theorem stepTo_blames (word : String) : (l.stepTo word).Blames :=
  andAlso_blames (go_blames _) (l.isToken_blames word)

/-- The list up to a closing bracket is refused only for an item in it. -/
theorem listUntil_blames (closing : String) {item : Walk (List α)} (hitem : item.Blames) :
    (l.listUntil closing item).Blames :=
  collect_blames (l.isToken_blames closing)
    ((l.isToken_blames ",").bind fun _ => .ite (.pure _) hitem) _

/-! ## Types -/

/-- The refusal of a node as a type is kept for later. -/
theorem invalidType_bind_blames {next : Failure → Walk α}
    (h : ∀ text location, (next (.refused ⟨.invalidType text, location⟩)).Blames) :
    (l.invalidType >>= next).Blames := by
  have hwalk : l.invalidType >>= next = l.text >>= fun text => l.location >>= fun location =>
      next (.refused ⟨.invalidType text, location⟩) := by
    simp only [invalidType, bind_assoc, pure_bind]
  rw [hwalk]
  exact l.text_blames.bind fun text => l.location_blames.bind (h text)

/-- A type is refused for its shape, or for a type inside. -/
theorem tyWith_blames {inner : Walk Ty} (hinner : inner.Blames) : (l.tyWith inner).Blames := by
  refine kind_blames.bind fun kind => ?_
  split
  · exact l.text_blames.bind fun _ => .pure _
  · exact .pure _
  · refine invalidType_bind_blames l fun text location => ?_
    have hthrow : (throw (Failure.refused ⟨.invalidType text, location⟩) : Walk Ty).Blames :=
      .throw rfl
    refine enter_blames.bind fun _ => (go_blames _).bind fun _ => .ite ?_ ?_
    · exact leave_blames.bind fun _ => hthrow
    · refine (l.isToken_blames _).bind fun _ => .ite (leave_blames.bind fun _ => hthrow) ?_
      exact hinner.bind fun _ => (l.stepTo_blames _).bind fun _ => leave_blames.bind fun _ =>
        .ite (.pure _) hthrow
  · refine invalidType_bind_blames l fun text location => ?_
    refine enter_blames.bind fun _ => l.text_blames.bind fun _ =>
      (andAlso_blames (isAt_blames _) (l.stepTo_blames _)).bind fun _ => .ite ?_ ?_
    · exact (l.listUntil_blames _ (hinner.bind fun _ => .pure _)).bind fun _ =>
        leave_blames.bind fun _ => .pure _
    · exact leave_blames.bind fun _ => .throw rfl
  · exact invalidType_bind_blames l fun _ _ => .throw rfl

/-- Types inside one another are refused for their shapes alone. -/
theorem tyWithin_blames (fuel : Nat) : (l.tyWithin fuel).Blames := by
  induction fuel with
  | zero => exact .throw trivial
  | succ fuel ih => exact l.tyWith_blames ih

/-- What is written as a type is refused only for the way in which it is written. -/
theorem ty_blames : l.ty.Blames := l.tyWithin_blames l.limit

/-- The type behind a colon or an arrow is refused as a type. -/
theorem typeDef_blames : l.typeDef.Blames :=
  enter_blames.bind fun _ => step_blames.bind fun _ => l.ty_blames.bind fun _ =>
    leave_blames.bind fun _ => .pure _

/-! ## Expressions -/

/-- The text of a callee is read without a refusal. -/
theorem calleeText_blames : l.calleeText.Blames :=
  (go_blames _).bind fun _ => .ite
    (l.text_blames.bind fun _ => leave_blames.bind fun _ => .pure _) (.pure _)

/-- A literal is refused if it is none, or if its number is out of range. -/
theorem literal_blames : l.literal.Blames := by
  refine l.location_blames.bind fun a => l.text_blames.bind fun text => kind_blames.bind fun _ => ?_
  split
  · split
    · exact .pure _
    · exact refuse_blames rfl
  · exact .pure _
  · exact .pure _
  · exact l.calleeText_blames.bind fun _ => .ite (.pure _) (refuse_blames rfl)
  · exact refuse_blames rfl

/-- The look ahead for type arguments refuses nothing. -/
theorem areTypes_blames (limit : Nat) (found : Bool) : (l.areTypes limit found).Blames := by
  induction limit generalizing found with
  | zero => exact .throw trivial
  | succ limit ih =>
    refine (go_blames _).bind fun _ => .ite ?_ (.pure _)
    refine (l.isToken_blames _).bind fun _ => .ite (.pure _) (kind_blames.bind fun kind => ?_)
    split
    · exact ih true
    · exact ih true
    · exact ih true
    · exact (l.isToken_blames _).bind fun _ => .ite (ih found) (.pure _)
    · exact .pure _

/-- A callee with type arguments is refused for one of them. -/
theorem genericCallee_blames : l.genericCallee.Blames := by
  refine (andAlso_blames (isAt_blames _) (go_blames _)).bind fun _ => .ite ?_ (.pure _)
  have hgeneric := andAlso_blames (andAlso_blames (isAt_blames .variableName) (l.stepTo_blames "["))
    (l.areTypes_blames l.limit false)
  refine l.text_blames.bind fun _ => hgeneric.bind fun _ => leave_blames.bind fun _ =>
    .ite ?_ (.pure _)
  exact enter_blames.bind fun _ => step_blames.bind fun _ =>
    (l.listUntil_blames _ (l.ty_blames.bind fun _ => .pure _)).bind fun _ =>
      leave_blames.bind fun _ => .pure _

/-- The call of a builtin function is refused for the number of its arguments. -/
theorem callOfName_blames (a : Location) (name : String) (arguments : List (Expr Location)) :
    (callOfName a name arguments).Blames := by
  unfold callOfName
  refine .ite ?_ (.ite ?_ (.pure _))
  · split
    · exact .pure _
    · exact refuseAt_blames rfl a
  · split
    · exact .pure _
    · exact refuseAt_blames rfl a

section Parts

variable {l} {inner : Walk (Expr Location)} (hinner : inner.Blames)

include hinner

/-- Arguments are refused for one of them. -/
theorem argumentsWith_blames : (l.argumentsWith inner).Blames := by
  refine (go_blames _).bind fun _ => .ite ?_ (.pure _)
  exact (l.listUntil_blames _ (hinner.bind fun _ => .pure _)).bind fun _ =>
    leave_blames.bind fun _ => .pure _

/-- A call is refused for its callee, or for an argument. -/
theorem call_blames : (l.call inner).Blames := by
  refine l.location_blames.bind fun a => enter_blames.bind fun _ =>
    l.genericCallee_blames.bind fun generic => ?_
  split
  · exact step_blames.bind fun _ => (argumentsWith_blames hinner).bind fun _ =>
      leave_blames.bind fun _ => .pure _
  · refine hinner.bind fun callee => l.text_blames.bind fun _ => ?_
    split
    · exact leave_blames.bind fun _ => .pure _
    · refine step_blames.bind fun _ => (argumentsWith_blames hinner).bind fun arguments =>
        leave_blames.bind fun _ => ?_
      split
      · exact .pure _
      · exact callOfName_blames a _ arguments
      · exact refuseAt_blames rfl _

/-- Elements are refused for one of them, or for what stands between them. -/
theorem elements_blames (limit : Nat) : (l.elements inner limit).Blames := by
  induction limit with
  | zero => exact .throw trivial
  | succ limit ih =>
    refine (go_blames _).bind fun _ => .ite ?_ (.pure _)
    refine (l.isToken_blames _).bind fun _ => .ite (.pure _) ?_
    refine (l.isToken_blames _).bind fun _ => .ite (refuse_blames rfl) ?_
    refine hinner.bind fun _ => (go_blames _).bind fun _ => .ite ?_ (.pure _)
    refine (l.isToken_blames _).bind fun _ => .ite (.pure _) ?_
    refine (l.isToken_blames _).bind fun _ => .ite (ih.bind fun _ => .pure _) ?_
    exact l.text_blames.bind fun _ => refuse_blames rfl

/-- A list is refused for its elements, or for the missing bracket at its end. -/
theorem list_blames : (l.list inner).Blames :=
  l.location_blames.bind fun a => enter_blames.bind fun _ =>
    (elements_blames hinner l.limit).bind fun _ => leave_blames.bind fun _ =>
      .ite (.pure _) (refuseAt_blames rfl a)

/-- What is inside of the brackets of an index is refused for the index alone. -/
theorem indexParts_blames (limit : Nat) (parts : IndexParts) :
    (l.indexParts inner limit parts).Blames := by
  induction limit generalizing parts with
  | zero => exact .throw trivial
  | succ limit ih =>
    refine (go_blames _).bind fun _ => .ite ?_ (.pure _)
    refine (l.isToken_blames _).bind fun _ => .ite (.pure _) ?_
    refine (l.isToken_blames _).bind fun _ => .ite (ih _) ?_
    refine (l.isToken_blames _).bind fun _ => .ite (ih _) ?_
    exact .ite (hinner.bind fun _ => ih _) (ih _)

/-- A member is refused for its object, its index or the shape of the brackets. -/
theorem member_blames (a : Location) : (l.member inner a).Blames := by
  refine enter_blames.bind fun _ => hinner.bind fun object => step_blames.bind fun _ => ?_
  refine (l.isToken_blames _).bind fun _ => .ite ?_ ?_
  · exact step_blames.bind fun _ => l.text_blames.bind fun _ => leave_blames.bind fun _ => .pure _
  · refine (l.isToken_blames _).bind fun _ => .ite ?_ ?_
    · refine (indexParts_blames hinner l.limit {}).bind fun parts => leave_blames.bind fun _ => ?_
      refine .ite (refuseAt_blames rfl a) (.ite (refuseAt_blames rfl a) ?_)
      split
      · exact .ite (refuseAt_blames rfl a) (.pure _)
      · exact refuseAt_blames rfl a
    · exact l.text_blames.bind fun _ => refuse_blames rfl

/-- The end of a comprehension is refused for its filter. -/
theorem comprehensionEnd_blames : (l.comprehensionEnd inner).Blames := by
  refine (go_blames _).bind fun _ => .ite ?_ (.pure _)
  refine (l.isToken_blames _).bind fun _ => .ite ?_ (l.text_blames.bind fun _ => .pure _)
  exact step_blames.bind fun _ => hinner.bind fun _ => (go_blames _).bind fun _ =>
    .ite (l.text_blames.bind fun _ => .pure _) (.pure _)

/-- A comprehension is refused for its parts, or for brackets that do not match. -/
theorem comprehension_blames (a : Location) : (l.comprehension inner a).Blames := by
  refine enter_blames.bind fun _ => l.text_blames.bind fun opening => step_blames.bind fun _ =>
    hinner.bind fun result => step_blames.bind fun _ => step_blames.bind fun _ =>
    l.text_blames.bind fun item => step_blames.bind fun _ => step_blames.bind fun _ =>
    hinner.bind fun iterable => (comprehensionEnd_blames hinner).bind fun ends =>
    leave_blames.bind fun _ => ?_
  rcases ends with ⟨filter, closing⟩
  dsimp only
  split
  · exact .pure _
  · exact refuseAt_blames rfl a

/-- Parentheses are refused for what they enclose, or because they are not closed. -/
theorem parenthesized_blames (a : Location) : (l.parenthesized inner a).Blames :=
  enter_blames.bind fun _ => step_blames.bind fun _ => hinner.bind fun _ =>
    (l.stepTo_blames _).bind fun _ => leave_blames.bind fun _ =>
      .ite (.pure _) (refuseAt_blames rfl a)

/-- A binary operation is refused for its operator or an operand. -/
theorem binary_blames (a : Location) : (l.binary inner a).Blames := by
  refine enter_blames.bind fun _ => hinner.bind fun _ => step_blames.bind fun _ =>
    l.text_blames.bind fun text => ?_
  split
  · exact step_blames.bind fun _ => hinner.bind fun _ => leave_blames.bind fun _ => .pure _
  · exact refuse_blames rfl

/-- A unary operation is refused for its operator or its operand. -/
theorem unary_blames (a : Location) : (l.unary inner a).Blames := by
  refine enter_blames.bind fun _ => l.text_blames.bind fun text => ?_
  split
  · exact step_blames.bind fun _ => hinner.bind fun _ => leave_blames.bind fun _ => .pure _
  · exact refuse_blames rfl

/-- A conditional expression is refused for one of its parts. -/
theorem conditional_blames (a : Location) : (conditional inner a).Blames :=
  enter_blames.bind fun _ => hinner.bind fun _ => step_blames.bind fun _ =>
    step_blames.bind fun _ => hinner.bind fun _ => step_blames.bind fun _ =>
    step_blames.bind fun _ => hinner.bind fun _ => leave_blames.bind fun _ => .pure _

/-- An expression is refused for its shape, or for an expression inside. -/
theorem exprWith_blames : (l.exprWith inner).Blames := by
  refine l.location_blames.bind fun a => kind_blames.bind fun kind => ?_
  split
  · exact l.literal_blames.bind fun _ => .pure _
  · exact l.literal_blames.bind fun _ => .pure _
  · exact l.literal_blames.bind fun _ => .pure _
  · exact l.text_blames.bind fun _ => .pure _
  · exact call_blames hinner
  · exact list_blames hinner
  · exact binary_blames hinner a
  · exact unary_blames hinner a
  · exact parenthesized_blames hinner a
  · exact member_blames hinner a
  · exact conditional_blames hinner a
  · exact comprehension_blames hinner a
  · exact comprehension_blames hinner a
  · exact comprehension_blames hinner a
  · exact l.text_blames.bind fun _ => refuse_blames rfl

end Parts

/-- Expressions inside one another are refused for their shapes alone. -/
theorem exprWithin_blames (fuel : Nat) : (l.exprWithin fuel).Blames := by
  induction fuel with
  | zero => exact .throw trivial
  | succ fuel ih => exact exprWith_blames ih

/-- What is written as an expression is refused for its text alone. -/
theorem expr_blames : l.expr.Blames := l.exprWithin_blames l.limit

/-! ## Statements -/

/-- A block is refused if no colon opens it. -/
theorem openBody_blames (owner : Location) : (l.openBody owner).Blames := by
  refine (andAlso_blames (isAt_blames _) (go_blames _)).bind fun _ =>
    .ite ?_ (refuseAt_blames rfl owner)
  exact (l.isToken_blames _).bind fun _ =>
    .ite (.pure _) (leave_blames.bind fun _ => refuseAt_blames rfl owner)

/-- A return is refused for its value. -/
theorem returnStatement_blames (a : Location) : (l.returnStatement a).Blames := by
  have hend (value : Expr Location) : (do leave; return Stmt.return a value).Blames :=
    leave_blames.bind fun _ => .pure _
  exact enter_blames.bind fun _ => (go_blames _).bind fun _ =>
    .ite (l.expr_blames.bind hend) ((Blames.pure _).bind hend)

/-- An assignment is refused for its target, its value, or because it declares something too late.
-/
theorem assignStatement_blames (a : Location) : (l.assignStatement a).Blames := by
  refine enter_blames.bind fun _ => l.text_blames.bind fun text => l.expr_blames.bind fun target =>
    step_blames.bind fun _ => (isAt_blames _).bind fun _ => .ite ?_ ?_
  · exact leave_blames.bind fun _ => refuseAt_blames rfl a
  · refine step_blames.bind fun _ => l.expr_blames.bind fun _ => leave_blames.bind fun _ => ?_
    split
    · exact .pure _
    · exact .pure _
    · exact .pure _
    · exact refuseAt_blames rfl a

/-- An expression as a statement is refused as an expression. -/
theorem expressionStatement_blames (a : Location) : (l.expressionStatement a).Blames :=
  enter_blames.bind fun _ => l.expr_blames.bind fun _ => leave_blames.bind fun _ => .pure _

section Parts

variable {l} {inner : Walk (Stmt Location)} (hinner : inner.Blames)

include hinner

/-- A block is refused for a statement in it, or for the colon. -/
theorem blockWith_blames (owner : Location) : (l.blockWith inner owner).Blames :=
  (l.openBody_blames owner).bind fun _ =>
    (collect_blames (.pure false) (hinner.bind fun _ => .pure _) l.limit).bind fun _ =>
      leave_blames.bind fun _ => .pure _

/-- The branches behind the first one are refused for their conditions and blocks. -/
theorem ifTail_blames (limit : Nat) (owner : Location) : (l.ifTail inner limit owner).Blames := by
  induction limit generalizing owner with
  | zero => exact .throw trivial
  | succ limit ih =>
    refine (go_blames _).bind fun _ => .ite ?_ (.pure _)
    refine (l.isToken_blames _).bind fun _ => .ite ?_ ?_
    · exact step_blames.bind fun _ => blockWith_blames hinner owner
    · refine (l.isToken_blames _).bind fun _ => .ite ?_ ?_
      · exact l.location_blames.bind fun a => step_blames.bind fun _ => l.expr_blames.bind fun _ =>
          step_blames.bind fun _ => (blockWith_blames hinner a).bind fun _ => (ih a).bind fun _ =>
          .pure _
      · exact l.text_blames.bind fun _ => refuse_blames rfl

/-- A conditional is refused for its conditions and blocks. -/
theorem ifStatement_blames (a : Location) : (l.ifStatement inner a).Blames :=
  enter_blames.bind fun _ => step_blames.bind fun _ => l.expr_blames.bind fun _ =>
    step_blames.bind fun _ => (blockWith_blames hinner a).bind fun _ =>
    (ifTail_blames hinner l.limit a).bind fun _ => leave_blames.bind fun _ => .pure _

/-- A loop is refused for its condition or its block. -/
theorem whileStatement_blames (a : Location) : (l.whileStatement inner a).Blames :=
  enter_blames.bind fun _ => step_blames.bind fun _ => l.expr_blames.bind fun _ =>
    step_blames.bind fun _ => (blockWith_blames hinner a).bind fun _ =>
    leave_blames.bind fun _ => .pure _

/-- A loop over elements is refused for its variable, its iterable or its blocks. -/
theorem forStatement_blames (a : Location) : (l.forStatement inner a).Blames := by
  refine enter_blames.bind fun _ => step_blames.bind fun _ => (isAt_blames _).bind fun _ =>
    .ite ?_ (l.text_blames.bind fun _ => refuse_blames rfl)
  refine l.text_blames.bind fun item => step_blames.bind fun _ => step_blames.bind fun _ =>
    l.expr_blames.bind fun iterable => step_blames.bind fun _ =>
    (blockWith_blames hinner a).bind fun body => (l.stepTo_blames _).bind fun _ => ?_
  have hend (otherwise : List (Stmt Location)) :
      (do leave; return Stmt.for a item iterable body otherwise).Blames :=
    leave_blames.bind fun _ => .pure _
  exact .ite (step_blames.bind fun _ => (blockWith_blames hinner a).bind hend)
    ((Blames.pure _).bind hend)

/-- A statement is refused for its shape, or for a statement inside. -/
theorem stmtWith_blames : (l.stmtWith inner).Blames := by
  refine l.location_blames.bind fun a => kind_blames.bind fun kind => ?_
  split
  · exact l.returnStatement_blames a
  · exact l.assignStatement_blames a
  · exact l.expressionStatement_blames a
  · exact ifStatement_blames hinner a
  · exact whileStatement_blames hinner a
  · exact forStatement_blames hinner a
  · exact .pure _
  · exact .pure _
  · exact .pure _
  · exact l.text_blames.bind fun _ => refuse_blames rfl

end Parts

/-- Statements inside one another are refused for their shapes alone. -/
theorem stmtWithin_blames (fuel : Nat) : (l.stmtWithin fuel).Blames := by
  induction fuel with
  | zero => exact .throw trivial
  | succ fuel ih => exact stmtWith_blames ih

/-- What is written as a statement is refused for its text alone. -/
theorem stmt_blames : l.stmt.Blames := l.stmtWithin_blames l.limit

/-! ## Variables and functions -/

/-- The look for a declaration of a variable refuses nothing. -/
theorem isVarInit_blames : isVarInit.Blames :=
  (andAlso_blames (isAt_blames _) (go_blames _)).bind fun _ => .ite
    ((andAlso_blames (go_blames _) (isAt_blames _)).bind fun _ =>
      leave_blames.bind fun _ => .pure _)
    (.pure _)

/-- A variable is refused for its name, its type or its first value. -/
theorem varInit_blames : l.varInit.Blames := by
  refine l.location_blames.bind fun a => enter_blames.bind fun _ =>
    l.text_blames.bind fun name => ?_
  have hrefuse : (refuseAt a (.invalidVarInit name) : Walk (VarInit Location)).Blames :=
    refuseAt_blames rfl a
  refine (isAt_blames _).bind fun _ => .ite ?_ hrefuse
  refine step_blames.bind fun _ => (isAt_blames _).bind fun _ => .ite ?_ hrefuse
  refine l.typeDef_blames.bind fun _ =>
    (andAlso_blames (l.stepTo_blames _) (go_blames _)).bind fun _ => .ite ?_ hrefuse
  exact l.literal_blames.bind fun _ => leave_blames.bind fun _ => .pure _

/-- Going on to the next sibling with a loop. -/
theorem next_bind_blames {β : Type} {loop : Bool → Walk α} {next : α → Walk β}
    (hloop : ∀ here, (loop here).Blames) (hnext : ∀ value, (next value).Blames) :
    (do next (← loop (← nextSibling))).Blames :=
  (go_blames _).bind fun here => (hloop here).bind hnext

/-- Declarations of variables in a row are refused for one of them. -/
theorem varInits_blames (limit : Nat) (here : Bool) : (l.varInits limit here).Blames := by
  induction limit generalizing here with
  | zero => exact .throw trivial
  | succ limit ih =>
    refine (andAlso_blames (.pure here) isVarInit_blames).bind fun _ => .ite ?_ (.pure _)
    exact l.varInit_blames.bind fun _ => next_bind_blames ih fun _ => .pure _

/-- Statements in a row are refused for one of them. -/
theorem stmts_blames (limit : Nat) (here : Bool) : (l.stmts limit here).Blames := by
  induction limit generalizing here with
  | zero => exact .throw trivial
  | succ limit ih =>
    exact .ite (l.stmt_blames.bind fun _ => next_bind_blames ih fun _ => .pure _) (.pure _)

/-- A parameter is refused for its type, also for a missing one. -/
theorem parameter_blames : l.parameter.Blames :=
  l.text_blames.bind fun _ => l.location_blames.bind fun a =>
    (andAlso_blames (go_blames _) (isAt_blames _)).bind fun _ =>
      .ite (l.typeDef_blames.bind fun _ => .pure _) (refuseAt_blames rfl a)

/-- Parameters are refused for one of them. -/
theorem parameters_blames : l.parameters.Blames := by
  refine (go_blames _).bind fun _ => .ite ?_ (.pure _)
  exact (l.listUntil_blames _ (l.parameter_blames.bind fun _ => .pure _)).bind fun _ =>
    leave_blames.bind fun _ => .pure _

/-- A function is refused for its parameters, its return type or its body. -/
theorem funDef_blames : l.funDef.Blames := by
  refine l.location_blames.bind fun a => enter_blames.bind fun _ => step_blames.bind fun _ =>
    l.text_blames.bind fun name => step_blames.bind fun _ =>
    l.parameters_blames.bind fun parameters => step_blames.bind fun _ =>
    (isAt_blames _).bind fun _ => ?_
  have hbody (ret : Ty) : (do
      l.openBody a
      let inits ← l.varInits l.limit (← nextSibling)
      let body ← l.stmts l.limit inits.2
      leave
      leave
      return FunDef.mk a name parameters ret inits.1 body).Blames :=
    (l.openBody_blames a).bind fun _ => next_bind_blames (l.varInits_blames l.limit) fun inits =>
      (l.stmts_blames l.limit inits.2).bind fun _ => leave_blames.bind fun _ =>
      leave_blames.bind fun _ => .pure _
  exact .ite (l.typeDef_blames.bind fun _ => step_blames.bind fun _ => (Blames.pure _).bind hbody)
    ((Blames.pure _).bind hbody)

/-! ## Classes -/

/-- Type parameters are refused for one that is no name. -/
theorem genericNames_blames : l.genericNames.Blames :=
  l.listUntil_blames _ <| (isAt_blames _).bind fun _ => .ite (l.text_blames.bind fun _ => .pure _)
    (l.text_blames.bind fun _ => refuse_blames rfl)

/-- A base class is refused if it is neither `object` nor `Generic`. -/
theorem base_blames : l.base.Blames := by
  refine kind_blames.bind fun kind => ?_
  split
  · have hnamed := andAlso_blames (isAt_blames .variableName)
      (l.text_blames.bind fun text => Blames.pure (decide (text = "Generic")))
    refine l.text_blames.bind fun _ => l.location_blames.bind fun a => enter_blames.bind fun _ =>
      (andAlso_blames hnamed (l.stepTo_blames _)).bind fun _ => .ite ?_ (refuseAt_blames rfl a)
    exact l.genericNames_blames.bind fun _ => leave_blames.bind fun _ => .pure _
  · exact l.text_blames.bind fun _ => .ite (.pure _) (refuse_blames rfl)
  · exact l.text_blames.bind fun _ => refuse_blames rfl

/-- Base classes are refused for one of them. -/
theorem generics_blames : l.generics.Blames := by
  refine (go_blames _).bind fun _ => .ite ?_ (.pure _)
  exact (l.listUntil_blames _ l.base_blames).bind fun _ => leave_blames.bind fun _ => .pure _

/-- What stands in the body of a class is refused if it is no member. -/
theorem classMember_blames (a : Location) (className : String) :
    (l.classMember a className).Blames := by
  refine isVarInit_blames.bind fun _ => .ite (l.varInit_blames.bind fun _ => .pure _) ?_
  refine (isAt_blames _).bind fun _ => .ite (l.funDef_blames.bind fun _ => .pure _) ?_
  exact (isAt_blames _).bind fun _ => .ite (.pure _) (refuseAt_blames rfl a)

/-- A class is refused for its bases or one of its members. -/
theorem classDef_blames : l.classDef.Blames := by
  refine l.location_blames.bind fun a => enter_blames.bind fun _ => step_blames.bind fun _ =>
    l.text_blames.bind fun name => step_blames.bind fun _ => (isAt_blames _).bind fun _ => ?_
  have hbody (generics : List String) : (do
      l.openBody a
      let members ← collect (pure false) (l.classMember a name) l.limit
      leave
      leave
      let methods := members.filterMap ClassMember.method?
      let constructors := if methods.any fun method => method.name = "__init__" then []
        else [defaultInit a name generics]
      return ClassDef.mk a name generics (members.filterMap ClassMember.field?)
        (methods ++ constructors)).Blames :=
    (l.openBody_blames a).bind fun _ =>
      (collect_blames (.pure false) (l.classMember_blames a name) l.limit).bind fun _ =>
      leave_blames.bind fun _ => leave_blames.bind fun _ => .pure _
  exact .ite (l.generics_blames.bind fun _ => step_blames.bind fun _ => (Blames.pure _).bind hbody)
    ((Blames.pure _).bind hbody)

/-! ## Programs -/

/-- A declaration is refused for what it declares. -/
theorem declaration_blames : l.declaration.Blames := by
  refine isVarInit_blames.bind fun _ => .ite (l.varInit_blames.bind fun _ => .pure _) ?_
  refine (isAt_blames _).bind fun _ => .ite (l.funDef_blames.bind fun _ => .pure _) ?_
  exact (isAt_blames _).bind fun _ => .ite (l.classDef_blames.bind fun _ => .pure _) (.pure _)

/-- Declarations in a row are refused for one of them. -/
theorem declarations_blames (limit : Nat) (here : Bool) : (l.declarations limit here).Blames := by
  induction limit generalizing here with
  | zero => exact .throw trivial
  | succ limit ih =>
    refine .ite (l.declaration_blames.bind ?_) ((Blames.pure _).bind ?_)
    all_goals
      rintro (_ | first)
      · exact .pure _
      · exact next_bind_blames ih fun _ => .pure _

/-- The name behind keywords is read without a refusal. -/
theorem nameBehindKeywords_blames (limit : Nat) : (l.nameBehindKeywords limit).Blames := by
  induction limit with
  | zero => exact .throw trivial
  | succ limit ih =>
    exact (andAlso_blames (isAt_blames _) (go_blames _)).bind fun _ => .ite ih l.text_blames

/-- So is the name that a declaration introduces. -/
theorem declaredName_blames : l.declaredName.Blames := by
  refine (go_blames _).bind fun _ => .ite ?_ (.pure _)
  exact (l.nameBehindKeywords_blames l.limit).bind fun _ => leave_blames.bind fun _ => .pure _

/-- A statement of a program is refused as a statement, or because it is a declaration that comes
too late. -/
theorem topStmt_blames : l.topStmt.Blames := by
  refine isVarInit_blames.bind fun _ => (isAt_blames _).bind fun _ => (isAt_blames _).bind fun _ =>
    .ite ?_ l.stmt_blames
  exact l.declaredName_blames.bind fun _ => refuse_blames rfl

/-- Statements of a program in a row are refused for one of them. -/
theorem topStmts_blames (limit : Nat) (here : Bool) : (l.topStmts limit here).Blames := by
  induction limit generalizing here with
  | zero => exact .throw trivial
  | succ limit ih =>
    exact .ite (l.topStmt_blames.bind fun _ => next_bind_blames ih fun _ => .pure _) (.pure _)

/-- A program is refused for its text alone. -/
theorem program_blames : l.program.Blames := by
  refine l.location_blames.bind fun a => (isAt_blames _).bind fun _ => .ite (refuse_blames rfl) ?_
  refine (go_blames _).bind fun entered => (l.declarations_blames l.limit entered).bind fun ends =>
    (l.topStmts_blames l.limit ends.2).bind fun stmts => ?_
  split
  · exact leave_blames.bind fun _ => .pure _
  · exact .pure _

end Lowering
end Offside
