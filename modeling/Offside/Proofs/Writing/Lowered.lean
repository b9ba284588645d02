import Offside.Proofs.Lowering.Moves
import Offside.Proofs.Source.Places
import Offside.Proofs.Text.Decimal
import Offside.Proofs.Writing.Spelling
import Offside.Lowering.Expressions

/-!
# Lowered trees

Which expression a syntax tree stands for: the one that its lowering gives, wherever the tree
is part of a larger one.  There is one lemma for each form of tree, so that the tree of an
expression is understood from its parts.

Main definitions:

- `StandsFor`: a tree stands for an expression.

Main results:

- Theorems `StandsFor.binOp`, `StandsFor.ternary` and so on: what a tree stands for, given what
  its parts stand for.
-/

namespace Offside

/-! ## Moves -/

namespace Runs

variable {node parent child next : SyntaxNode} {index : Nat} {path : List (SyntaxNode × Nat)}
  {more : List SyntaxNode}

/-- The first child is entered. -/
theorem firstChild (h : node.children = child :: more) :
    Runs Walk.firstChild ⟨node, path⟩ true ⟨child, (node, 0) :: path⟩ := by
  unfold Runs Walk.firstChild Walk.go
  simp [Move.target?, Cursor.firstChild?, h]

/-- So it is without a look at whether there is one. -/
theorem enter (h : node.children = child :: more) :
    Runs Walk.enter ⟨node, path⟩ () ⟨child, (node, 0) :: path⟩ :=
  .bind (.firstChild h) (.pure _ _)

/-- A step leads to the next sibling. -/
theorem nextSibling (h : parent.children[index + 1]? = some next) :
    Runs Walk.nextSibling ⟨node, (parent, index) :: path⟩ true
      ⟨next, (parent, index + 1) :: path⟩ := by
  unfold Runs Walk.nextSibling Walk.go
  simp [Move.target?, Cursor.nextSibling?, h]

/-- At the last child a step leads nowhere. -/
theorem nextSibling_none (h : parent.children[index + 1]? = none) :
    Runs Walk.nextSibling ⟨node, (parent, index) :: path⟩ false
      ⟨node, (parent, index) :: path⟩ := by
  unfold Runs Walk.nextSibling Walk.go
  simp [Move.target?, Cursor.nextSibling?, h]

/-- A step that is not looked at leads to the next sibling, too. -/
theorem step (h : parent.children[index + 1]? = some next) :
    Runs Walk.step ⟨node, (parent, index) :: path⟩ () ⟨next, (parent, index + 1) :: path⟩ :=
  .bind (.nextSibling h) (.pure _ _)

/-- The way back leads to the parent. -/
theorem leave : Runs Walk.leave ⟨node, (parent, index) :: path⟩ () ⟨parent, path⟩ := rfl

variable {l : Lowering}

/-- A phrase is no keyword or mark. -/
theorem isToken_phrase (h : node.kind.isFixedText = false) (word : String) :
    Runs (l.isToken word) ⟨node, path⟩ false ⟨node, path⟩ := by
  refine .bind .kind ?_
  rw [h]
  exact .pure _ _

end Runs

/-! ## What trees stand for -/

/-- The lowering of a node gives an expression, wherever the node is part of a larger tree,
and comes back to the node. -/
def LowersTo (l : Lowering) (fuel : Nat) (node : SyntaxNode) (e : Expr Location) : Prop :=
  ∀ path, Runs (l.exprWithin fuel) ⟨node, path⟩ e ⟨node, path⟩

/-- A node of the tree of a source stands for an expression: it starts at a place of the
source, it is no keyword or mark, and its lowering gives the expression. -/
structure StandsFor (source : Source) (node : SyntaxNode) (e : Expr Unit) : Prop where
  cuts : Cuts source node.span.start
  phrase : node.kind.isFixedText = false
  lowers : ∀ (l : Lowering) (fuel : Nat), l.source = source → node.size ≤ l.limit →
    node.size ≤ fuel → ∃ e', LowersTo l fuel node e' ∧ e'.bare = e

/-- The text of a leaf is the one that it covers. -/
theorem textOf_eq {l : Lowering} {span : Span} {word : String}
    (h : Covers l.source span word.toList) : l.textOf span = word := by
  rw [Lowering.textOf, h.slice?_eq, Option.getD_some, String.ofList_toList]

/-- The text of a node is what its span covers. -/
theorem Runs.text_eq {l : Lowering} {node : SyntaxNode} {path : List (SyntaxNode × Nat)}
    {word : String} (h : Covers l.source node.span word.toList) :
    Runs l.text ⟨node, path⟩ word ⟨node, path⟩ := by
  rw [← textOf_eq h]
  exact .text

/-- A keyword or mark is the one that it covers. -/
theorem Runs.isToken_eq {l : Lowering} {node : SyntaxNode} {path : List (SyntaxNode × Nat)}
    {covered : String} (h : Covers l.source node.span covered.toList)
    (hkind : node.kind.isFixedText = true) (word : String) :
    Runs (l.isToken word) ⟨node, path⟩ (decide (covered = word)) ⟨node, path⟩ := by
  refine .bind .kind ?_
  rw [hkind, if_pos rfl, ← textOf_eq h]
  rfl

/-- A step to a keyword or mark tells whether the next sibling is one. -/
theorem Runs.stepTo {l : Lowering} {node parent next : SyntaxNode} {index : Nat}
    {path : List (SyntaxNode × Nat)} {covered : String}
    (hnext : parent.children[index + 1]? = some next)
    (h : Covers l.source next.span covered.toList) (hkind : next.kind.isFixedText = true)
    (word : String) :
    Runs (l.stepTo word) ⟨node, (parent, index) :: path⟩ (decide (covered = word))
      ⟨next, (parent, index + 1) :: path⟩ :=
  .bind (.nextSibling hnext) (.isToken_eq h hkind word)

/-- A node that starts where the source can be cut has a location. -/
theorem Runs.location {l : Lowering} {node : SyntaxNode} (h : Cuts l.source node.span.start) :
    ∃ a, ∀ path, Runs l.location ⟨node, path⟩ a ⟨node, path⟩ := by
  rcases h.location with ⟨a, ha⟩
  refine ⟨a, ?_⟩
  intro path
  have hrun : l.location ⟨node, path⟩ =
      (Outcome.locate l.source node.span.start).bind fun a => .ok (a, ⟨node, path⟩) := rfl
  unfold Runs
  rw [hrun, ha]
  rfl

/-- The lowering of a phrase starts with its location and its kind. -/
theorem StandsFor.of_walk {source : Source} {node : SyntaxNode} {e : Expr Unit}
    (cuts : Cuts source node.span.start) (phrase : node.kind.isFixedText = false)
    (hwalk : ∀ (l : Lowering) (fuel : Nat) (a : Location), l.source = source →
      node.size ≤ l.limit → node.size ≤ fuel + 1 →
      (∀ path, Runs l.location ⟨node, path⟩ a ⟨node, path⟩) →
        ∃ e', LowersTo l (fuel + 1) node e' ∧ e'.bare = e) : StandsFor source node e where
  cuts := cuts
  phrase := phrase
  lowers := by
    rintro l fuel rfl hlimit hfuel
    obtain ⟨fuel, rfl⟩ : ∃ n, fuel = n + 1 := by
      have hpos := node.size_pos
      exact ⟨fuel - 1, by omega⟩
    rcases Runs.location cuts with ⟨a, ha⟩
    exact hwalk l fuel a rfl hlimit hfuel ha

section Forms

variable {source : Source} {span span' : Span}

/-! ## Words -/

/-- A number stands for itself. -/
theorem StandsFor.numLiteral {n : Nat} (fits : n < 2 ^ 63)
    (covers : Covers source span (toString n).toList) :
    StandsFor source (.leaf .number span) (.literal () ⟨(), .num n⟩) := by
  refine .of_walk covers.cuts rfl ?_
  rintro l fuel a rfl hlimit hfuel ha
  refine ⟨.literal a ⟨a, .num n⟩, ?_, rfl⟩
  intro path
  refine .bind (ha path) (.bind .kind (.bind (.bind (ha path) ?_) (.pure _ _)))
  refine .bind (.text_eq covers) (.bind .kind ?_)
  have hread : Text.readInt64? (toString n).toList = some (n : Int) := by
    rw [Nat.toString_eq_repr, Nat.toList_repr, Text.readInt64?_toDigits fits]
  simp only [hread]
  exact .pure _ _

/-- So does a truth value. -/
theorem StandsFor.boolLiteral {b : Bool}
    (covers : Covers source span (if b then "True" else "False").toList) :
    StandsFor source (.leaf .boolean span) (.literal () ⟨(), .bool b⟩) := by
  refine .of_walk covers.cuts rfl ?_
  rintro l fuel a rfl hlimit hfuel ha
  refine ⟨.literal a ⟨a, .bool b⟩, ?_, rfl⟩
  intro path
  refine .bind (ha path) (.bind .kind (.bind (.bind (ha path) ?_) (.pure _ _)))
  refine .bind (.text_eq covers) (.bind .kind ?_)
  cases b with
  | true => exact .pure _ _
  | false => exact .pure _ _

/-- So does `None`. -/
theorem StandsFor.noneLiteral (covers : Covers source span "None".toList) :
    StandsFor source (.leaf .none span) (.literal () ⟨(), .none⟩) := by
  refine .of_walk covers.cuts rfl ?_
  rintro l fuel a rfl hlimit hfuel ha
  refine ⟨.literal a ⟨a, .none⟩, ?_, rfl⟩
  intro path
  refine .bind (ha path) (.bind .kind (.bind (.bind (ha path) ?_) (.pure _ _)))
  exact .bind .text (.bind .kind (.pure _ _))

/-- A name stands for the name that its span covers. -/
theorem StandsFor.id {name : String} (covers : Covers source span name.toList) :
    StandsFor source (.leaf .variableName span) (.id () name) := by
  refine .of_walk covers.cuts rfl ?_
  rintro l fuel a rfl hlimit hfuel ha
  refine ⟨.id a name, ?_, rfl⟩
  intro path
  exact .bind (ha path) (.bind .kind (.bind (.text_eq covers) (.pure _ _)))

/-! ## Operators and parentheses -/

/-- A binary expression stands for the operation on what its operands stand for. -/
theorem StandsFor.binOp {left right : SyntaxNode} {e e' : Expr Unit} {op : BinOp}
    (onLeft : StandsFor source left e) (onRight : StandsFor source right e')
    (onOp : Covers source span op.lexeme.toList) :
    StandsFor source (.branch .binaryExpression [left, .leaf .operator span, right])
      (.binOp () op e e') := by
  refine .of_walk onLeft.cuts rfl ?_
  rintro l fuel a rfl hlimit hfuel ha
  simp only [SyntaxNode.size_branch, SyntaxNode.size_leaf, SyntaxNode.sizes_cons,
    SyntaxNode.sizes_nil] at hlimit hfuel
  rcases onLeft.lowers l fuel rfl (by omega) (by omega) with ⟨left', hleft, rfl⟩
  rcases onRight.lowers l fuel rfl (by omega) (by omega) with ⟨right', hright, rfl⟩
  refine ⟨.binOp a op left' right', ?_, rfl⟩
  intro path
  refine .bind (ha path) (.bind .kind ?_)
  refine .bind (.enter rfl) (.bind (hleft _) (.bind (.step rfl) (.bind (.text_eq onOp) ?_)))
  simp only [BinOp.ofLexeme?_lexeme]
  exact .bind (.step rfl) (.bind (hright _) (.bind .leave (.pure _ _)))

/-- So does a unary expression. -/
theorem StandsFor.uniOp {operand : SyntaxNode} {e : Expr Unit} {op : UniOp}
    (onOperand : StandsFor source operand e) (onOp : Covers source span op.lexeme.toList) :
    StandsFor source (.branch .unaryExpression [.leaf .operator span, operand])
      (.uniOp () op e) := by
  refine .of_walk onOp.cuts rfl ?_
  rintro l fuel a rfl hlimit hfuel ha
  simp only [SyntaxNode.size_branch, SyntaxNode.size_leaf, SyntaxNode.sizes_cons,
    SyntaxNode.sizes_nil] at hlimit hfuel
  rcases onOperand.lowers l fuel rfl (by omega) (by omega) with ⟨operand', hoperand, rfl⟩
  refine ⟨.uniOp a op operand', ?_, rfl⟩
  intro path
  refine .bind (ha path) (.bind .kind ?_)
  refine .bind (.enter rfl) (.bind (.text_eq onOp) ?_)
  simp only [UniOp.ofLexeme?_lexeme]
  exact .bind (.step rfl) (.bind (hoperand _) (.bind .leave (.pure _ _)))

/-- A conditional expression stands for the choice between what its branches stand for. -/
theorem StandsFor.ternary {left middle right : SyntaxNode} {ifTrue condition ifFalse : Expr Unit}
    (onTrue : StandsFor source left ifTrue) (onCondition : StandsFor source middle condition)
    (onFalse : StandsFor source right ifFalse) :
    StandsFor source (.branch .conditionalExpression
      [left, .leaf .keyword span, middle, .leaf .keyword span', right])
      (.ternary () ifTrue condition ifFalse) := by
  refine .of_walk onTrue.cuts rfl ?_
  rintro l fuel a rfl hlimit hfuel ha
  simp only [SyntaxNode.size_branch, SyntaxNode.size_leaf, SyntaxNode.sizes_cons,
    SyntaxNode.sizes_nil] at hlimit hfuel
  rcases onTrue.lowers l fuel rfl (by omega) (by omega) with ⟨ifTrue', htrue, rfl⟩
  rcases onCondition.lowers l fuel rfl (by omega) (by omega) with ⟨condition', hcondition, rfl⟩
  rcases onFalse.lowers l fuel rfl (by omega) (by omega) with ⟨ifFalse', hfalse, rfl⟩
  refine ⟨.ternary a ifTrue' condition' ifFalse', ?_, rfl⟩
  intro path
  refine .bind (ha path) (.bind .kind ?_)
  refine .bind (.enter rfl) (.bind (htrue _) (.bind (.step rfl) (.bind (.step rfl) ?_)))
  refine .bind (hcondition _) (.bind (.step rfl) (.bind (.step rfl) ?_))
  exact .bind (hfalse _) (.bind .leave (.pure _ _))

/-- Parentheses disappear. -/
theorem StandsFor.parens {inside : SyntaxNode} {e : Expr Unit}
    (opening : Covers source span "(".toList) (onInside : StandsFor source inside e)
    (closing : Covers source span' ")".toList) :
    StandsFor source (.branch .parenthesizedExpression
      [.leaf .punctuation span, inside, .leaf .punctuation span']) e := by
  refine .of_walk opening.cuts rfl ?_
  rintro l fuel a rfl hlimit hfuel ha
  simp only [SyntaxNode.size_branch, SyntaxNode.size_leaf, SyntaxNode.sizes_cons,
    SyntaxNode.sizes_nil] at hlimit hfuel
  rcases onInside.lowers l fuel rfl (by omega) (by omega) with ⟨inside', hinside, rfl⟩
  refine ⟨inside', ?_, rfl⟩
  intro path
  refine .bind (ha path) (.bind .kind ?_)
  refine .bind (.enter rfl) (.bind (.step rfl) (.bind (hinside _) ?_))
  exact .bind (.stepTo rfl closing rfl ")") (.bind .leave (.pure _ _))

/-! ## Members -/

/-- A member behind a dot stands for a field. -/
theorem StandsFor.lookup {object : SyntaxNode} {e : Expr Unit} {field : String}
    (onObject : StandsFor source object e) (dot : Covers source span ".".toList)
    (covers : Covers source span' field.toList) :
    StandsFor source (.branch .memberExpression
      [object, .leaf .punctuation span, .leaf .propertyName span']) (.lookup () e field) := by
  refine .of_walk onObject.cuts rfl ?_
  rintro l fuel a rfl hlimit hfuel ha
  simp only [SyntaxNode.size_branch, SyntaxNode.size_leaf, SyntaxNode.sizes_cons,
    SyntaxNode.sizes_nil] at hlimit hfuel
  rcases onObject.lowers l fuel rfl (by omega) (by omega) with ⟨object', hobject, rfl⟩
  refine ⟨.lookup a object' field, ?_, rfl⟩
  intro path
  refine .bind (ha path) (.bind .kind ?_)
  refine .bind (.enter rfl) (.bind (hobject _) (.bind (.step rfl) ?_))
  refine .bind (.isToken_eq dot rfl ".") ?_
  exact .bind (.step rfl) (.bind (.text_eq covers) (.bind .leave (.pure _ _)))

/-- A member in brackets stands for an element. -/
theorem StandsFor.index {object position : SyntaxNode} {e e' : Expr Unit}
    (onObject : StandsFor source object e) (opening : Covers source span "[".toList)
    (onPosition : StandsFor source position e') (closing : Covers source span' "]".toList) :
    StandsFor source (.branch .memberExpression
      [object, .leaf .punctuation span, position, .leaf .punctuation span']) (.index () e e') := by
  refine .of_walk onObject.cuts rfl ?_
  rintro l fuel a rfl hlimit hfuel ha
  simp only [SyntaxNode.size_branch, SyntaxNode.size_leaf, SyntaxNode.sizes_cons,
    SyntaxNode.sizes_nil] at hlimit hfuel
  rcases onObject.lowers l fuel rfl (by omega) (by omega) with ⟨object', hobject, rfl⟩
  rcases onPosition.lowers l fuel rfl (by omega) (by omega) with ⟨position', hposition, rfl⟩
  refine ⟨.index a object' position', ?_, rfl⟩
  intro path
  refine .bind (ha path) (.bind .kind ?_)
  refine .bind (.enter rfl) (.bind (hobject _) (.bind (.step rfl) ?_))
  refine .bind (.isToken_eq opening rfl ".") ?_
  refine .bind (.isToken_eq opening rfl "[") ?_
  -- inside the brackets: the position, and then the closing bracket
  obtain ⟨limit, hlimit'⟩ : ∃ n, l.limit = n + 2 := ⟨l.limit - 2, by omega⟩
  have hparts : Runs (l.indexParts (l.exprWithin fuel) l.limit {})
      ⟨.leaf .punctuation span, (.branch .memberExpression
        [object, .leaf .punctuation span, position, .leaf .punctuation span'], 1) :: path⟩
      { index := some position', isEmpty := false }
      ⟨.leaf .punctuation span', (.branch .memberExpression
        [object, .leaf .punctuation span, position, .leaf .punctuation span'], 3) :: path⟩ := by
    rw [hlimit']
    refine .bind (.nextSibling rfl) ?_
    refine .bind (.isToken_phrase onPosition.phrase "]") ?_
    refine .bind (.isToken_phrase onPosition.phrase ":") ?_
    refine .bind (.isToken_phrase onPosition.phrase ",") ?_
    refine .bind (hposition _) (.bind (.nextSibling rfl) ?_)
    exact .bind (.isToken_eq closing rfl "]") (.pure _ _)
  exact .bind hparts (.bind .leave (.pure _ _))

end Forms

end Offside
