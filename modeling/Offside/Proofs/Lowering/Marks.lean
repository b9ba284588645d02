import Offside.Proofs.Lowering.Names

/-!
# Operators and marks stand where they are looked for

A walk over an operation takes the text of a certain child for its operator, and a walk over a list
goes from element to element by the commas between them.  The contents of these phrases say that
the operator is there, and that every element has a comma or the closing bracket behind it.

Main definitions:

- `Lowering.Elements`: a row of nodes as a list has them behind its opening bracket or a comma.

Main results:

- Theorem `HasContent.binary_operator` and `HasContent.unary_operator`: operations have operators.
- Theorem `HasContent.elements`: a list has its elements behind its first child.
-/

namespace Offside

variable {l : Lowering} {node : SyntaxNode} {nodes : List SyntaxNode}

/-! ## Operators -/

/-- The text of an operator between operands is that of a binary operator. -/
theorem TokenKind.lexeme?_of_isBinary {word : TokenKind} (h : word.isBinary = true) :
    ∃ op : BinOp, word.lexeme? = some op.lexeme := by
  have hall : ∃ op ∈ BinOp.all, word.lexeme? = some op.lexeme := by
    cases word <;> first | decide | cases h
  exact hall.imp fun _ => And.right

namespace SyntaxNode.HasContent

/-- A binary operation has a binary operator in the second place. -/
theorem binary_operator (h : node.HasContent l.source) (hkind : node.kind = .binaryExpression) :
    ∃ operator, node.children[1]? = some operator ∧
      ∃ op : BinOp, l.textOf operator.span = op.lexeme := by
  have htable : Content.table node.kind =
      [.both Content.expr (.both (.leaf TokenKind.isBinary .operator)
        (.both Content.expr .nothing))] := hkind ▸ rfl
  obtain ⟨_, _, -, hrow, hchildren⟩ := (h.covers_of_table htable).one_cons
  obtain ⟨word, span, _, hbinary, hstands, -, rfl⟩ := hrow.leaf_cons
  obtain ⟨op, hlexeme⟩ := TokenKind.lexeme?_of_isBinary hbinary
  rw [hchildren]
  exact ⟨_, rfl, op, Lowering.textOf_standsAt hstands hlexeme⟩

/-- A unary operation has a unary operator in front. -/
theorem unary_operator (h : node.HasContent l.source) (hkind : node.kind = .unaryExpression) :
    ∃ operator, node.children[0]? = some operator ∧
      ∃ op : UniOp, l.textOf operator.span = op.lexeme := by
  obtain ⟨content, hcontent, hcovers⟩ := h
  have hprefix : ∃ word behind, content = .both (Content.prefixOperator word) behind ∧
      ∃ op : UniOp, word.lexeme? = some op.lexeme := by
    rw [hkind] at hcontent
    rcases List.mem_pair.mp hcontent with rfl | rfl
    · exact ⟨.notWord, _, rfl, .not, rfl⟩
    · exact ⟨.dash, _, rfl, .neg, rfl⟩
  obtain ⟨expected, behind, rfl, op, hlexeme⟩ := hprefix
  obtain ⟨span, _, hstands, -, hchildren⟩ := Content.Covers.word_cons hcovers
  rw [hchildren]
  exact ⟨_, rfl, op, Lowering.textOf_standsAt hstands hlexeme⟩

end SyntaxNode.HasContent

/-! ## Lists -/

/-- A row of nodes as a list has them behind its opening bracket or a comma: no comma at once, and
behind the first node nothing, the closing bracket, or a comma and more of the kind. -/
def Lowering.Elements (l : Lowering) : List SyntaxNode → Prop
  | [] => True
  | [last] => l.reads last "," = false
  | node :: mark :: more => l.reads node "," = false ∧
    (l.reads mark "]" = true ∨ l.reads mark "," = true ∧ l.Elements more)

namespace Lowering

theorem Elements.first {first : SyntaxNode} (h : l.Elements (first :: nodes)) :
    l.reads first "," = false := by
  cases nodes with
  | nil => exact h
  | cons mark more => exact h.1

/-- An expression is no mark. -/
theorem reads_expr (h : node.kind.isExpr = true) (word : String) : l.reads node word = false := by
  apply reads_of_not_fixed
  generalize node.kind = kind at h
  cases kind <;> first | rfl | nomatch h

/-- A closing bracket ends a list. -/
theorem elements_closing (h : (Content.row [Content.mark .closeBracket]).Covers l.source nodes) :
    l.Elements nodes := by
  obtain ⟨span, _, hstands, rfl, rfl⟩ := Content.Covers.word_cons h
  exact reads_leaf hstands rfl rfl ","

/-- Behind an expression, a list may end, with a closing bracket or without. -/
theorem elements_expr (hnode : node.kind.isExpr = true)
    (h : (Content.row [(Content.mark .closeBracket).optional]).Covers l.source nodes) :
    l.Elements (node :: nodes) := by
  obtain ⟨_, _, ⟨word, span, hword, hstands, rfl⟩ | rfl, rfl, rfl⟩ := h
  · obtain rfl := of_decide_eq_true hword
    exact ⟨reads_expr hnode ",", .inl (reads_leaf hstands rfl rfl "]")⟩
  · exact reads_expr hnode ","

/-- Behind an expression and a comma, a list goes on. -/
theorem elements_comma (hnode : node.kind.isExpr = true) {span : Span}
    (hcomma : TokenKind.comma.StandsAt l.source span) (hmore : l.Elements nodes) :
    l.Elements (node :: .leaf .punctuation span :: nodes) :=
  ⟨reads_expr hnode ",", .inr ⟨reads_leaf hcomma rfl rfl ",", hmore⟩⟩

/-- Expressions with commas between them, and a closing bracket that may be missing. -/
theorem elements_row {closing : Content}
    (hclosing : ∀ {node : SyntaxNode} {nodes : List SyntaxNode}, node.kind.isExpr = true →
      closing.Covers l.source nodes → l.Elements (node :: nodes))
    (h : (Content.both Content.expr (.both (.many Content.element) closing)).Covers l.source
      nodes) : l.Elements nodes := by
  obtain ⟨node, _, hnode, ⟨_, behind, ⟨rows, hrows, rfl⟩, hbehind, rfl⟩, rfl⟩ :=
    Content.Covers.one_cons h
  clear h
  induction rows generalizing node with
  | nil => exact hclosing hnode hbehind
  | cons row rows ih =>
    obtain ⟨span, _, hstands, hrow, hcomma⟩ :=
      Content.Covers.word_cons (hrows row List.mem_cons_self)
    obtain ⟨next, _, hnext, rfl, rfl⟩ := Content.Covers.one_cons hrow
    rw [hcomma, List.flatten_cons]
    exact elements_comma hnode hstands
      (ih next hnext fun other hother => hrows other (List.mem_cons_of_mem _ hother))

end Lowering

/-- Behind its first child, a list has elements and the marks that set them off. -/
theorem SyntaxNode.HasContent.elements (h : node.HasContent l.source)
    (hkind : node.kind = .arrayExpression) : l.Elements (node.children.drop 1) := by
  obtain ⟨content, hcontent, hcovers⟩ := h
  rw [hkind] at hcontent
  obtain ⟨behind, rfl, hbehind⟩ : ∃ behind, content = .both (Content.mark .openBracket) behind ∧
      ∀ {nodes : List SyntaxNode}, behind.Covers l.source nodes → l.Elements nodes := by
    rcases List.mem_cons.mp hcontent with rfl | hcontent
    · exact ⟨_, rfl, Lowering.elements_closing⟩
    rcases List.mem_pair.mp hcontent with rfl | rfl
    · exact ⟨_, rfl, Lowering.elements_row Lowering.elements_expr⟩
    · refine ⟨_, rfl, Lowering.elements_row fun hnode hcovers => ?_⟩
      obtain ⟨span, _, hstands, hclosing, rfl⟩ := Content.Covers.word_cons hcovers
      exact Lowering.elements_comma hnode hstands (Lowering.elements_closing hclosing)
  obtain ⟨_, row, -, hrow, hchildren⟩ := Content.Covers.word_cons hcovers
  rw [hchildren]
  exact hbehind hrow

end Offside
