import Offside.Proofs.Layout.Written

/-!
# Contents of nodes

Which children the nodes of each kind have, in order.  A content describes a row of nodes, and a
table lists one or more contents for each kind.  Words and marks are given by the kind of their
token, whose text has to stand at the leaf.  Only the colon of a block and the closing brackets of
a list and of an expression in parentheses may be missing.

Main definitions:

- `Content`: what may stand in a row of nodes.
- `Content.table`: the contents of the nodes of each kind.
- `Content.Covers`: a row of nodes is as a content says.
- `SyntaxKind.Allows`: a row of nodes is as the table says of a kind.
- `SyntaxNode.HasContent`: the children of a node are as the table says of its kind.
-/

namespace Offside

/-- The kinds of expressions. -/
def SyntaxKind.isExpr : SyntaxKind → Bool
  | .callExpression | .memberExpression | .binaryExpression | .unaryExpression
  | .parenthesizedExpression | .arrayExpression | .conditionalExpression
  | .comprehensionExpression | .arrayComprehensionExpression | .setComprehensionExpression
  | .variableName | .number | .boolean | .none | .string => true
  | _ => false

/-- The kinds of statements. -/
def SyntaxKind.isStmt : SyntaxKind → Bool
  | .assignStatement | .expressionStatement | .returnStatement | .passStatement
  | .continueStatement | .breakStatement | .ifStatement | .whileStatement | .forStatement
  | .functionDefinition | .classDefinition => true
  | _ => false

/-- Whether a token is an operator between two operands. -/
def TokenKind.isBinary : TokenKind → Bool
  | .orWord | .andWord | .less | .lessEquals | .greater | .greaterEquals | .equals | .notEquals
  | .isWord | .plus | .dash | .star | .doubleSlash | .percent => true
  | _ => false

/-- What may stand in a row of nodes. -/
inductive Content where
  | nothing
  /-- A leaf at a word of an accepted kind. -/
  | leaf (accepts : TokenKind → Bool) (kind : SyntaxKind)
  /-- A node of an accepted kind. -/
  | one (accepts : SyntaxKind → Bool)
  /-- A node of a kind with the given children. -/
  | branch (kind : SyntaxKind) (children : Content)
  | both (first second : Content)
  | either (first second : Content)
  | many (content : Content)

namespace Content

/-- Several contents, one after the other. -/
def row (contents : List Content) : Content := contents.foldr both nothing

/-- One of several contents. -/
def oneOf : List Content → Content
  | [] => nothing
  | [content] => content
  | content :: contents => either content (oneOf contents)

/-- A content, or nothing. -/
def optional (content : Content) : Content := either content nothing

/-- A mark. -/
def mark (kind : TokenKind) : Content := leaf (· = kind) .punctuation

/-- A reserved word. -/
def word (kind : TokenKind) : Content := leaf (· = kind) .keyword

/-- The sign of an assignment. -/
def assign : Content := leaf (· = .assignment) .assignOp

/-- The operator in front of an operand. -/
def prefixOperator (kind : TokenKind) : Content := leaf (· = kind) .operator

/-- A name. -/
def name : Content := leaf (· = .identifier) .variableName

/-- An expression. -/
def expr : Content := one SyntaxKind.isExpr

/-- A statement. -/
def stmt : Content := one SyntaxKind.isStmt

/-- A node of one kind. -/
def node (kind : SyntaxKind) : Content := one (· = kind)

/-- A type behind a mark. -/
def typed (marker : TokenKind) : Content := row [mark marker, expr]

/-- Parameters, each perhaps with a type and a comma, between parentheses. -/
def parameters : Content :=
  row [mark .openParen,
    many (row [name, optional (branch .typeDef (typed .colon)), optional (mark .comma)]),
    mark .closeParen]

/-- The word `else` and its block, if they are there. -/
def elsePart : Content := optional (row [word .elseWord, node .body])

/-- An element of a list, behind the comma that sets it off. -/
def element : Content := row [mark .comma, expr]

/-- A comprehension behind an opening bracket, with any closing bracket. -/
def comprehension (opening : TokenKind) : Content :=
  row [mark opening, expr, word .forWord, name, word .inWord, expr,
    optional (row [word .ifWord, expr]), leaf TokenKind.isClosing .punctuation]

/-- The contents of the nodes of a kind. -/
def table : SyntaxKind → List Content
  | .script => [many stmt]
  | .body => [row [optional (mark .colon), stmt, many stmt]]
  | .assignStatement => [
      row [expr, branch .typeDef (typed .colon), optional (row [assign, expr])],
      row [expr, assign, expr]]
  | .expressionStatement => [row [expr]]
  | .returnStatement => [row [word .returnWord, optional expr]]
  | .passStatement => [row [word .passWord]]
  | .continueStatement => [row [word .continueWord]]
  | .breakStatement => [row [word .breakWord]]
  | .ifStatement => [row [word .ifWord, expr, node .body,
      many (row [word .elifWord, expr, node .body]), elsePart]]
  | .whileStatement => [row [word .whileWord, expr, node .body]]
  | .forStatement => [row [word .forWord, name, word .inWord, expr, node .body, elsePart]]
  | .functionDefinition => [row [word .defWord, name, branch .paramList parameters,
      optional (branch .typeDef (typed .arrow)), node .body]]
  | .classDefinition => [row [word .classWord, name, optional (node .argList), node .body]]
  | .typeDef => [typed .colon, typed .arrow]
  | .paramList => [parameters]
  | .argList => [row [mark .openParen, many (oneOf [mark .comma, expr]), mark .closeParen]]
  | .callExpression => [row [expr, node .argList]]
  | .memberExpression => [
      row [expr, mark .dot, leaf (· = .identifier) .propertyName],
      row [expr, mark .openBracket, many (oneOf [mark .colon, mark .comma, expr]),
        mark .closeBracket]]
  | .binaryExpression => [row [expr, leaf TokenKind.isBinary .operator, expr]]
  | .unaryExpression => [row [prefixOperator .notWord, expr], row [prefixOperator .dash, expr]]
  | .parenthesizedExpression => [row [mark .openParen, expr, optional (mark .closeParen)]]
  | .arrayExpression => [
      row [mark .openBracket, mark .closeBracket],
      row [mark .openBracket, expr, many element, optional (mark .closeBracket)],
      row [mark .openBracket, expr, many element, mark .comma, mark .closeBracket]]
  | .conditionalExpression => [row [expr, word .ifWord, expr, word .elseWord, expr]]
  | .comprehensionExpression => [comprehension .openParen]
  | .arrayComprehensionExpression => [comprehension .openBracket]
  | .setComprehensionExpression => [comprehension .openCurly]
  | .variableName | .propertyName | .number | .boolean | .none | .string
  | .keyword | .punctuation | .operator | .assignOp => [nothing]

end Content

/-! ## What a content says of a row of nodes -/

/-- The text that all tokens of a kind have, if there is one, stands at a place of a source. -/
def TokenKind.StandsAt (source : Source) (kind : TokenKind) (span : Span) : Prop :=
  ∀ text, kind.lexeme? = some text → Source.slice? source span = some text.toList

/-- A row of nodes of a source is as a content says. -/
def Content.Covers (source : Source) : Content → List SyntaxNode → Prop
  | .nothing, nodes => nodes = []
  | .leaf accepts kind, nodes => ∃ word span, accepts word = true ∧ word.StandsAt source span ∧
    nodes = [.leaf kind span]
  | .one accepts, nodes => ∃ node, accepts node.kind = true ∧ nodes = [node]
  | .branch kind content, nodes => ∃ node, node.kind = kind ∧ content.Covers source node.children ∧
    nodes = [node]
  | .both first second, nodes => ∃ before behind, first.Covers source before ∧
    second.Covers source behind ∧ nodes = before ++ behind
  | .either first second, nodes => first.Covers source nodes ∨ second.Covers source nodes
  | .many content, nodes => ∃ rows : List (List SyntaxNode),
    (∀ row ∈ rows, content.Covers source row) ∧ nodes = rows.flatten

/-- A row of nodes of a source is as one of the contents of a kind says. -/
def SyntaxKind.Allows (source : Source) (kind : SyntaxKind) (nodes : List SyntaxNode) : Prop :=
  ∃ content ∈ Content.table kind, content.Covers source nodes

/-- The children of a node of a source are as the table says of its kind. -/
def SyntaxNode.HasContent (source : Source) (node : SyntaxNode) : Prop :=
  node.kind.Allows source node.children

end Offside
