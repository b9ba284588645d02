import Offside.Source.Span

/-!
# Syntax trees

The concrete syntax of a source: a tree whose leaves are its words and marks, in order,
and whose inner nodes are its phrases.  Every node knows the span that it covers.
-/

namespace Offside

/-- The kinds of nodes. -/
inductive SyntaxKind where
  | script
  | body
  -- statements
  | assignStatement
  | expressionStatement
  | returnStatement
  | passStatement
  | continueStatement
  | breakStatement
  | ifStatement
  | whileStatement
  | forStatement
  | functionDefinition
  | classDefinition
  | typeDef
  | paramList
  | argList
  -- expressions
  | callExpression
  | memberExpression
  | binaryExpression
  | unaryExpression
  | parenthesizedExpression
  | arrayExpression
  | conditionalExpression
  | comprehensionExpression
  | arrayComprehensionExpression
  | setComprehensionExpression
  -- leaves
  | variableName
  | propertyName
  | number
  | boolean
  | none
  | string
  | keyword
  | punctuation
  | operator
  | assignOp
  deriving DecidableEq, Repr, Inhabited

namespace SyntaxKind

/-- The name under which a kind is shown. -/
def name : SyntaxKind → String
  | .script => "Script"
  | .body => "Body"
  | .assignStatement => "AssignStatement"
  | .expressionStatement => "ExpressionStatement"
  | .returnStatement => "ReturnStatement"
  | .passStatement => "PassStatement"
  | .continueStatement => "ContinueStatement"
  | .breakStatement => "BreakStatement"
  | .ifStatement => "IfStatement"
  | .whileStatement => "WhileStatement"
  | .forStatement => "ForStatement"
  | .functionDefinition => "FunctionDefinition"
  | .classDefinition => "ClassDefinition"
  | .typeDef => "TypeDef"
  | .paramList => "ParamList"
  | .argList => "ArgList"
  | .callExpression => "CallExpression"
  | .memberExpression => "MemberExpression"
  | .binaryExpression => "BinaryExpression"
  | .unaryExpression => "UnaryExpression"
  | .parenthesizedExpression => "ParenthesizedExpression"
  | .arrayExpression => "ArrayExpression"
  | .conditionalExpression => "ConditionalExpression"
  | .comprehensionExpression => "ComprehensionExpression"
  | .arrayComprehensionExpression => "ArrayComprehensionExpression"
  | .setComprehensionExpression => "SetComprehensionExpression"
  | .variableName => "VariableName"
  | .propertyName => "PropertyName"
  | .number => "Number"
  | .boolean => "Boolean"
  | .none => "None"
  | .string => "String"
  | .keyword => "Keyword"
  | .punctuation => "Punctuation"
  | .operator => "Operator"
  | .assignOp => "AssignOp"

/-- Whether a kind is that of a word or mark whose text alone says what it is. -/
def isFixedText : SyntaxKind → Bool
  | .keyword | .punctuation | .operator | .assignOp => true
  | _ => false

end SyntaxKind

/-- A node of a syntax tree. -/
structure SyntaxNode where
  kind : SyntaxKind
  span : Span
  children : List SyntaxNode
  deriving Repr, Inhabited

namespace SyntaxNode

/-- A node without children. -/
def leaf (kind : SyntaxKind) (span : Span) : SyntaxNode := ⟨kind, span, []⟩

/-- The span from the start of the first of some nodes to the end of the last. -/
def spanOf (nodes : List SyntaxNode) : Span :=
  match nodes.head?, nodes.getLast? with
  | some first, some last => ⟨first.span.start, last.span.stop⟩
  | _, _ => .empty 0

/-- A node that covers its children. -/
def branch (kind : SyntaxKind) (children : List SyntaxNode) : SyntaxNode :=
  ⟨kind, spanOf children, children⟩

mutual

/-- The number of nodes of a tree. -/
def size : SyntaxNode → Nat
  | ⟨_, _, children⟩ => sizes children + 1

/-- The number of nodes of several trees. -/
def sizes : List SyntaxNode → Nat
  | [] => 0
  | node :: rest => size node + sizes rest

end

mutual

/-- The kinds of a tree, with those of its children in parentheses. -/
def shape : SyntaxNode → String
  | ⟨kind, _, []⟩ => kind.name
  | ⟨kind, _, first :: rest⟩ =>
    kind.name ++ "(" ++ ",".intercalate (shape first :: shapes rest) ++ ")"

/-- The shapes of several trees. -/
def shapes : List SyntaxNode → List String
  | [] => []
  | node :: rest => shape node :: shapes rest

end

end SyntaxNode
end Offside
