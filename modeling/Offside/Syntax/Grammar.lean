import Offside.Token

/-!
# The grammar

Expressions are read by precedence.  The grammar says, for each kind of token, which form
of statement and which form of expression it starts, which suffix it adds to an
expression on its left, and how tightly that suffix binds.

Main definition: `Grammar.standard`.
-/

namespace Offside

/-- How tightly a suffix binds, from loosest to tightest. -/
inductive Power where
  | lowest
  | ternary
  | logicalOr
  | logicalAnd
  | logicalNot
  | relational
  | additive
  | multiplicative
  | unary
  | call
  | member
  | primary
  deriving DecidableEq, Repr, Inhabited

namespace Power

/-- The place of a power in the order of binding. -/
def rank : Power → Nat
  | .lowest => 0
  | .ternary => 1
  | .logicalOr => 2
  | .logicalAnd => 3
  | .logicalNot => 4
  | .relational => 5
  | .additive => 6
  | .multiplicative => 7
  | .unary => 8
  | .call => 9
  | .member => 10
  | .primary => 11

/-- The name under which a power is shown. -/
def name : Power → String
  | .lowest => "Default"
  | .ternary => "Ternary"
  | .logicalOr => "LogicalOr"
  | .logicalAnd => "LogicalAnd"
  | .logicalNot => "LogicalNot"
  | .relational => "Relational"
  | .additive => "Additive"
  | .multiplicative => "Multiplicative"
  | .unary => "Unary"
  | .call => "Call"
  | .member => "Member"
  | .primary => "Primary"

end Power

/-- The phrases that are told by their first token. -/
inductive Form where
  | primary
  | unary
  | grouping
  | array
  | set
  | argList
  | statement
  | block
  | ifStatement
  | whileStatement
  | forStatement
  | returnStatement
  | keywordStatement
  | functionDefinition
  | classDefinition
  deriving DecidableEq, Repr

/-- The phrases that continue an expression to their left. -/
inductive Suffix where
  | binary
  | conditional
  | call
  | member
  | index
  deriving DecidableEq, Repr

/-- What each kind of token starts or continues. -/
structure Grammar where
  /-- The form of the statement that a token starts. -/
  statement : TokenKind → Option Form
  /-- The form of the expression that a token starts. -/
  expression : TokenKind → Option Form
  /-- The suffix that a token starts, and how tightly it binds. -/
  suffix : TokenKind → Option (Power × Suffix)

namespace Grammar

/-- The grammar in which no token starts anything. -/
def empty : Grammar where
  statement _ := none
  expression _ := none
  suffix _ := none

/-- Lets a kind of token start a form of statement. -/
def withStatement (g : Grammar) (kind : TokenKind) (form : Form) : Grammar :=
  { g with statement := fun k => if k = kind then some form else g.statement k }

/-- Lets a kind of token start a form of expression. -/
def withExpression (g : Grammar) (kind : TokenKind) (form : Form) : Grammar :=
  { g with expression := fun k => if k = kind then some form else g.expression k }

/-- Lets a kind of token start a suffix. -/
def withSuffix (g : Grammar) (kind : TokenKind) (power : Power) (suffix : Suffix) : Grammar :=
  { g with suffix := fun k => if k = kind then some (power, suffix) else g.suffix k }

/-- How tightly a kind of token binds to an expression on its left. -/
def power (g : Grammar) (kind : TokenKind) : Power :=
  match g.suffix kind with
  | some (power, _) => power
  | none => .lowest

/-- The statements that are told by a word. -/
def standardStatement : TokenKind → Option Form
  | .defWord => some .functionDefinition
  | .classWord => some .classDefinition
  | .ifWord => some .ifStatement
  | .whileWord => some .whileStatement
  | .forWord => some .forStatement
  | .returnWord => some .returnStatement
  | .passWord | .continueWord | .breakWord => some .keywordStatement
  | _ => none

/-- The ways in which an expression starts. -/
def standardExpression : TokenKind → Option Form
  | .number | .identifier | .string | .trueWord | .falseWord | .noneWord => some .primary
  | .dash | .notWord => some .unary
  | .openParen => some .grouping
  | .openBracket => some .array
  | .openCurly => some .set
  | _ => none

/-- The ways in which an expression goes on. -/
def standardSuffix : TokenKind → Option (Power × Suffix)
  | .ifWord => some (.ternary, .conditional)
  | .orWord => some (.logicalOr, .binary)
  | .andWord => some (.logicalAnd, .binary)
  | .less | .lessEquals | .greater | .greaterEquals | .equals | .notEquals | .isWord =>
    some (.relational, .binary)
  | .plus | .dash => some (.additive, .binary)
  | .star | .doubleSlash | .percent => some (.multiplicative, .binary)
  | .openParen => some (.call, .call)
  | .dot => some (.member, .member)
  | .openBracket => some (.member, .index)
  | _ => none

/-- The grammar of the language. -/
def standard : Grammar where
  statement := standardStatement
  expression := standardExpression
  suffix := standardSuffix

end Grammar
end Offside
