import Offside.Diagnostic
import Offside.Syntax.Grammar
import Offside.Syntax.Node

/-!
# Parsing

From tokens to a syntax tree.  One rule per phrase says which tokens and which smaller
phrases make it up; `Parser.rule` gives it in terms of an arbitrary reader of smaller
phrases, and `Parser.read` ties the knot.  Every token but those of layout becomes a leaf.

Main definitions: `Parser.read` and `parse`.
-/

namespace Offside

/-- Tokens that are still to be read: there always is a current one, and the last one is
never left. -/
structure TokenStream where
  current : Token
  rest : List Token
  deriving Repr, Inhabited

namespace TokenStream

/-- A token list that ends with the end of the file, at position `stop` if that has to be
added. -/
def complete (tokens : List Token) (stop : Nat) : List Token :=
  if tokens.getLast?.map Token.kind = some .eof then tokens else tokens ++ [.eof stop]

/-- The stream of a token list for a source of `stop` bytes. -/
def ofTokens (tokens : List Token) (stop : Nat) : TokenStream :=
  match complete tokens stop with
  | first :: rest => ⟨first, rest⟩
  | [] => ⟨.eof stop, []⟩

/-- All tokens still to be read. -/
def toList (stream : TokenStream) : List Token := stream.current :: stream.rest

/-- The stream behind the current token. -/
def next (stream : TokenStream) : TokenStream :=
  match stream.rest with
  | [] => stream
  | token :: rest => ⟨token, rest⟩

/-- Whether the end of the file is not reached. -/
def hasTokens (stream : TokenStream) : Bool := stream.current.kind ≠ .eof

end TokenStream

/-- A reader of tokens. -/
abbrev Parse := StateT TokenStream Outcome

namespace Parse

/-- The current token. -/
def current : Parse Token := do return (← get).current

/-- The kind of the current token. -/
def currentKind : Parse TokenKind := do return (← current).kind

/-- Reads one token. -/
def advance : Parse Token := fun stream => .ok (stream.current, stream.next)

/-- Reads one token as a leaf. -/
def leaf (kind : SyntaxKind) : Parse SyntaxNode := do return .leaf kind (← advance).span

/-- Repeats a reader as long as the current token passes, at most `limit` times. -/
def rounds (passes : TokenKind → Bool) (item : Parse (List SyntaxNode)) :
    Nat → Parse (List SyntaxNode)
  | 0 => do if passes (← currentKind) then throw .unfinished else return []
  | limit + 1 => do
    if passes (← currentKind) then
      let first ← item
      let more ← rounds passes item limit
      return first ++ more
    else return []

/-- Repeats a reader as long as the current token passes.  A round that succeeds reads a
token, so there are no more rounds than tokens. -/
def repeatWhile (passes : TokenKind → Bool) (item : Parse (List SyntaxNode)) :
    Parse (List SyntaxNode) := fun stream =>
  rounds passes item (stream.rest.length + 1) stream

/-- Reads something only when the current token passes. -/
def optionally (passes : TokenKind → Bool) (item : Parse (List SyntaxNode)) :
    Parse (List SyntaxNode) := do
  if passes (← currentKind) then item else return []

end Parse

/-- A phrase to be read. -/
inductive Goal where
  /-- An expression in which only suffixes above the given power are taken. -/
  | expression (above : Power)
  | form (form : Form)
  /-- A suffix of the given power behind an expression. -/
  | suffix (suffix : Suffix) (left : SyntaxNode) (power : Power)

/-- A grammar at work on a source, whose text serves to locate errors. -/
structure Parser where
  source : Source
  grammar : Grammar

namespace Parser

open Parse

/-- Refuses the current token. -/
def unexpected {α : Type} (p : Parser) : Parse α := fun stream =>
  Outcome.refuseAt p.source stream.current.span.start (.unexpectedToken stream.current.shown)

/-- Refuses the current token, with a reason. -/
def unexpectedBecause {α : Type} (p : Parser) (reason : String) : Parse α := fun stream =>
  Outcome.refuseAt p.source stream.current.span.start
    (.unexpectedTokenDetailed stream.current.shown reason)

/-- Reads a token that has to be of a kind. -/
def expect (p : Parser) (kind : TokenKind) : Parse Token := do
  if (← currentKind) = kind then advance else p.unexpected

/-- Reads a token that has to be of a kind, and gives the reason when it is not. -/
def expectBecause (p : Parser) (kind : TokenKind) (reason : String) : Parse Token := do
  if (← currentKind) = kind then advance else p.unexpectedBecause reason

/-- Reads a token that has to be of a kind, as a leaf. -/
def expectLeaf (p : Parser) (kind : TokenKind) (leafKind : SyntaxKind) : Parse SyntaxNode := do
  return .leaf leafKind (← p.expect kind).span

/-! ## Expressions -/

section Rules

variable (p : Parser) (read : Goal → Parse SyntaxNode)

/-- The suffix that the current token starts, if it binds above a power. -/
def suffixAbove (above : Power) : Parse (Option (Power × Suffix)) := do
  match p.grammar.suffix (← currentKind) with
  | some (power, suffix) =>
    if above.rank < power.rank then return some (power, suffix) else return none
  | none => return none

/-- Takes suffixes above a power, at most `limit` of them. -/
def extend (above : Power) : Nat → SyntaxNode → Parse SyntaxNode
  | 0, left => do
    match ← suffixAbove p above with
    | some _ => throw .unfinished
    | none => return left
  | limit + 1, left => do
    match ← suffixAbove p above with
    | some (power, suffix) => do extend above limit (← read (.suffix suffix left power))
    | none => return left

/-- An expression: what its first token starts, and then all suffixes above a power. -/
def expression (above : Power) : Parse SyntaxNode := do
  match p.grammar.expression (← currentKind) with
  | none => p.unexpected
  | some form => do
    let left ← read (.form form)
    fun stream => extend p read above (stream.rest.length + 1) left stream

/-- A word or number that is an expression by itself. -/
def primary : Parse SyntaxNode := do
  match ← currentKind with
  | .number => leaf .number
  | .identifier => leaf .variableName
  | .string => leaf .string
  | .trueWord | .falseWord => leaf .boolean
  | .noneWord => leaf .none
  | _ => p.unexpected

/-- An operator and its operand. -/
def unary : Parse SyntaxNode := do
  let power := if (← currentKind) = .notWord then .logicalNot else .unary
  let operator ← leaf .operator
  let operand ← read (.expression power)
  return .branch .unaryExpression [operator, operand]

/-- The rest of a comprehension behind its result: `for item in iterable`, perhaps a
filter, and some closing bracket. -/
def comprehensionTail (kind : SyntaxKind) (opening result : SyntaxNode) : Parse SyntaxNode := do
  let forWord ← p.expectLeaf .forWord .keyword
  let item ← p.expectLeaf .identifier .variableName
  let inWord ← p.expectLeaf .inWord .keyword
  let iterable ← read (.expression .ternary)
  let filter ← optionally (· = .ifWord) do
    let ifWord ← leaf .keyword
    let condition ← read (.expression .ternary)
    return [ifWord, condition]
  if (← currentKind).isClosing then
    let closing ← leaf .punctuation
    return .branch kind ([opening, result, forWord, item, inWord, iterable] ++ filter ++ [closing])
  else p.unexpectedBecause "expected a closing bracket"

/-- An expression in parentheses, or a generator.  A missing parenthesis is let pass. -/
def grouping : Parse SyntaxNode := do
  let opening ← leaf .punctuation
  let inner ← read (.expression .lowest)
  if (← currentKind) = .forWord then
    comprehensionTail p read .comprehensionExpression opening inner
  else
    let closing ← optionally (· = .closeParen) do return [← leaf .punctuation]
    return .branch .parenthesizedExpression ([opening, inner] ++ closing)

/-- A list of expressions, or a list comprehension.  A missing bracket is let pass. -/
def array : Parse SyntaxNode := do
  let opening ← leaf .punctuation
  if (← currentKind) = .closeBracket then
    let closing ← leaf .punctuation
    return .branch .arrayExpression [opening, closing]
  else
    let first ← read (.expression .lowest)
    if (← currentKind) = .forWord then
      comprehensionTail p read .arrayComprehensionExpression opening first
    else
      let more ← repeatWhile (· = .comma) do
        let comma ← leaf .punctuation
        let element ← optionally (· ≠ .closeBracket) do return [← read (.expression .lowest)]
        return comma :: element
      let closing ← optionally (· = .closeBracket) do return [← leaf .punctuation]
      return .branch .arrayExpression ([opening, first] ++ more ++ closing)

/-- A set comprehension. -/
def set : Parse SyntaxNode := do
  let opening ← leaf .punctuation
  let result ← read (.expression .lowest)
  if (← currentKind) = .forWord then
    comprehensionTail p read .setComprehensionExpression opening result
  else p.unexpectedBecause "only set comprehensions are supported"

/-- Expressions and commas in any mixture, between parentheses. -/
def argList : Parse SyntaxNode := do
  let opening ← p.expectLeaf .openParen .punctuation
  let arguments ← repeatWhile (· ≠ .closeParen) do
    if (← currentKind) = .comma then return [← leaf .punctuation]
    else return [← read (.expression .lowest)]
  let closing ← p.expectLeaf .closeParen .punctuation
  return .branch .argList ([opening] ++ arguments ++ [closing])

/-! ## Suffixes -/

/-- An operator and its right operand, which binds tighter. -/
def binary (left : SyntaxNode) (power : Power) : Parse SyntaxNode := do
  let operator ← leaf .operator
  let right ← read (.expression power)
  return .branch .binaryExpression [left, operator, right]

/-- The condition and the alternative of a conditional. -/
def conditional (left : SyntaxNode) : Parse SyntaxNode := do
  let ifWord ← leaf .keyword
  let condition ← read (.expression .ternary)
  let elseWord ← p.expectLeaf .elseWord .keyword
  let otherwise ← read (.expression .lowest)
  return .branch .conditionalExpression [left, ifWord, condition, elseWord, otherwise]

/-- The arguments of a call. -/
def call (left : SyntaxNode) : Parse SyntaxNode := do
  let arguments ← argList p read
  return .branch .callExpression [left, arguments]

/-- A property of an object. -/
def member (left : SyntaxNode) : Parse SyntaxNode := do
  let dot ← leaf .punctuation
  let property ← p.expectLeaf .identifier .propertyName
  return .branch .memberExpression [left, dot, property]

/-- Expressions, colons and commas in any mixture, between brackets. -/
def index (left : SyntaxNode) : Parse SyntaxNode := do
  let opening ← leaf .punctuation
  let inside ← repeatWhile (· ≠ .closeBracket) do
    let kind ← currentKind
    if kind = .colon ∨ kind = .comma then return [← leaf .punctuation]
    else return [← read (.expression .lowest)]
  let closing ← leaf .punctuation
  return .branch .memberExpression ([left, opening] ++ inside ++ [closing])

/-! ## Statements -/

/-- A type behind a colon or an arrow. -/
def typeDef (marker : TokenKind) : Parse SyntaxNode := do
  let mark ← p.expectLeaf marker .punctuation
  let type ← read (.expression .lowest)
  return .branch .typeDef [mark, type]

/-- An expression as a statement, or an assignment, with or without a type. -/
def simpleStatement : Parse SyntaxNode := do
  let target ← read (.expression .lowest)
  let node ← do
    match ← currentKind with
    | .colon =>
      let type ← typeDef p read .colon
      let value ← optionally (· = .assignment) do
        let mark ← leaf .assignOp
        let value ← read (.expression .lowest)
        return [mark, value]
      pure (.branch .assignStatement ([target, type] ++ value))
    | .assignment =>
      let mark ← leaf .assignOp
      let value ← read (.expression .lowest)
      pure (.branch .assignStatement [target, mark, value])
    | _ => pure (.branch .expressionStatement [target])
  let _ ← p.expect .newline
  return node

/-- A statement that a word tells, or else a simple one. -/
def statement : Parse SyntaxNode := do
  match p.grammar.statement (← currentKind) with
  | some form => read (.form form)
  | none => simpleStatement p read

/-- A colon, and either one statement on the same line or an indented block.  A missing
colon is let pass. -/
def block : Parse SyntaxNode := do
  let colon ← optionally (· = .colon) do return [← leaf .punctuation]
  if (← currentKind) = .newline then
    let _ ← advance
    let _ ← p.expect .indent
    let statements ← repeatWhile (fun kind => kind ≠ .dedent && kind ≠ .eof) do
      return [← read (.form .statement)]
    let _ ← p.expect .dedent
    return .branch .body (colon ++ statements)
  else
    let statement ← read (.form .statement)
    return .branch .body (colon ++ [statement])

/-- The word `else` and its block, if they follow. -/
def elsePart : Parse (List SyntaxNode) :=
  optionally (· = .elseWord) do
    let word ← leaf .keyword
    let body ← read (.form .block)
    return [word, body]

/-- A conditional statement. -/
def ifStatement : Parse SyntaxNode := do
  let word ← leaf .keyword
  let condition ← read (.expression .lowest)
  let body ← read (.form .block)
  let more ← repeatWhile (· = .elifWord) do
    let word ← leaf .keyword
    let condition ← read (.expression .lowest)
    let body ← read (.form .block)
    return [word, condition, body]
  let otherwise ← elsePart read
  return .branch .ifStatement ([word, condition, body] ++ more ++ otherwise)

/-- A loop under a condition. -/
def whileStatement : Parse SyntaxNode := do
  let word ← leaf .keyword
  let condition ← read (.expression .lowest)
  let body ← read (.form .block)
  return .branch .whileStatement [word, condition, body]

/-- A loop over the elements of an iterable. -/
def forStatement : Parse SyntaxNode := do
  let word ← leaf .keyword
  let item ← p.expectLeaf .identifier .variableName
  let inWord ← p.expectLeaf .inWord .keyword
  let iterable ← read (.expression .lowest)
  let body ← read (.form .block)
  let otherwise ← elsePart read
  return .branch .forStatement ([word, item, inWord, iterable, body] ++ otherwise)

/-- A return, with or without a value. -/
def returnStatement : Parse SyntaxNode := do
  let word ← leaf .keyword
  let value ← optionally (· ≠ .newline) do return [← read (.expression .lowest)]
  let _ ← p.expect .newline
  return .branch .returnStatement (word :: value)

/-- A statement that is one word. -/
def keywordStatement : Parse SyntaxNode := do
  let wordAs := fun (kind : SyntaxKind) => (do
    let word ← leaf .keyword
    let _ ← p.expect .newline
    return .branch kind [word] : Parse SyntaxNode)
  match ← currentKind with
  | .passWord => wordAs .passStatement
  | .continueWord => wordAs .continueStatement
  | .breakWord => wordAs .breakStatement
  | _ => p.unexpected

/-- Names, each perhaps with a type, between parentheses. -/
def paramList : Parse SyntaxNode := do
  let opening ← p.expectLeaf .openParen .punctuation
  let parameters ← repeatWhile (· ≠ .closeParen) do
    let name ← p.expectLeaf .identifier .variableName
    let type ← optionally (· = .colon) do return [← typeDef p read .colon]
    match ← currentKind with
    | .comma => return [name] ++ type ++ [← leaf .punctuation]
    | .closeParen => return [name] ++ type
    | _ => p.unexpectedBecause "expected `,` or `)` in parameter list"
  let closing ← leaf .punctuation
  return .branch .paramList ([opening] ++ parameters ++ [closing])

/-- The definition of a function. -/
def functionDefinition : Parse SyntaxNode := do
  let word ← leaf .keyword
  let name ← p.expectLeaf .identifier .variableName
  let parameters ← paramList p read
  let result ← optionally (· = .arrow) do return [← typeDef p read .arrow]
  let body ← read (.form .block)
  return .branch .functionDefinition ([word, name, parameters] ++ result ++ [body])

/-- The definition of a class. -/
def classDefinition : Parse SyntaxNode := do
  let word ← leaf .keyword
  let name ← p.expectLeaf .identifier .variableName
  let bases ← optionally (· = .openParen) do return [← argList p read]
  let body ← read (.form .block)
  return .branch .classDefinition ([word, name] ++ bases ++ [body])

/-! ## All rules -/

/-- What makes up a phrase, given a reader of smaller phrases. -/
def rule : Goal → Parse SyntaxNode
  | .expression above => expression p read above
  | .form .primary => primary p
  | .form .unary => unary read
  | .form .grouping => grouping p read
  | .form .array => array p read
  | .form .set => set p read
  | .form .argList => argList p read
  | .form .statement => statement p read
  | .form .block => block p read
  | .form .ifStatement => ifStatement read
  | .form .whileStatement => whileStatement read
  | .form .forStatement => forStatement p read
  | .form .returnStatement => returnStatement p read
  | .form .keywordStatement => keywordStatement p
  | .form .functionDefinition => functionDefinition p read
  | .form .classDefinition => classDefinition p read
  | .suffix .binary left power => binary read left power
  | .suffix .conditional left _ => conditional p read left
  | .suffix .call left _ => call p read left
  | .suffix .member left _ => member p left
  | .suffix .index left _ => index read left

end Rules

/-- Reads a phrase, with at most `fuel` phrases inside one another. -/
def readWithin (p : Parser) : Nat → Goal → Parse SyntaxNode
  | 0, _ => throw .unfinished
  | fuel + 1, goal => p.rule (p.readWithin fuel) goal

/-- A bound on how many phrases lie inside one another: no more than a few start at one
token. -/
def nesting (stream : TokenStream) : Nat := 32 * (stream.rest.length + 2)

/-- Reads a phrase. -/
def read (p : Parser) (goal : Goal) : Parse SyntaxNode := fun stream =>
  p.readWithin (nesting stream) goal stream

/-- Reads statements up to the end of the file. -/
def script (p : Parser) : Parse SyntaxNode := do
  let statements ← repeatWhile (· ≠ .eof) do return [← p.read (.form .statement)]
  return ⟨.script, ⟨0, Source.byteSize p.source⟩, statements⟩

end Parser

/-- The syntax tree of a token list. -/
def parse (tokens : List Token) (source : Source) : Outcome SyntaxNode := do
  let (tree, _) ←
    (Parser.script ⟨source, .standard⟩).run
      (TokenStream.ofTokens tokens (Source.byteSize source))
  return tree

end Offside
