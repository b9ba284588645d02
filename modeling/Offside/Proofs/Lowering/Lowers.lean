import Offside.Lowering.Statements
import Offside.Proofs.Layout.Written
import Offside.Proofs.Parsing.Shapes
import Offside.Proofs.Syntax.Brackets

/-!
# What phrases lower to

Lowering as a relation between the phrases of a tree and the types, literals, expressions and
statements that they stand for.  There is one constructor for each form of a phrase that is not
refused.  It says which brackets have to be there and which kinds they have, and what of the
phrase is not looked at.

Main definitions:

- `LowersTy` and `LowersLiteral`: the types and literals of phrases.
- `Lowers`: the expressions of phrases.
- `LowersStmt`, `LowersBody` and `LowersTail`: the statements of phrases.
-/

namespace Offside

open Phrase

/-! ## Places -/

/-- The location of a phrase is that of its first character. -/
def Lowering.Locates (l : Lowering) (phrase : Phrase) (a : Location) : Prop :=
  Outcome.locate l.source phrase.node.span.start = .ok a

/-! ## Types and literals -/

/-- A phrase is a type. -/
inductive LowersTy : Phrase → Ty → Prop
  | name {token} (isName : token.kind = .identifier) :
      LowersTy (ofToken .variableName token) (Lowering.typeOfName token.text)
  | none {token} (isNone : token.kind = .noneWord) : LowersTy (ofToken .none token) .none
  | list {opening element closing ty} (isOpening : opening.kind = .openBracket)
      (onElement : LowersTy element ty) (isClosing : closing.kind = .closeBracket) :
      LowersTy (group .arrayExpression
        [ofToken .punctuation opening, element, ofToken .punctuation closing]) (.list ty)
  | object {name opening inside closing tys} (isName : name.kind = .identifier)
      (isOpening : opening.kind = .openBracket) (commas : CommasOnly inside)
      (length : (between inside).length = tys.length)
      (onInside : ∀ {part ty}, (part, ty) ∈ (between inside).zip tys → LowersTy part ty)
      (isClosing : closing.kind = .closeBracket) :
      LowersTy (group .memberExpression (ofToken .variableName name ::
        ofToken .punctuation opening :: inside ++ [ofToken .punctuation closing]))
        (.object name.text tys)

/-- A phrase is a type behind a mark. -/
inductive LowersTypeDef : Phrase → Ty → Prop
  | intro {marker type ty} (isMarker : marker.kind = .colon ∨ marker.kind = .arrow)
      (onType : LowersTy type ty) :
      LowersTypeDef (group .typeDef [ofToken .punctuation marker, type]) ty

/-- A phrase is a literal.  What a type variable is called with is not looked at. -/
inductive LowersLiteral (l : Lowering) : Phrase → Literal Location → Prop
  | number {token a value} (isNumber : token.kind = .number)
      (located : l.Locates (ofToken .number token) a)
      (reads : Text.readInt64? token.text.toList = some value) :
      LowersLiteral l (ofToken .number token) ⟨a, .num value⟩
  | boolean {token a} (isBoolean : token.kind = .trueWord ∨ token.kind = .falseWord)
      (located : l.Locates (ofToken .boolean token) a) :
      LowersLiteral l (ofToken .boolean token) ⟨a, .bool (token.text = "True")⟩
  | none {token a} (isNone : token.kind = .noneWord)
      (located : l.Locates (ofToken .none token) a) :
      LowersLiteral l (ofToken .none token) ⟨a, .none⟩
  | typeVar {callee arguments a} (onCallee : callee.IsExpr)
      (text : l.textOf callee.node.span = "TypeVar") (onArguments : arguments.IsArgList)
      (located : l.Locates (group .callExpression [callee, arguments]) a) :
      LowersLiteral l (group .callExpression [callee, arguments]) ⟨a, .typeVar⟩

/-! ## Expressions -/

/-- What a call of an expression with some arguments is. -/
inductive SortsCall (a : Location) : Expr Location → List (Expr Location) → Expr Location → Prop
  | method {b object field arguments} :
      SortsCall a (.lookup b object field) arguments (.methodCall a object field arguments)
  | builtin1 {b name argument} (isBuiltin : name ∈ Lowering.builtins1) :
      SortsCall a (.id b name) [argument] (.builtin1 a name argument)
  | builtin2 {b name left right} (isBuiltin : name ∈ Lowering.builtins2) :
      SortsCall a (.id b name) [left, right] (.builtin2 a name left right)
  | function {b name arguments} (isOther : name ∉ Lowering.builtins1 ∧ name ∉ Lowering.builtins2)
      (isNoTypeVar : name ≠ "TypeVar") :
      SortsCall a (.id b name) arguments (.call a name [] arguments)

/-- A phrase is an expression.  Not looked at is what a type variable is called with, and what
stands behind the first expression in the brackets of an index. -/
inductive Lowers (l : Lowering) : Phrase → Expr Location → Prop
  | literal {phrase value a} (onLiteral : LowersLiteral l phrase value)
      (isWord : phrase.kind ≠ .callExpression) (located : l.Locates phrase a) :
      Lowers l phrase (.literal a value)
  | id {token a} (isName : token.kind = .identifier)
      (located : l.Locates (ofToken .variableName token) a) :
      Lowers l (ofToken .variableName token) (.id a token.text)
  | uniOp {operator operand op e a} (onOperand : Lowers l operand e)
      (isOperator : operator.kind = .notWord ∨ operator.kind = .dash)
      (reads : UniOp.ofLexeme? operator.text = some op)
      (located : l.Locates (group .unaryExpression [ofToken .operator operator, operand]) a) :
      Lowers l (group .unaryExpression [ofToken .operator operator, operand]) (.uniOp a op e)
  | binOp {left operator right power op e e' a} (onLeft : Lowers l left e)
      (isOperator : Grammar.standard.suffix operator.kind = some (power, .binary))
      (reads : BinOp.ofLexeme? operator.text = some op) (onRight : Lowers l right e')
      (located : l.Locates (group .binaryExpression [left, ofToken .operator operator, right]) a) :
      Lowers l (group .binaryExpression [left, ofToken .operator operator, right])
        (.binOp a op e e')
  | ternary {value ifWord condition elseWord otherwise ifTrue test ifFalse a}
      (onValue : Lowers l value ifTrue) (isIf : ifWord.kind = .ifWord)
      (onCondition : Lowers l condition test) (isElse : elseWord.kind = .elseWord)
      (onOtherwise : Lowers l otherwise ifFalse)
      (located : l.Locates (group .conditionalExpression
        [value, ofToken .keyword ifWord, condition, ofToken .keyword elseWord, otherwise]) a) :
      Lowers l (group .conditionalExpression
        [value, ofToken .keyword ifWord, condition, ofToken .keyword elseWord, otherwise])
        (.ternary a ifTrue test ifFalse)
  | parenthesized {opening inside closing e} (isOpening : opening.kind = .openParen)
      (onInside : Lowers l inside e) (isClosing : closing.kind = .closeParen) :
      Lowers l (group .parenthesizedExpression
        [ofToken .punctuation opening, inside, ofToken .punctuation closing]) e
  | listLiteral {opening items closing es a} (isOpening : opening.kind = .openBracket)
      (commas : CommasOnly items) (length : (between items).length = es.length)
      (onItems : ∀ {part e}, (part, e) ∈ (between items).zip es → Lowers l part e)
      (isClosing : closing.kind = .closeBracket)
      (located : l.Locates (group .arrayExpression
        (ofToken .punctuation opening :: items ++ [ofToken .punctuation closing])) a) :
      Lowers l (group .arrayExpression
        (ofToken .punctuation opening :: items ++ [ofToken .punctuation closing]))
        (.listLiteral a es)
  | comprehension {kind opening result forWord item inWord iterable closing built e e' a}
      (isOpening : comprehensionOpening kind = some opening.kind)
      (builds : opening.kind.lexeme? = some built.brackets.1)
      (matching : opening.kind.closing? = some closing.kind) (onResult : Lowers l result e)
      (isFor : forWord.kind = .forWord) (isItem : item.kind = .identifier)
      (isIn : inWord.kind = .inWord) (onIterable : Lowers l iterable e')
      (located : l.Locates (group kind [ofToken .punctuation opening, result,
        ofToken .keyword forWord, ofToken .variableName item, ofToken .keyword inWord, iterable,
        ofToken .punctuation closing]) a) :
      Lowers l (group kind [ofToken .punctuation opening, result, ofToken .keyword forWord,
        ofToken .variableName item, ofToken .keyword inWord, iterable,
        ofToken .punctuation closing]) (.comprehension a built e item.text e' none)
  | filtered {kind opening result forWord item inWord iterable ifWord filter closing built e e' e''
      a} (isOpening : comprehensionOpening kind = some opening.kind)
      (builds : opening.kind.lexeme? = some built.brackets.1)
      (matching : opening.kind.closing? = some closing.kind) (onResult : Lowers l result e)
      (isFor : forWord.kind = .forWord) (isItem : item.kind = .identifier)
      (isIn : inWord.kind = .inWord) (onIterable : Lowers l iterable e')
      (isIf : ifWord.kind = .ifWord) (onFilter : Lowers l filter e'')
      (located : l.Locates (group kind [ofToken .punctuation opening, result,
        ofToken .keyword forWord, ofToken .variableName item, ofToken .keyword inWord, iterable,
        ofToken .keyword ifWord, filter, ofToken .punctuation closing]) a) :
      Lowers l (group kind [ofToken .punctuation opening, result, ofToken .keyword forWord,
        ofToken .variableName item, ofToken .keyword inWord, iterable, ofToken .keyword ifWord,
        filter, ofToken .punctuation closing]) (.comprehension a built e item.text e' (some e''))
  | lookup {object dot name e a} (onObject : Lowers l object e) (isDot : dot.kind = .dot)
      (isName : name.kind = .identifier)
      (located : l.Locates (group .memberExpression
        [object, ofToken .punctuation dot, ofToken .propertyName name]) a) :
      Lowers l (group .memberExpression
        [object, ofToken .punctuation dot, ofToken .propertyName name]) (.lookup a e name.text)
  | index {object opening before position behind closing e e' a} (onObject : Lowers l object e)
      (isOpening : opening.kind = .openBracket) (commas : ∀ part ∈ before, part.IsMark (· = .comma))
      (onPosition : Lowers l position e')
      (marks : ∀ part ∈ behind, part.kind = .punctuation →
        part.IsMark fun kind => kind = .colon ∨ kind = .comma)
      (others : ∀ part ∈ behind, part.kind ≠ .punctuation → part.IsExpr)
      (isClosing : closing.kind = .closeBracket)
      (located : l.Locates (group .memberExpression (object :: ofToken .punctuation opening ::
        (before ++ position :: behind) ++ [ofToken .punctuation closing])) a) :
      Lowers l (group .memberExpression (object :: ofToken .punctuation opening ::
        (before ++ position :: behind) ++ [ofToken .punctuation closing])) (.index a e e')
  | genericCall {callee opening items closing name tys es a} (onCallee : LowersTy callee
        (.object name tys)) (isMember : callee.kind = .memberExpression)
      (isOpening : opening.kind = .openParen) (commas : CommasOnly items)
      (length : (between items).length = es.length)
      (onItems : ∀ {part e}, (part, e) ∈ (between items).zip es → Lowers l part e)
      (isClosing : closing.kind = .closeParen)
      (located : l.Locates (group .callExpression [callee, group .argList
        (ofToken .punctuation opening :: items ++ [ofToken .punctuation closing])]) a) :
      Lowers l (group .callExpression [callee, group .argList
        (ofToken .punctuation opening :: items ++ [ofToken .punctuation closing])])
        (.call a name tys es)
  | call {callee opening items closing e es result a} (onCallee : Lowers l callee e)
      (isOpening : opening.kind = .openParen) (commas : CommasOnly items)
      (length : (between items).length = es.length)
      (onItems : ∀ {part e}, (part, e) ∈ (between items).zip es → Lowers l part e)
      (isClosing : closing.kind = .closeParen)
      (located : l.Locates (group .callExpression [callee, group .argList
        (ofToken .punctuation opening :: items ++ [ofToken .punctuation closing])]) a)
      (sorts : SortsCall a e es result) :
      Lowers l (group .callExpression [callee, group .argList
        (ofToken .punctuation opening :: items ++ [ofToken .punctuation closing])]) result
  | typeVar {callee arguments a b} (onCallee : Lowers l callee (.id b "TypeVar"))
      (onArguments : arguments.IsArgList)
      (located : l.Locates (group .callExpression [callee, arguments]) a) :
      Lowers l (group .callExpression [callee, arguments]) (.literal a ⟨a, .typeVar⟩)

/-! ## Statements -/

mutual

/-- A phrase is a statement. -/
inductive LowersStmt (l : Lowering) : Phrase → Stmt Location → Prop
  | assign {target mark value b name e a} (onTarget : Lowers l target (.id b name))
      (isMark : mark.kind = .assignment) (onValue : Lowers l value e)
      (located : l.Locates (group .assignStatement [target, ofToken .assignOp mark, value]) a) :
      LowersStmt l (group .assignStatement [target, ofToken .assignOp mark, value])
        (.assign a name e)
  | fieldAssign {target mark value b object field e a}
      (onTarget : Lowers l target (.lookup b object field))
      (isMark : mark.kind = .assignment) (onValue : Lowers l value e)
      (located : l.Locates (group .assignStatement [target, ofToken .assignOp mark, value]) a) :
      LowersStmt l (group .assignStatement [target, ofToken .assignOp mark, value])
        (.fieldAssign a object field e)
  | indexAssign {target mark value b object position e a}
      (onTarget : Lowers l target (.index b object position))
      (isMark : mark.kind = .assignment) (onValue : Lowers l value e)
      (located : l.Locates (group .assignStatement [target, ofToken .assignOp mark, value]) a) :
      LowersStmt l (group .assignStatement [target, ofToken .assignOp mark, value])
        (.indexAssign a object position e)
  | expr {value e a} (onValue : Lowers l value e)
      (located : l.Locates (group .expressionStatement [value]) a) :
      LowersStmt l (group .expressionStatement [value]) (.expr a e)
  | returnNone {word a} (isReturn : word.kind = .returnWord)
      (located : l.Locates (group .returnStatement [ofToken .keyword word]) a) :
      LowersStmt l (group .returnStatement [ofToken .keyword word])
        (.return a (.literal a ⟨a, .none⟩))
  | return {word value e a} (isReturn : word.kind = .returnWord) (onValue : Lowers l value e)
      (located : l.Locates (group .returnStatement [ofToken .keyword word, value]) a) :
      LowersStmt l (group .returnStatement [ofToken .keyword word, value]) (.return a e)
  | pass {word a} (isPass : word.kind = .passWord)
      (located : l.Locates (group .passStatement [ofToken .keyword word]) a) :
      LowersStmt l (group .passStatement [ofToken .keyword word]) (.pass a)
  | continue {word a} (isContinue : word.kind = .continueWord)
      (located : l.Locates (group .continueStatement [ofToken .keyword word]) a) :
      LowersStmt l (group .continueStatement [ofToken .keyword word]) (.continue a)
  | break {word a} (isBreak : word.kind = .breakWord)
      (located : l.Locates (group .breakStatement [ofToken .keyword word]) a) :
      LowersStmt l (group .breakStatement [ofToken .keyword word]) (.break a)
  | cond {word condition body tail e stmts otherwise a} (isIf : word.kind = .ifWord)
      (onCondition : Lowers l condition e) (onBody : LowersBody l body stmts)
      (onTail : LowersTail l tail otherwise)
      (located : l.Locates
        (group .ifStatement (ofToken .keyword word :: condition :: body :: tail)) a) :
      LowersStmt l (group .ifStatement (ofToken .keyword word :: condition :: body :: tail))
        (.cond a e stmts otherwise)
  | while {word condition body e stmts a} (isWhile : word.kind = .whileWord)
      (onCondition : Lowers l condition e) (onBody : LowersBody l body stmts)
      (located : l.Locates
        (group .whileStatement [ofToken .keyword word, condition, body]) a) :
      LowersStmt l (group .whileStatement [ofToken .keyword word, condition, body])
        (.while a e stmts)
  | for {word item inWord iterable body tail e stmts otherwise a} (isFor : word.kind = .forWord)
      (isItem : item.kind = .identifier) (isIn : inWord.kind = .inWord)
      (onIterable : Lowers l iterable e) (onBody : LowersBody l body stmts)
      (onElse : LowersElse l tail otherwise)
      (located : l.Locates (group .forStatement (ofToken .keyword word ::
        ofToken .variableName item :: ofToken .keyword inWord :: iterable :: body :: tail)) a) :
      LowersStmt l (group .forStatement (ofToken .keyword word :: ofToken .variableName item ::
        ofToken .keyword inWord :: iterable :: body :: tail)) (.for a item.text e stmts otherwise)

/-- A phrase is a block of statements, with its colon. -/
inductive LowersBody (l : Lowering) : Phrase → List (Stmt Location) → Prop
  | intro {colon parts stmts} (isColon : colon.kind = .colon)
      (length : parts.length = stmts.length)
      (onParts : ∀ {part stmt}, (part, stmt) ∈ parts.zip stmts → LowersStmt l part stmt) :
      LowersBody l (group .body (ofToken .punctuation colon :: parts)) stmts

/-- Phrases are the word `else` and its block, if they are there. -/
inductive LowersElse (l : Lowering) : List Phrase → List (Stmt Location) → Prop
  | nil : LowersElse l [] []
  | else {word body stmts} (isElse : word.kind = .elseWord) (onBody : LowersBody l body stmts) :
      LowersElse l [ofToken .keyword word, body] stmts

/-- Phrases are the other branches of a conditional. -/
inductive LowersTail (l : Lowering) : List Phrase → List (Stmt Location) → Prop
  | otherwise {parts stmts} (onElse : LowersElse l parts stmts) : LowersTail l parts stmts
  | elif {word condition body tail e stmts otherwise a} (isElif : word.kind = .elifWord)
      (onCondition : Lowers l condition e) (onBody : LowersBody l body stmts)
      (onTail : LowersTail l tail otherwise) (located : l.Locates (ofToken .keyword word) a) :
      LowersTail l (ofToken .keyword word :: condition :: body :: tail)
        [.cond a e stmts otherwise]

end

end Offside
