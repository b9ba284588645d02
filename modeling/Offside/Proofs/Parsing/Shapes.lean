import Offside.Proofs.Parsing.Invariants
import Offside.Proofs.Parsing.Leaves

/-!
# Shapes of phrases

Which parts each kind of phrase has, in order.  Parts that a source may leave out are optional
here: the colon of a block, and the closing bracket of a list and of an expression in
parentheses.

Main definitions:

- `Phrase.IsExpr`, `Phrase.IsArgList` and `Phrase.IsTypeDef`: the shapes of expressions, of
  arguments and of types.
- `Phrase.IsStmt` and `Phrase.IsBody`: the shapes of statements and blocks.
- `shapes`: the invariant of these shapes.

Main results:

- Theorem `shapes_kept`: all rules keep the invariant.
- Theorem `parse_shape`: the tree of a token list is a row of statements over the words of the
  list.
-/

namespace Offside
namespace Phrase

/-! ## Expressions -/

/-- A mark of an accepted kind. -/
def IsMark (accepts : TokenKind → Prop) (phrase : Phrase) : Prop :=
  ∃ token, accepts token.kind ∧ phrase = ofToken .punctuation token

/-- The marks of a row are commas. -/
def CommasOnly (phrases : List Phrase) : Prop :=
  ∀ part ∈ phrases, part.kind = .punctuation → part.IsMark (· = .comma)

/-- The phrases of a row that are no marks. -/
def between (phrases : List Phrase) : List Phrase :=
  phrases.filter fun phrase => phrase.kind ≠ .punctuation

/-- A mark, if it is there. -/
def optionalMark (token : Option Token) : List Phrase := token.toList.map (ofToken .punctuation)

/-- The bracket that a comprehension of a kind starts with. -/
def comprehensionOpening : SyntaxKind → Option TokenKind
  | .comprehensionExpression => some .openParen
  | .arrayComprehensionExpression => some .openBracket
  | .setComprehensionExpression => some .openCurly
  | _ => none

/-- The shapes of expressions.  What stands in a row with marks in any mixture is an expression
unless it is a mark. -/
inductive IsExpr : Phrase → Prop
  | number {token} (isNumber : token.kind = .number) : IsExpr (ofToken .number token)
  | name {token} (isName : token.kind = .identifier) : IsExpr (ofToken .variableName token)
  | string {token} (isString : token.kind = .string) : IsExpr (ofToken .string token)
  | boolean {token} (isBoolean : token.kind = .trueWord ∨ token.kind = .falseWord) :
      IsExpr (ofToken .boolean token)
  | none {token} (isNone : token.kind = .noneWord) : IsExpr (ofToken .none token)
  | unary {operator operand} (isOperator : operator.kind = .notWord ∨ operator.kind = .dash)
      (onOperand : IsExpr operand) :
      IsExpr (group .unaryExpression [ofToken .operator operator, operand])
  | binary {left operator right power} (onLeft : IsExpr left)
      (isOperator : Grammar.standard.suffix operator.kind = some (power, .binary))
      (onRight : IsExpr right) :
      IsExpr (group .binaryExpression [left, ofToken .operator operator, right])
  | conditional {value ifWord condition elseWord otherwise} (onValue : IsExpr value)
      (isIf : ifWord.kind = .ifWord) (onCondition : IsExpr condition)
      (isElse : elseWord.kind = .elseWord) (onOtherwise : IsExpr otherwise) :
      IsExpr (group .conditionalExpression
        [value, ofToken .keyword ifWord, condition, ofToken .keyword elseWord, otherwise])
  | parenthesized {opening inside closing} (isOpening : opening.kind = .openParen)
      (onInside : IsExpr inside) (isClosing : ∀ token ∈ closing, token.kind = .closeParen) :
      IsExpr (group .parenthesizedExpression
        (ofToken .punctuation opening :: inside :: optionalMark closing))
  | emptyList {opening closing} (isOpening : opening.kind = .openBracket)
      (isClosing : closing.kind = .closeBracket) :
      IsExpr (group .arrayExpression [ofToken .punctuation opening, ofToken .punctuation closing])
  | list {opening first more closing} (isOpening : opening.kind = .openBracket)
      (onFirst : IsExpr first)
      (commas : CommasOnly more)
      (onMore : ∀ part ∈ more, part.kind ≠ .punctuation → IsExpr part)
      (isClosing : ∀ token ∈ closing, token.kind = .closeBracket) :
      IsExpr (group .arrayExpression
        (ofToken .punctuation opening :: first :: more ++ optionalMark closing))
  | comprehension {kind opening result forWord item inWord iterable closing}
      (isOpening : comprehensionOpening kind = some opening.kind) (onResult : IsExpr result)
      (isFor : forWord.kind = .forWord) (isItem : item.kind = .identifier)
      (isIn : inWord.kind = .inWord) (onIterable : IsExpr iterable)
      (isClosing : closing.kind.isClosing = true) :
      IsExpr (group kind [ofToken .punctuation opening, result, ofToken .keyword forWord,
        ofToken .variableName item, ofToken .keyword inWord, iterable,
        ofToken .punctuation closing])
  | filtered {kind opening result forWord item inWord iterable ifWord filter closing}
      (isOpening : comprehensionOpening kind = some opening.kind) (onResult : IsExpr result)
      (isFor : forWord.kind = .forWord) (isItem : item.kind = .identifier)
      (isIn : inWord.kind = .inWord) (onIterable : IsExpr iterable)
      (isIf : ifWord.kind = .ifWord) (onFilter : IsExpr filter)
      (isClosing : closing.kind.isClosing = true) :
      IsExpr (group kind [ofToken .punctuation opening, result, ofToken .keyword forWord,
        ofToken .variableName item, ofToken .keyword inWord, iterable, ofToken .keyword ifWord,
        filter, ofToken .punctuation closing])
  | call {callee opening items closing} (onCallee : IsExpr callee)
      (isOpening : opening.kind = .openParen)
      (commas : CommasOnly items)
      (onItems : ∀ part ∈ items, part.kind ≠ .punctuation → IsExpr part)
      (isClosing : closing.kind = .closeParen) :
      IsExpr (group .callExpression [callee, group .argList
        (ofToken .punctuation opening :: items ++ [ofToken .punctuation closing])])
  | property {object dot name} (onObject : IsExpr object) (isDot : dot.kind = .dot)
      (isName : name.kind = .identifier) :
      IsExpr (group .memberExpression
        [object, ofToken .punctuation dot, ofToken .propertyName name])
  | index {object opening inside closing} (onObject : IsExpr object)
      (isOpening : opening.kind = .openBracket)
      (marks : ∀ part ∈ inside, part.kind = .punctuation →
        part.IsMark fun kind => kind = .colon ∨ kind = .comma)
      (onInside : ∀ part ∈ inside, part.kind ≠ .punctuation → IsExpr part)
      (isClosing : closing.kind = .closeBracket) :
      IsExpr (group .memberExpression
        (object :: ofToken .punctuation opening :: inside ++ [ofToken .punctuation closing]))

/-- The shape of a list of arguments. -/
inductive IsArgList : Phrase → Prop
  | intro {opening items closing} (isOpening : opening.kind = .openParen)
      (commas : CommasOnly items)
      (onItems : ∀ part ∈ items, part.kind ≠ .punctuation → IsExpr part)
      (isClosing : closing.kind = .closeParen) :
      IsArgList (group .argList
        (ofToken .punctuation opening :: items ++ [ofToken .punctuation closing]))

/-! ## Statements -/

/-- The shape of a type behind a mark. -/
inductive IsTypeDef : Phrase → Prop
  | intro {marker type} (onType : IsExpr type)
      (isMarker : marker.kind = .colon ∨ marker.kind = .arrow) :
      IsTypeDef (group .typeDef [ofToken .punctuation marker, type])

/-- The shapes of a row of parameters. -/
inductive AreParameters : List Phrase → Prop
  | nil : AreParameters []
  | cons {name type comma more} (isName : name.kind = .identifier)
      (onType : ∀ phrase ∈ type, IsTypeDef phrase) (isComma : ∀ token ∈ comma, token.kind = .comma)
      (onMore : AreParameters more) :
      AreParameters (ofToken .variableName name ::
        (Option.toList type ++ (optionalMark comma ++ more)))

/-- The shape of a list of parameters. -/
inductive IsParamList : Phrase → Prop
  | intro {opening parameters closing} (isOpening : opening.kind = .openParen)
      (onParameters : AreParameters parameters) (isClosing : closing.kind = .closeParen) :
      IsParamList (group .paramList
        (ofToken .punctuation opening :: parameters ++ [ofToken .punctuation closing]))

/-- Statements that are one word, with the word. -/
def wordStatement : SyntaxKind → Option TokenKind
  | .passStatement => some .passWord
  | .continueStatement => some .continueWord
  | .breakStatement => some .breakWord
  | _ => none

mutual

/-- The shapes of statements. -/
inductive IsStmt : Phrase → Prop
  | declaration {target type} (onTarget : IsExpr target) (onType : IsTypeDef type) :
      IsStmt (group .assignStatement [target, type])
  | definition {target type mark value} (onTarget : IsExpr target) (onType : IsTypeDef type)
      (isMark : mark.kind = .assignment) (onValue : IsExpr value) :
      IsStmt (group .assignStatement [target, type, ofToken .assignOp mark, value])
  | assign {target mark value} (onTarget : IsExpr target) (isMark : mark.kind = .assignment)
      (onValue : IsExpr value) :
      IsStmt (group .assignStatement [target, ofToken .assignOp mark, value])
  | expr {value} (onValue : IsExpr value) : IsStmt (group .expressionStatement [value])
  | returnNone {word} (isReturn : word.kind = .returnWord) :
      IsStmt (group .returnStatement [ofToken .keyword word])
  | return {word value} (isReturn : word.kind = .returnWord) (onValue : IsExpr value) :
      IsStmt (group .returnStatement [ofToken .keyword word, value])
  | word {kind word} (isWord : wordStatement kind = some word.kind) :
      IsStmt (group kind [ofToken .keyword word])
  | cond {word condition body tail} (isIf : word.kind = .ifWord) (onCondition : IsExpr condition)
      (onBody : IsBody body) (onTail : IsIfTail tail) :
      IsStmt (group .ifStatement (ofToken .keyword word :: condition :: body :: tail))
  | while {word condition body} (isWhile : word.kind = .whileWord)
      (onCondition : IsExpr condition) (onBody : IsBody body) :
      IsStmt (group .whileStatement [ofToken .keyword word, condition, body])
  | for {word item inWord iterable body otherwise} (isFor : word.kind = .forWord)
      (isItem : item.kind = .identifier) (isIn : inWord.kind = .inWord)
      (onIterable : IsExpr iterable) (onBody : IsBody body) (onOtherwise : IsElse otherwise) :
      IsStmt (group .forStatement (ofToken .keyword word :: ofToken .variableName item ::
        ofToken .keyword inWord :: iterable :: body :: otherwise))
  | fun {word name parameters result body} (isDef : word.kind = .defWord)
      (isName : name.kind = .identifier) (onParameters : IsParamList parameters)
      (onResult : ∀ type ∈ result, IsTypeDef type) (onBody : IsBody body) :
      IsStmt (group .functionDefinition (ofToken .keyword word :: ofToken .variableName name ::
        parameters :: (Option.toList result ++ [body])))
  | class {word name bases body} (isClass : word.kind = .classWord)
      (isName : name.kind = .identifier) (onBases : ∀ phrase ∈ bases, IsArgList phrase)
      (onBody : IsBody body) :
      IsStmt (group .classDefinition (ofToken .keyword word :: ofToken .variableName name ::
        (Option.toList bases ++ [body])))

/-- The shape of a block. -/
inductive IsBody : Phrase → Prop
  | intro {colon statements} (isColon : ∀ token ∈ colon, token.kind = .colon)
      (onStatements : ∀ statement ∈ statements, IsStmt statement) :
      IsBody (group .body (optionalMark colon ++ statements))

/-- The shapes of the word `else` and its block, if they are there. -/
inductive IsElse : List Phrase → Prop
  | nil : IsElse []
  | else {word body} (isElse : word.kind = .elseWord) (onBody : IsBody body) :
      IsElse [ofToken .keyword word, body]

/-- The shapes of what follows the first block of a conditional. -/
inductive IsIfTail : List Phrase → Prop
  | otherwise {otherwise} (onOtherwise : IsElse otherwise) : IsIfTail otherwise
  | elif {word condition body tail} (isElif : word.kind = .elifWord)
      (onCondition : IsExpr condition) (onBody : IsBody body) (onTail : IsIfTail tail) :
      IsIfTail (ofToken .keyword word :: condition :: body :: tail)

end

/-- The shape of a whole tree: a row of statements. -/
def IsScript (phrase : Phrase) : Prop :=
  phrase.kind = .script ∧ ∃ statements : List Phrase,
    phrase.node.children = statements.map node ∧ phrase.words = statements.flatMap words ∧
    (∀ statement ∈ statements, statement.Exact) ∧ ∀ statement ∈ statements, statement.IsStmt

end Phrase

open Phrase

/-! ## The invariant -/

/-- The shape of the phrases of a form. -/
def Form.shape : Form → Phrase → Prop
  | .primary | .unary | .grouping | .array | .set => IsExpr
  | .argList => IsArgList
  | .block => IsBody
  | _ => IsStmt

/-- The invariant of shapes: a form is one phrase with the shape of the form. -/
def shapes : Invariant where
  form form phrases _ := ∃ phrase, phrases = [phrase] ∧ form.shape phrase
  operand _ phrase _ := phrase.IsExpr

section Rules

variable {rule : Rule} {tokens rest : List Token} {phrases : List Phrase}

/-! ## Expressions -/

/-- A mark is a leaf of punctuation. -/
theorem Phrase.IsMark.kind_eq {accepts : TokenKind → Prop} {phrase : Phrase}
    (h : phrase.IsMark accepts) : phrase.kind = .punctuation := by
  rcases h with ⟨token, -, rfl⟩
  rfl

/-- No expression is a mark. -/
theorem Phrase.IsExpr.kind_ne {phrase : Phrase} (h : phrase.IsExpr) :
    phrase.kind ≠ .punctuation := by
  cases h with
  | comprehension isOpening | filtered isOpening =>
    rintro rfl
    cases isOpening
  | _ => exact nofun

/-- The shape of a type tells its kind. -/
theorem Phrase.IsTypeDef.kind_eq {phrase : Phrase} (h : phrase.IsTypeDef) :
    phrase.kind = .typeDef := by
  cases h
  rfl

/-- The shape of arguments tells their kind. -/
theorem Phrase.IsArgList.kind_eq {phrase : Phrase} (h : phrase.IsArgList) :
    phrase.kind = .argList := by
  cases h
  rfl

/-- The shape of a block tells its kind. -/
theorem Phrase.IsBody.kind_eq {phrase : Phrase} (h : phrase.IsBody) : phrase.kind = .body := by
  cases h
  rfl

/-- An expression that is a name is one word. -/
theorem Phrase.IsExpr.eq_name {phrase : Phrase} (h : phrase.IsExpr)
    (hkind : phrase.kind = .variableName) :
    ∃ token, token.kind = .identifier ∧ phrase = ofToken .variableName token := by
  cases h with
  | name isName => exact ⟨_, isName, rfl⟩
  | comprehension isOpening | filtered isOpening =>
    cases hkind
    cases isOpening
  | _ => cases hkind

/-- A row of marks and expressions holds nothing else. -/
theorem row_of_forall_mem {accepts : TokenKind → Prop}
    (hrow : ∀ part ∈ phrases, part.IsMark accepts ∨ part.IsExpr) :
    (∀ part ∈ phrases, part.kind = .punctuation → part.IsMark accepts) ∧
      ∀ part ∈ phrases, part.kind ≠ .punctuation → part.IsExpr := by
  constructor
  · intro part hpart hkind
    exact (hrow part hpart).resolve_right fun hexpr => hexpr.kind_ne hkind
  · intro part hpart hkind
    exact (hrow part hpart).resolve_left fun hmark => hkind hmark.kind_eq

/-- A row of phrases of one rule holds marks and expressions if each phrase is one. -/
theorem row_of_repeats (accepts : TokenKind → Prop)
    (hone : ∀ tokens phrases rest, rule.Fits shapes tokens phrases rest →
      ∀ part ∈ phrases, part.IsMark accepts ∨ part.IsExpr)
    (h : (Rule.many rule).Fits shapes tokens phrases rest) :
    (∀ part ∈ phrases, part.kind = .punctuation → part.IsMark accepts) ∧
      ∀ part ∈ phrases, part.kind ≠ .punctuation → part.IsExpr :=
  row_of_forall_mem (h.forall_mem hone)

/-- A mark that may be left out. -/
theorem optionalMark_of_fits {kind : TokenKind}
    (h : (Rule.optional (.mark kind)).Fits shapes tokens phrases rest) :
    ∃ token, (∀ t ∈ token, t.kind = kind) ∧ phrases = optionalMark token := by
  rcases h with ⟨token, hkind, rfl, -⟩ | ⟨rfl, -⟩
  · exact ⟨some token, by simpa using hkind, rfl⟩
  · exact ⟨none, nofun, rfl⟩

/-- A phrase that may be left out. -/
theorem optional_of_fits {shape : Phrase → Prop}
    (hone : ∀ tokens phrases rest, rule.Fits shapes tokens phrases rest →
      ∃ phrase, phrases = [phrase] ∧ shape phrase)
    (h : (Rule.optional rule).Fits shapes tokens phrases rest) :
    ∃ phrase, (∀ p ∈ phrase, shape p) ∧ phrases = Option.toList phrase := by
  rcases h with hsome | ⟨rfl, -⟩
  · rcases hone _ _ _ hsome with ⟨phrase, rfl, hphrase⟩
    exact ⟨some phrase, by simpa using hphrase, rfl⟩
  · exact ⟨none, nofun, rfl⟩

/-- A comprehension has the shape of an expression. -/
theorem comprehension_shape {kind : SyntaxKind} {opening : TokenKind}
    (hopening : comprehensionOpening kind = some opening)
    (h : (Rule.comprehension kind opening).Fits shapes tokens phrases rest) :
    ∃ phrase, phrases = [phrase] ∧ phrase.IsExpr := by
  rcases h with ⟨parts, -, hrow, rfl⟩
  rcases hrow with ⟨_, _, _, ⟨opening, hopen, rfl, -⟩, ⟨_, _, _, ⟨result, rfl, hresult, -⟩,
    ⟨_, _, _, ⟨forWord, hfor, rfl, -⟩, ⟨_, _, _, ⟨item, hitem, rfl, -⟩,
    ⟨_, _, _, ⟨inWord, hin, rfl, -⟩, ⟨_, _, _, ⟨iterable, rfl, hiterable, -⟩,
    ⟨_, _, _, hfilter, ⟨_, _, _,
    ⟨closing, hclosing, rfl, -⟩, ⟨rfl, -⟩, rfl⟩, rfl⟩, rfl⟩, rfl⟩, rfl⟩, rfl⟩, rfl⟩, rfl⟩
  simp only [decide_eq_true_eq] at hopen hfor hitem hin
  refine ⟨_, rfl, ?_⟩
  rcases hfilter with ⟨_, _, _, ⟨ifWord, hif, rfl, -⟩,
    ⟨_, _, _, ⟨filter, rfl, hfilter, -⟩, ⟨rfl, -⟩, rfl⟩, rfl⟩ | ⟨rfl, -⟩
  · exact .filtered (hopen ▸ hopening) hresult hfor hitem hin hiterable (of_decide_eq_true hif)
      hfilter hclosing
  · exact .comprehension (hopen ▸ hopening) hresult hfor hitem hin hiterable hclosing

/-- So have words and numbers. -/
theorem primary_shape (h : Form.primary.rule.Fits shapes tokens phrases rest) :
    shapes.form .primary phrases rest := by
  rcases h with ⟨token, hkind, rfl, -⟩ | ⟨token, hkind, rfl, -⟩ | ⟨token, hkind, rfl, -⟩ |
    ⟨token, hkind, rfl, -⟩ | ⟨token, hkind, rfl, -⟩
  · exact ⟨_, rfl, .number (of_decide_eq_true hkind)⟩
  · exact ⟨_, rfl, .name (of_decide_eq_true hkind)⟩
  · exact ⟨_, rfl, .string (of_decide_eq_true hkind)⟩
  · exact ⟨_, rfl, .boolean (by simpa using hkind)⟩
  · exact ⟨_, rfl, .none (of_decide_eq_true hkind)⟩

/-- An operator in front and its operand have the shape of an expression. -/
theorem unary_shape (h : Form.unary.rule.Fits shapes tokens phrases rest) :
    shapes.form .unary phrases rest := by
  rcases h with ⟨_, -, ⟨_, _, _, ⟨operator, hkind, rfl, -⟩, ⟨_, _, _, ⟨operand, rfl, hoperand, -⟩,
    ⟨rfl, -⟩, rfl⟩, rfl⟩, rfl⟩ | ⟨_, -, ⟨_, _, _, ⟨operator, hkind, rfl, -⟩, ⟨_, _, _,
    ⟨operand, rfl, hoperand, -⟩, ⟨rfl, -⟩, rfl⟩, rfl⟩, rfl⟩
  · exact ⟨_, rfl, .unary (.inl (of_decide_eq_true hkind)) hoperand⟩
  · exact ⟨_, rfl, .unary (.inr (of_decide_eq_true hkind)) hoperand⟩

/-- What a parenthesis opens has the shape of an expression. -/
theorem grouping_shape (h : Form.grouping.rule.Fits shapes tokens phrases rest) :
    shapes.form .grouping phrases rest := by
  rcases h with hcomprehension | ⟨_, -, ⟨_, _, _, ⟨opening, hopening, rfl, -⟩, ⟨_, _, _,
    ⟨inside, rfl, hinside, -⟩, ⟨_, _, _, hend, ⟨rfl, -⟩, rfl⟩, rfl⟩, rfl⟩, rfl⟩
  · exact comprehension_shape rfl hcomprehension
  · rcases optionalMark_of_fits hend with ⟨closing, hclosing, rfl⟩
    rw [List.append_nil]
    exact ⟨_, rfl, .parenthesized (of_decide_eq_true hopening) hinside hclosing⟩

/-- The elements of a list behind the first one are commas and expressions. -/
theorem elements_shape (h : (Rule.many .element).Fits shapes tokens phrases rest) :
    ∀ part ∈ phrases, part.IsMark (· = .comma) ∨ part.IsExpr := by
  refine h.forall_mem ?_
  rintro _ _ _ ⟨_, _, _, ⟨comma, hcomma, rfl, -⟩, ⟨_, _, _, ⟨element, rfl, helement, -⟩, ⟨rfl, -⟩,
    rfl⟩, rfl⟩
  simpa using ⟨.inl ⟨comma, of_decide_eq_true hcomma, rfl⟩, .inr helement⟩

/-- So has what a bracket opens. -/
theorem array_shape (h : Form.array.rule.Fits shapes tokens phrases rest) :
    shapes.form .array phrases rest := by
  rcases h with ⟨_, -, ⟨_, _, _, ⟨opening, hopening, rfl, -⟩, ⟨_, _, _,
    ⟨closing, hclosing, rfl, -⟩, ⟨rfl, -⟩, rfl⟩, rfl⟩, rfl⟩ | hcomprehension |
    ⟨_, -, ⟨_, _, _, ⟨opening, hopening, rfl, -⟩, ⟨_, _, _, ⟨first, rfl, hfirst, -⟩,
    ⟨more, _, _, hmore, ⟨_, _, _, hend, ⟨rfl, -⟩, rfl⟩, rfl⟩, rfl⟩, rfl⟩, rfl⟩ |
    ⟨_, -, ⟨_, _, _, ⟨opening, hopening, rfl, -⟩, ⟨_, _, _, ⟨first, rfl, hfirst, -⟩,
    ⟨more, _, _, hmore, ⟨_, _, _, ⟨comma, hcomma, rfl, -⟩, ⟨_, _, _, ⟨closing, hclosing, rfl, -⟩,
    ⟨rfl, -⟩, rfl⟩, rfl⟩, rfl⟩, rfl⟩, rfl⟩, rfl⟩
  · exact ⟨_, rfl, .emptyList (of_decide_eq_true hopening) (of_decide_eq_true hclosing)⟩
  · exact comprehension_shape rfl hcomprehension
  · rcases optionalMark_of_fits hend with ⟨closing, hclosing, rfl⟩
    have hrow := row_of_forall_mem (elements_shape hmore)
    rw [List.append_nil]
    exact ⟨_, rfl, .list (of_decide_eq_true hopening) hfirst hrow.1 hrow.2 hclosing⟩
  · have hmark : (ofToken .punctuation comma).IsMark (· = .comma) :=
      ⟨comma, of_decide_eq_true hcomma, rfl⟩
    have hrow := row_of_forall_mem (List.forall_mem_append.mpr
      ⟨elements_shape hmore, List.forall_mem_singleton.mpr (.inl hmark)⟩)
    have hlist : IsExpr (group .arrayExpression (ofToken .punctuation opening :: first ::
        (more ++ [ofToken .punctuation comma]) ++ optionalMark (some closing))) :=
      .list (of_decide_eq_true hopening) hfirst hrow.1 hrow.2
        (by simpa using of_decide_eq_true hclosing)
    rw [List.cons_append, List.cons_append, List.append_assoc] at hlist
    exact ⟨_, rfl, hlist⟩

/-- Arguments are expressions and commas in parentheses. -/
theorem argList_shape (h : Form.argList.rule.Fits shapes tokens phrases rest) :
    shapes.form .argList phrases rest := by
  rcases h with ⟨_, -, ⟨_, _, _, ⟨opening, hopening, rfl, -⟩, ⟨items, _, _, hitems,
    ⟨_, _, _, ⟨closing, hclosing, rfl, -⟩, ⟨rfl, -⟩, rfl⟩, rfl⟩, rfl⟩, rfl⟩
  refine ⟨_, rfl, ?_⟩
  have hrow := row_of_repeats (· = .comma) ?_ hitems
  · exact .intro (of_decide_eq_true hopening) hrow.1 hrow.2 (of_decide_eq_true hclosing)
  · rintro _ _ _ (⟨comma, hcomma, rfl, -⟩ | ⟨item, rfl, hitem, -⟩)
    · simpa using .inl ⟨comma, of_decide_eq_true hcomma, rfl⟩
    · simpa using .inr hitem

/-! ## Suffixes -/

/-- The suffixes of expressions make expressions. -/
theorem suffix_shape {left : Phrase} {middle : List Token} {power : Power} {suffix : Suffix}
    (hleft : left.IsExpr)
    (hstarts : Grammar.standard.suffix (nextKind middle) = some (power, suffix))
    (h : (suffix.rule power).Fits shapes middle phrases rest) :
    (group suffix.kind (left :: phrases)).IsExpr := by
  cases suffix with
  | binary =>
    rcases h with ⟨_, _, _, ⟨operator, -, rfl, rfl⟩, ⟨_, _, _, ⟨right, rfl, hright, -⟩,
      ⟨rfl, -⟩, rfl⟩, rfl⟩
    exact .binary hleft hstarts hright
  | conditional =>
    rcases h with ⟨_, _, _, ⟨ifWord, hif, rfl, -⟩, ⟨_, _, _, ⟨condition, rfl, hcondition, -⟩,
      ⟨_, _, _, ⟨elseWord, helse, rfl, -⟩, ⟨_, _, _, ⟨otherwise, rfl, hotherwise, -⟩,
      ⟨rfl, -⟩, rfl⟩, rfl⟩, rfl⟩, rfl⟩
    exact .conditional hleft (of_decide_eq_true hif) hcondition (of_decide_eq_true helse)
      hotherwise
  | call =>
    rcases h with ⟨arguments, rfl, harguments⟩
    rcases harguments with ⟨hopening, hmarks, hitems, hclosing⟩
    exact .call hleft hopening hmarks hitems hclosing
  | member =>
    rcases h with ⟨_, _, _, ⟨dot, hdot, rfl, -⟩, ⟨_, _, _, ⟨name, hname, rfl, -⟩,
      ⟨rfl, -⟩, rfl⟩, rfl⟩
    exact .property hleft (of_decide_eq_true hdot) (of_decide_eq_true hname)
  | index =>
    rcases h with ⟨_, _, _, ⟨opening, hopening, rfl, -⟩, ⟨inside, _, _, hinside, ⟨_, _, _,
      ⟨closing, hclosing, rfl, -⟩, ⟨rfl, -⟩, rfl⟩, rfl⟩, rfl⟩
    have hrow := row_of_repeats (fun kind => kind = .colon ∨ kind = .comma) ?_ hinside
    · exact .index hleft (of_decide_eq_true hopening) hrow.1 hrow.2 (of_decide_eq_true hclosing)
    · rintro _ _ _ (⟨colon, hcolon, rfl, -⟩ | ⟨comma, hcomma, rfl, -⟩ | ⟨item, rfl, hitem, -⟩)
      · simpa using .inl ⟨colon, .inl (of_decide_eq_true hcolon), rfl⟩
      · simpa using .inl ⟨comma, .inr (of_decide_eq_true hcomma), rfl⟩
      · simpa using .inr hitem

/-! ## Statements -/

/-- A type stands behind a colon or an arrow. -/
theorem typeDef_shape {marker : TokenKind} (hmarker : marker = .colon ∨ marker = .arrow)
    (h : (Rule.typeDef marker).Fits shapes tokens phrases rest) :
    ∃ phrase, phrases = [phrase] ∧ phrase.IsTypeDef := by
  rcases h with ⟨_, -, ⟨_, _, _, ⟨token, htoken, rfl, -⟩, ⟨_, _, _, ⟨type, rfl, htype, -⟩,
    ⟨rfl, -⟩, rfl⟩, rfl⟩, rfl⟩
  have hkind : token.kind = marker := of_decide_eq_true htoken
  exact ⟨_, rfl, .intro htype (hkind ▸ hmarker)⟩

/-- A line without a block has the shape of a statement. -/
theorem simpleStatement_shape (h : Rule.simpleStatement.Fits shapes tokens phrases rest) :
    ∃ phrase, phrases = [phrase] ∧ phrase.IsStmt := by
  rcases h with ⟨_, _, _, hnode, ⟨_, _, _, ⟨_, -, rfl, -⟩, ⟨rfl, -⟩, rfl⟩, rfl⟩
  simp only [List.append_nil]
  rcases hnode with ⟨_, -, ⟨_, _, _, ⟨target, rfl, htarget, -⟩, ⟨_, _, _, hdef, ⟨_, _, _, hvalue,
    ⟨rfl, -⟩, rfl⟩, rfl⟩, rfl⟩, rfl⟩ | ⟨_, -, ⟨_, _, _, ⟨target, rfl, htarget, -⟩, ⟨_, _, _,
    ⟨mark, hmark, rfl, -⟩, ⟨_, _, _, ⟨value, rfl, hvalue, -⟩, ⟨rfl, -⟩, rfl⟩, rfl⟩, rfl⟩, rfl⟩ |
    ⟨_, -, ⟨_, _, _, ⟨value, rfl, hvalue, -⟩, ⟨rfl, -⟩, rfl⟩, rfl⟩
  · rcases typeDef_shape (.inl rfl) hdef with ⟨type, rfl, htype⟩
    rcases hvalue with ⟨_, _, _, ⟨mark, hmark, rfl, -⟩, ⟨_, _, _, ⟨value, rfl, hvalue, -⟩,
      ⟨rfl, -⟩, rfl⟩, rfl⟩ | ⟨rfl, -⟩
    · exact ⟨_, rfl, .definition htarget htype (of_decide_eq_true hmark) hvalue⟩
    · exact ⟨_, rfl, .declaration htarget htype⟩
  · exact ⟨_, rfl, .assign htarget (of_decide_eq_true hmark) hvalue⟩
  · exact ⟨_, rfl, .expr hvalue⟩

/-- So has every statement. -/
theorem statement_shape (h : Form.statement.rule.Fits shapes tokens phrases rest) :
    shapes.form .statement phrases rest := by
  rcases h with h | h | h | h | h | h | h | h
  case inr.inr.inr.inr.inr.inr.inr => exact simpleStatement_shape h
  all_goals exact h

/-- A block is a row of statements, perhaps behind a colon. -/
theorem block_shape (h : Form.block.rule.Fits shapes tokens phrases rest) :
    shapes.form .block phrases rest := by
  rcases h with ⟨_, -, ⟨_, _, _, hmark, ⟨_, _, _, ⟨_, -, rfl, -⟩, ⟨_, _, _, ⟨_, -, rfl, -⟩,
    ⟨statements, _, _, hstatements, ⟨_, _, _, ⟨_, -, rfl, -⟩, ⟨rfl, -⟩, rfl⟩, rfl⟩, rfl⟩, rfl⟩,
    rfl⟩, rfl⟩ | ⟨_, -, ⟨_, _, _, hmark, ⟨_, _, _, ⟨statement, rfl, hstatement⟩, ⟨rfl, -⟩, rfl⟩,
    rfl⟩, rfl⟩
  · rcases optionalMark_of_fits hmark with ⟨colon, hcolon, rfl⟩
    simp only [List.nil_append, List.append_nil]
    refine ⟨_, rfl, .intro hcolon (hstatements.forall_mem ?_)⟩
    rintro _ _ _ ⟨statement, rfl, hstatement⟩
    exact List.forall_mem_singleton.mpr hstatement
  · rcases optionalMark_of_fits hmark with ⟨colon, hcolon, rfl⟩
    exact ⟨_, rfl, .intro hcolon (List.forall_mem_singleton.mpr hstatement)⟩

/-- The last branch is the word `else` and a block, if it is there. -/
theorem elsePart_shape (h : Rule.elsePart.Fits shapes tokens phrases rest) : IsElse phrases := by
  rcases h with ⟨_, _, _, ⟨word, hword, rfl, -⟩, ⟨_, _, _, ⟨body, rfl, hbody⟩, ⟨rfl, -⟩, rfl⟩,
    rfl⟩ | ⟨rfl, -⟩
  · exact .else (of_decide_eq_true hword) hbody
  · exact .nil

/-- A conditional has a condition and a block for each of its branches. -/
theorem ifStatement_shape (h : Form.ifStatement.rule.Fits shapes tokens phrases rest) :
    shapes.form .ifStatement phrases rest := by
  rcases h with ⟨_, -, ⟨_, _, _, ⟨word, hword, rfl, -⟩, ⟨_, _, _, ⟨condition, rfl, hcondition, -⟩,
    ⟨_, _, _, ⟨body, rfl, hbody⟩, ⟨elifs, _, _, helifs, ⟨otherwise, _, _, helse, ⟨rfl, -⟩, rfl⟩,
    rfl⟩, rfl⟩, rfl⟩, rfl⟩, rfl⟩
  refine ⟨_, rfl, .cond (of_decide_eq_true hword) hcondition hbody ?_⟩
  have htail := elsePart_shape helse
  -- The branches are read one after the other; the tail is built from its end.
  clear helse
  rw [List.append_nil]
  change Repeats _ _ _ _ at helifs
  induction helifs with
  | nil => exact .otherwise htail
  | cons onFirst _ ih =>
    rcases onFirst with ⟨_, _, _, ⟨word, hword, rfl, -⟩, ⟨_, _, _,
      ⟨condition, rfl, hcondition, -⟩, ⟨_, _, _, ⟨body, rfl, hbody⟩, ⟨rfl, -⟩, rfl⟩, rfl⟩, rfl⟩
    exact .elif (of_decide_eq_true hword) hcondition hbody ih

/-- A loop under a condition has the condition and a block. -/
theorem whileStatement_shape (h : Form.whileStatement.rule.Fits shapes tokens phrases rest) :
    shapes.form .whileStatement phrases rest := by
  rcases h with ⟨_, -, ⟨_, _, _, ⟨word, hword, rfl, -⟩, ⟨_, _, _, ⟨condition, rfl, hcondition, -⟩,
    ⟨_, _, _, ⟨body, rfl, hbody⟩, ⟨rfl, -⟩, rfl⟩, rfl⟩, rfl⟩, rfl⟩
  exact ⟨_, rfl, .while (of_decide_eq_true hword) hcondition hbody⟩

/-- A loop over elements has the variable, the iterable and a block. -/
theorem forStatement_shape (h : Form.forStatement.rule.Fits shapes tokens phrases rest) :
    shapes.form .forStatement phrases rest := by
  rcases h with ⟨_, -, ⟨_, _, _, ⟨word, hword, rfl, -⟩, ⟨_, _, _, ⟨item, hitem, rfl, -⟩, ⟨_, _, _,
    ⟨inWord, hin, rfl, -⟩, ⟨_, _, _, ⟨iterable, rfl, hiterable, -⟩, ⟨_, _, _, ⟨body, rfl, hbody⟩,
    ⟨otherwise, _, _, helse, ⟨rfl, -⟩, rfl⟩, rfl⟩, rfl⟩, rfl⟩, rfl⟩, rfl⟩, rfl⟩
  rw [List.append_nil]
  exact ⟨_, rfl, .for (of_decide_eq_true hword) (of_decide_eq_true hitem) (of_decide_eq_true hin)
    hiterable hbody (elsePart_shape helse)⟩

/-- A return has one value at most. -/
theorem returnStatement_shape (h : Form.returnStatement.rule.Fits shapes tokens phrases rest) :
    shapes.form .returnStatement phrases rest := by
  rcases h with ⟨_, _, _, ⟨_, -, ⟨_, _, _, ⟨word, hword, rfl, -⟩, ⟨_, _, _, hvalue, ⟨rfl, -⟩,
    rfl⟩, rfl⟩, rfl⟩, ⟨_, _, _, ⟨_, -, rfl, -⟩, ⟨rfl, -⟩, rfl⟩, rfl⟩
  rcases hvalue with ⟨value, rfl, hvalue, -⟩ | ⟨rfl, -⟩
  · exact ⟨_, rfl, .return (of_decide_eq_true hword) hvalue⟩
  · exact ⟨_, rfl, .returnNone (of_decide_eq_true hword)⟩

/-- A statement of one word is that word. -/
theorem keywordStatement_shape (h : Form.keywordStatement.rule.Fits shapes tokens phrases rest) :
    shapes.form .keywordStatement phrases rest := by
  have hword {kind token} (hkind : wordStatement kind = some token)
      (h : (Rule.wordStatement kind token).Fits shapes tokens phrases rest) :
      shapes.form .keywordStatement phrases rest := by
    rcases h with ⟨_, _, _, ⟨_, -, ⟨_, _, _, ⟨word, hword, rfl, -⟩, ⟨rfl, -⟩, rfl⟩, rfl⟩, ⟨_, _, _,
      ⟨_, -, rfl, -⟩, ⟨rfl, -⟩, rfl⟩, rfl⟩
    have hword : word.kind = token := of_decide_eq_true hword
    exact ⟨_, rfl, .word (hword ▸ hkind)⟩
  rcases h with h | h | h
  · exact hword rfl h
  · exact hword rfl h
  · exact hword rfl h

/-- Parameters are names and commas, each name perhaps with a type. -/
theorem parameters_shape (h : (Rule.many .parameter).Fits shapes tokens phrases rest) :
    AreParameters phrases := by
  change Repeats _ _ _ _ at h
  induction h with
  | nil => exact .nil
  | cons onFirst _ ih =>
    rcases onFirst with ⟨_, _, _, ⟨name, hname, rfl, -⟩, ⟨_, _, _, hdef, ⟨_, _, _, hmark,
      ⟨rfl, -⟩, rfl⟩, rfl⟩, rfl⟩
    rcases optional_of_fits (fun _ _ _ => typeDef_shape (.inl rfl)) hdef with ⟨type, htype, rfl⟩
    rcases optionalMark_of_fits hmark with ⟨comma, hcomma, rfl⟩
    simpa using AreParameters.cons (of_decide_eq_true hname) htype hcomma ih

/-- A function has a name, parameters, perhaps a return type, and a block. -/
theorem functionDefinition_shape
    (h : Form.functionDefinition.rule.Fits shapes tokens phrases rest) :
    shapes.form .functionDefinition phrases rest := by
  rcases h with ⟨_, -, ⟨_, _, _, ⟨word, hword, rfl, -⟩, ⟨_, _, _, ⟨name, hname, rfl, -⟩, ⟨_, _, _,
    ⟨_, -, ⟨_, _, _, ⟨opening, hopening, rfl, -⟩, ⟨parameters, _, _, hparameters, ⟨_, _, _,
    ⟨closing, hclosing, rfl, -⟩, ⟨rfl, -⟩, rfl⟩, rfl⟩, rfl⟩, rfl⟩, ⟨_, _, _, hdef, ⟨_, _, _,
    ⟨body, rfl, hbody⟩, ⟨rfl, -⟩, rfl⟩, rfl⟩, rfl⟩, rfl⟩, rfl⟩, rfl⟩
  rcases optional_of_fits (fun _ _ _ => typeDef_shape (.inr rfl)) hdef with
    ⟨result, hresult, rfl⟩
  have hlist := IsParamList.intro (of_decide_eq_true hopening) (parameters_shape hparameters)
    (of_decide_eq_true hclosing)
  exact ⟨_, rfl, .fun (of_decide_eq_true hword) (of_decide_eq_true hname) hlist hresult hbody⟩

/-- A class has a name, perhaps base classes, and a block. -/
theorem classDefinition_shape (h : Form.classDefinition.rule.Fits shapes tokens phrases rest) :
    shapes.form .classDefinition phrases rest := by
  rcases h with ⟨_, -, ⟨_, _, _, ⟨word, hword, rfl, -⟩, ⟨_, _, _, ⟨name, hname, rfl, -⟩, ⟨_, _, _,
    hlist, ⟨_, _, _, ⟨body, rfl, hbody⟩, ⟨rfl, -⟩, rfl⟩, rfl⟩, rfl⟩, rfl⟩, rfl⟩
  have hargList (tokens phrases rest) (h : (Rule.form .argList).Fits shapes tokens phrases rest) :
      ∃ phrase, phrases = [phrase] ∧ phrase.IsArgList := h
  rcases optional_of_fits hargList hlist with ⟨bases, hbases, rfl⟩
  exact ⟨_, rfl, .class (of_decide_eq_true hword) (of_decide_eq_true hname) hbases hbody⟩

end Rules

/-- All rules keep the invariant. -/
theorem shapes_kept : shapes.Kept where
  form := by
    intro form tokens phrases rest h
    cases form with
    | primary => exact primary_shape h
    | unary => exact unary_shape h
    | grouping => exact grouping_shape h
    | array => exact array_shape h
    | set => exact comprehension_shape rfl h
    | argList => exact argList_shape h
    | statement => exact statement_shape h
    | block => exact block_shape h
    | ifStatement => exact ifStatement_shape h
    | whileStatement => exact whileStatement_shape h
    | forStatement => exact forStatement_shape h
    | returnStatement => exact returnStatement_shape h
    | keywordStatement => exact keywordStatement_shape h
    | functionDefinition => exact functionDefinition_shape h
    | classDefinition => exact classDefinition_shape h
  start := by
    rintro above kind form phrase rest hstarts ⟨other, hother, hshape⟩
    cases hother
    cases kind <;> cases hstarts <;> exact hshape
  extend hleft hstarts _ _ h := suffix_shape hleft hstarts h

/-! ## Trees -/

/-- The tree of a token list is a row of statements over the words of the list. -/
theorem parse_shape {tokens : List Token} {source : Source} {tree : SyntaxNode}
    (h : parse tokens source = .ok tree) : (⟨tree, wordsOf tokens⟩ : Phrase).IsScript := by
  obtain ⟨hkind, statements, start, rest, hchildren, hwords, hderives⟩ := parse_root h
  refine ⟨hkind, statements, hchildren, hwords, hderives.exact, ?_⟩
  have hrow : Repeats _ _ _ _ := hderives.fits shapes_kept
  apply hrow.forall_mem (P := Phrase.IsStmt)
  rintro _ _ _ ⟨statement, rfl, hstatement⟩
  exact List.forall_mem_singleton.mpr hstatement

end Offside
