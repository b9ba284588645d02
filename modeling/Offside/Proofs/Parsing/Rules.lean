import Offside.Proofs.Syntax.Phrases
import Offside.Syntax.Grammar

/-!
# Grammar rules

The forms of phrases as rules of a grammar, and what it means that a rule derives phrases from
tokens.  Which bracket, comma or word comes next decides between the alternatives of a rule
while a source is parsed; the rules leave that out.  What they keep is how far an expression
goes on: it takes suffixes above a power, and stops at a token that binds no tighter.

Main definitions:

- `Rule`: the right-hand sides of rules.
- `Form.rule` and `Suffix.rule`: the rules of the language.
- `Consumes`: some first tokens are read, and have certain words.
- `Derives`: a rule derives phrases from tokens, up to a rest of them.

Main results:

- Theorem `Derives.exact`: the leaves of derived phrases cover their words.
- Theorem `Derives.consumes`: derived phrases have exactly the words of the tokens that were
  read.
-/

namespace Offside

/-! ## Rules -/

/-- The right-hand side of a grammar rule. -/
inductive Rule where
  | nothing
  /-- One token, which becomes a leaf. -/
  | leaf (accepts : TokenKind → Bool) (kind : SyntaxKind)
  /-- One token of layout, which leaves no trace. -/
  | layout (kind : TokenKind)
  /-- An expression in which only suffixes above the given power are taken. -/
  | expression (above : Power)
  /-- The same, but more suffixes may follow. -/
  | operand (above : Power)
  | form (form : Form)
  | both (first second : Rule)
  | either (first second : Rule)
  | many (rule : Rule)
  /-- A node over what a rule derives. -/
  | node (kind : SyntaxKind) (rule : Rule)

namespace Rule

/-- Several rules, one after the other. -/
def row (rules : List Rule) : Rule := rules.foldr both nothing

/-- One of several rules. -/
def oneOf : List Rule → Rule
  | [] => nothing
  | [rule] => rule
  | rule :: rules => either rule (oneOf rules)

/-- A rule, or nothing. -/
def optional (rule : Rule) : Rule := either rule nothing

/-- A mark. -/
def mark (kind : TokenKind) : Rule := leaf (· = kind) .punctuation

/-- A reserved word. -/
def word (kind : TokenKind) : Rule := leaf (· = kind) .keyword

/-- A name. -/
def name : Rule := leaf (· = .identifier) .variableName

/-- A comprehension behind an opening bracket of some kind. -/
def comprehension (kind : SyntaxKind) (opening : TokenKind) : Rule :=
  node kind (row [mark opening, expression .lowest, word .forWord, name, word .inWord,
    expression .ternary, optional (row [word .ifWord, expression .ternary]),
    leaf TokenKind.isClosing .punctuation])

/-- A type behind a colon or an arrow. -/
def typeDef (marker : TokenKind) : Rule := node .typeDef (row [mark marker, expression .lowest])

/-- The word `else` and its block, if they are there. -/
def elsePart : Rule := optional (row [word .elseWord, form .block])

/-- A statement without a word that tells it. -/
def simpleStatement : Rule :=
  row [
    oneOf [
      node .assignStatement (row [expression .lowest, typeDef .colon,
        optional (row [leaf (· = .assignment) .assignOp, expression .lowest])]),
      node .assignStatement
        (row [expression .lowest, leaf (· = .assignment) .assignOp, expression .lowest]),
      node .expressionStatement (row [expression .lowest])],
    layout .newline]

/-- A statement of one word. -/
def wordStatement (kind : SyntaxKind) (token : TokenKind) : Rule :=
  row [node kind (row [word token]), layout .newline]

/-- The statements of the language. -/
def statements : List Rule := [form .functionDefinition, form .classDefinition,
  form .ifStatement, form .whileStatement, form .forStatement, form .returnStatement,
  form .keywordStatement, simpleStatement]

/-- An element of a list, behind the comma that sets it off. -/
def element : Rule := row [mark .comma, expression .lowest]

/-- A parameter, perhaps with a type, and the comma behind it. -/
def parameter : Rule := row [name, optional (typeDef .colon), optional (mark .comma)]

end Rule

open Rule in
/-- The rules of the language. -/
def Form.rule : Form → Rule
  | .primary => oneOf [leaf (· = .number) .number, name, leaf (· = .string) .string,
      leaf (fun kind => kind = .trueWord || kind = .falseWord) .boolean, leaf (· = .noneWord) .none]
  | .unary => oneOf [
      node .unaryExpression (row [leaf (· = .notWord) .operator, expression .logicalNot]),
      node .unaryExpression (row [leaf (· = .dash) .operator, expression .unary])]
  | .grouping => oneOf [
      comprehension .comprehensionExpression .openParen,
      node .parenthesizedExpression
        (row [mark .openParen, expression .lowest, optional (mark .closeParen)])]
  | .array => oneOf [
      node .arrayExpression (row [mark .openBracket, mark .closeBracket]),
      comprehension .arrayComprehensionExpression .openBracket,
      node .arrayExpression (row [mark .openBracket, expression .lowest, many element,
        optional (mark .closeBracket)]),
      node .arrayExpression (row [mark .openBracket, expression .lowest, many element,
        mark .comma, mark .closeBracket])]
  | .set => comprehension .setComprehensionExpression .openCurly
  | .argList => node .argList
      (row [mark .openParen, many (oneOf [mark .comma, expression .lowest]), mark .closeParen])
  | .statement => oneOf statements
  | .block => oneOf [
      node .body (row [optional (mark .colon), layout .newline, layout .indent,
        many (form .statement), layout .dedent]),
      node .body (row [optional (mark .colon), form .statement])]
  | .ifStatement => node .ifStatement (row [word .ifWord, expression .lowest, form .block,
      many (row [word .elifWord, expression .lowest, form .block]), elsePart])
  | .whileStatement =>
      node .whileStatement (row [word .whileWord, expression .lowest, form .block])
  | .forStatement => node .forStatement (row [word .forWord, name, word .inWord,
      expression .lowest, form .block, elsePart])
  | .returnStatement =>
      row [node .returnStatement (row [word .returnWord, optional (expression .lowest)]),
        layout .newline]
  | .keywordStatement => oneOf [wordStatement .passStatement .passWord,
      wordStatement .continueStatement .continueWord, wordStatement .breakStatement .breakWord]
  | .functionDefinition => node .functionDefinition (row [word .defWord, name,
      node .paramList (row [mark .openParen, many parameter, mark .closeParen]),
      optional (typeDef .arrow), form .block])
  | .classDefinition => node .classDefinition
      (row [word .classWord, name, optional (form .argList), form .block])

/-- Whether a token starts a suffix of a form and a power. -/
def startsSuffix (suffix : Suffix) (power : Power) (kind : TokenKind) : Bool :=
  Grammar.standard.suffix kind = some (power, suffix)

open Rule in
/-- The rules of suffixes of a power, without what is to their left. -/
def Suffix.rule (power : Power) : Suffix → Rule
  | .binary => row [leaf (startsSuffix .binary power) .operator, expression power]
  | .conditional =>
      row [word .ifWord, expression .ternary, word .elseWord, expression .lowest]
  | .call => form .argList
  | .member => row [mark .dot, leaf (· = .identifier) .propertyName]
  | .index => row [mark .openBracket,
      many (oneOf [mark .colon, mark .comma, expression .lowest]), mark .closeBracket]

/-- The kind of an expression that ends with a suffix. -/
def Suffix.kind : Suffix → SyntaxKind
  | .binary => .binaryExpression
  | .conditional => .conditionalExpression
  | .call => .callExpression
  | .member | .index => .memberExpression

/-! ## Derivations -/

/-- Whether tokens of a kind can be seen: not layout, and not the end of the file. -/
def TokenKind.isVisible (kind : TokenKind) : Bool := kind ≠ .eof && !kind.isLayout

/-- The kind of the next token. -/
def nextKind (tokens : List Token) : TokenKind := (tokens.head?.map Token.kind).getD .eof

/-- Reading takes some first tokens, without the end of the file, and leaves a rest; the words
are the tokens read that do not carry layout. -/
def Consumes (tokens words rest : List Token) : Prop :=
  ∃ read, tokens = read ++ rest ∧ (∀ token ∈ read, token.kind ≠ .eof) ∧
    words = read.filter fun token => !token.kind.isLayout

namespace Consumes

variable {tokens words middle more rest : List Token} {token : Token}

/-- No token may be taken. -/
theorem nothing : Consumes tokens [] tokens := ⟨[], by simp⟩

/-- A token that shows is taken and becomes a word. -/
theorem visible (h : token.kind.isVisible = true) : Consumes (token :: rest) [token] rest := by
  simp only [TokenKind.isVisible, Bool.and_eq_true, decide_eq_true_eq] at h
  exact ⟨[token], rfl, by simpa using h.1, by simp [h.2]⟩

/-- Layout is taken, and becomes no word. -/
theorem layout (h : token.kind.isLayout = true) : Consumes (token :: rest) [] rest := by
  have heof : token.kind ≠ .eof := by
    intro heof
    rw [heof] at h
    cases h
  exact ⟨[token], rfl, by simpa using heof, by simp [h]⟩

/-- What is taken first and what is taken then makes up the words of both. -/
theorem append (hfirst : Consumes tokens words middle) (hsecond : Consumes middle more rest) :
    Consumes tokens (words ++ more) rest := by
  rcases hfirst with ⟨first, rfl, hfirst, rfl⟩
  rcases hsecond with ⟨second, rfl, hsecond, rfl⟩
  refine ⟨first ++ second, by simp, ?_, by simp⟩
  intro token hmem
  rcases List.mem_append.mp hmem with hleft | hright
  · exact hfirst token hleft
  · exact hsecond token hright

end Consumes

/-- A rule derives phrases from the first of some tokens, and leaves the rest of them. -/
inductive Derives : Rule → List Token → List Phrase → List Token → Prop
  | nothing {tokens} : Derives .nothing tokens [] tokens
  | leaf {accepts kind token rest} (accepted : accepts token.kind = true)
      (isVisible : token.kind.isVisible = true) (isLeaf : kind.isLeaf = true) :
      Derives (.leaf accepts kind) (token :: rest) [.ofToken kind token] rest
  | layout {kind token rest} (ofKind : token.kind = kind) (isLayout : kind.isLayout = true) :
      Derives (.layout kind) (token :: rest) [] rest
  | both {first second tokens phrases middle more rest}
      (onFirst : Derives first tokens phrases middle)
      (onSecond : Derives second middle more rest) :
      Derives (.both first second) tokens (phrases ++ more) rest
  | eitherLeft {first second tokens phrases rest} (onFirst : Derives first tokens phrases rest) :
      Derives (.either first second) tokens phrases rest
  | eitherRight {first second tokens phrases rest} (onSecond : Derives second tokens phrases rest) :
      Derives (.either first second) tokens phrases rest
  | manyNil {rule tokens} : Derives (.many rule) tokens [] tokens
  | manyCons {rule tokens phrases middle more rest} (onFirst : Derives rule tokens phrases middle)
      (onMore : Derives (.many rule) middle more rest) :
      Derives (.many rule) tokens (phrases ++ more) rest
  | node {kind rule tokens phrases rest} (isLeaf : kind.isLeaf = false)
      (onRule : Derives rule tokens phrases rest) :
      Derives (.node kind rule) tokens [.group kind phrases] rest
  | form {form tokens phrases rest} (onRule : Derives form.rule tokens phrases rest) :
      Derives (.form form) tokens phrases rest
  /-- An expression starts as its first token says. -/
  | start {above form tokens phrase rest}
      (starts : Grammar.standard.expression (nextKind tokens) = some form)
      (onForm : Derives (.form form) tokens [phrase] rest) :
      Derives (.operand above) tokens [phrase] rest
  /-- It goes on with a suffix that binds tightly enough. -/
  | extend {above tokens left middle power suffix phrases rest}
      (onLeft : Derives (.operand above) tokens [left] middle)
      (starts : Grammar.standard.suffix (nextKind middle) = some (power, suffix))
      (binds : above.rank < power.rank)
      (onSuffix : Derives (suffix.rule power) middle phrases rest) :
      Derives (.operand above) tokens [.group suffix.kind (left :: phrases)] rest
  /-- It ends where no suffix binds tightly enough. -/
  | expression {above tokens phrase rest}
      (onOperand : Derives (.operand above) tokens [phrase] rest)
      (stops : (Grammar.standard.power (nextKind rest)).rank ≤ above.rank) :
      Derives (.expression above) tokens [phrase] rest

namespace Derives

variable {rule : Rule} {tokens rest : List Token} {phrases : List Phrase}

/-- A choice derives what one of the rules does. -/
theorem oneOf {rules : List Rule} (hmem : rule ∈ rules) (h : Derives rule tokens phrases rest) :
    Derives (Rule.oneOf rules) tokens phrases rest := by
  induction rules with
  | nil => cases hmem
  | cons first rules ih =>
    cases rules with
    | nil =>
      rw [List.mem_singleton] at hmem
      exact hmem ▸ h
    | cons second rules =>
      rcases List.mem_cons.mp hmem with rfl | hmore
      · exact .eitherLeft h
      · exact .eitherRight (ih hmore)

/-- A suffix makes an inner node. -/
theorem isLeaf_suffix (suffix : Suffix) : suffix.kind.isLeaf = false := by
  cases suffix <;> rfl

/-- The leaves of derived phrases cover their words. -/
theorem exact (h : Derives rule tokens phrases rest) : ∀ phrase ∈ phrases, phrase.Exact := by
  induction h with
  | nothing | layout | manyNil => simp
  | leaf _ _ isLeaf => simpa using Phrase.exact_ofToken isLeaf _
  | both _ _ ihFirst ihSecond | manyCons _ _ ihFirst ihSecond =>
    intro phrase hmem
    rcases List.mem_append.mp hmem with hfirst | hsecond
    · exact ihFirst phrase hfirst
    · exact ihSecond phrase hsecond
  | eitherLeft _ ih | eitherRight _ ih | form _ ih | start _ _ ih | expression _ _ ih => exact ih
  | node isLeaf _ ih => simpa using Phrase.exact_group isLeaf ih
  | @extend _ _ left _ _ suffix phrases _ _ _ _ _ ihLeft ihSuffix =>
    have hparts : ∀ phrase ∈ left :: phrases, phrase.Exact := by
      intro phrase hmem
      rcases List.mem_cons.mp hmem with rfl | hphrases
      · exact ihLeft phrase List.mem_cons_self
      · exact ihSuffix phrase hphrases
    simpa using Phrase.exact_group (isLeaf_suffix suffix) hparts

/-- What a derivation reads has the words of the phrases. -/
theorem consumes (h : Derives rule tokens phrases rest) :
    Consumes tokens (phrases.flatMap Phrase.words) rest := by
  induction h with
  | nothing | manyNil => exact .nothing
  | leaf _ isVisible _ => exact .visible isVisible
  | layout ofKind isLayout =>
    rw [← ofKind] at isLayout
    exact .layout isLayout
  | both _ _ ihFirst ihSecond | manyCons _ _ ihFirst ihSecond =>
    rw [List.flatMap_append]
    exact ihFirst.append ihSecond
  | eitherLeft _ ih | eitherRight _ ih | form _ ih | start _ _ ih | expression _ _ ih => exact ih
  | node _ _ ih => simpa using ih
  | extend _ _ _ _ ihLeft ihSuffix => simpa using ihLeft.append ihSuffix

end Derives
end Offside
