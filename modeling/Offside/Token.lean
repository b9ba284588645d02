import Offside.Source.Span

/-!
# Tokens

The words of the language.  A token has a kind, a text and the span it covers.  Three
kinds carry layout: the end of a logical line, and the opening and closing of an
indented block.
-/

namespace Offside

/-- The kinds of tokens. -/
inductive TokenKind where
  | eof
  | number
  | string
  | identifier
  -- layout
  | newline
  | indent
  | dedent
  -- brackets
  | openBracket
  | closeBracket
  | openCurly
  | closeCurly
  | openParen
  | closeParen
  -- marks
  | assignment
  | equals
  | notEquals
  | less
  | lessEquals
  | greater
  | greaterEquals
  | dot
  | colon
  | comma
  | arrow
  | plus
  | dash
  | star
  | doubleSlash
  | percent
  -- reserved words
  | defWord
  | classWord
  | ifWord
  | elifWord
  | elseWord
  | whileWord
  | forWord
  | inWord
  | returnWord
  | passWord
  | continueWord
  | breakWord
  | andWord
  | orWord
  | notWord
  | isWord
  | trueWord
  | falseWord
  | noneWord
  deriving DecidableEq, Repr, Inhabited

namespace TokenKind

/-- The name under which a kind is shown. -/
def name : TokenKind → String
  | .eof => "EOF"
  | .number => "Number"
  | .string => "String"
  | .identifier => "Identifier"
  | .newline => "Newline"
  | .indent => "Indent"
  | .dedent => "Dedent"
  | .openBracket => "OpenBracket"
  | .closeBracket => "CloseBracket"
  | .openCurly => "OpenCurly"
  | .closeCurly => "CloseCurly"
  | .openParen => "OpenParen"
  | .closeParen => "CloseParen"
  | .assignment => "Assignment"
  | .equals => "Equals"
  | .notEquals => "NotEquals"
  | .less => "Less"
  | .lessEquals => "LessEquals"
  | .greater => "Greater"
  | .greaterEquals => "GreaterEquals"
  | .dot => "Dot"
  | .colon => "Colon"
  | .comma => "Comma"
  | .arrow => "Arrow"
  | .plus => "Plus"
  | .dash => "Dash"
  | .star => "Star"
  | .doubleSlash => "DoubleSlash"
  | .percent => "Percent"
  | .defWord => "Def"
  | .classWord => "Class"
  | .ifWord => "If"
  | .elifWord => "Elif"
  | .elseWord => "Else"
  | .whileWord => "While"
  | .forWord => "For"
  | .inWord => "In"
  | .returnWord => "Return"
  | .passWord => "Pass"
  | .continueWord => "Continue"
  | .breakWord => "Break"
  | .andWord => "And"
  | .orWord => "Or"
  | .notWord => "Not"
  | .isWord => "Is"
  | .trueWord => "True"
  | .falseWord => "False"
  | .noneWord => "None"

/-- The reserved words, each with its kind. -/
def reservedWords : List (String × TokenKind) := [
  ("def", .defWord), ("class", .classWord), ("if", .ifWord), ("elif", .elifWord),
  ("else", .elseWord), ("while", .whileWord), ("for", .forWord), ("in", .inWord),
  ("return", .returnWord), ("pass", .passWord), ("continue", .continueWord),
  ("break", .breakWord), ("and", .andWord), ("or", .orWord), ("not", .notWord),
  ("is", .isWord), ("True", .trueWord), ("False", .falseWord), ("None", .noneWord)]

/-- The kind of a reserved word. -/
def ofReserved? (word : String) : Option TokenKind := reservedWords.lookup word

/-- The kind of a word: reserved, or else an identifier. -/
def ofWord (word : String) : TokenKind := (ofReserved? word).getD .identifier

/-- Whether a kind is that of a reserved word. -/
def isReserved (kind : TokenKind) : Bool := reservedWords.any fun entry => entry.2 = kind

/-- Whether a kind opens a bracket. -/
def isOpening : TokenKind → Bool
  | .openBracket | .openCurly | .openParen => true
  | _ => false

/-- Whether a kind closes a bracket. -/
def isClosing : TokenKind → Bool
  | .closeBracket | .closeCurly | .closeParen => true
  | _ => false

/-- Whether a kind carries layout. -/
def isLayout : TokenKind → Bool
  | .newline | .indent | .dedent => true
  | _ => false

end TokenKind

/-- A word of the language.  The text of a string has no quotes. -/
structure Token where
  kind : TokenKind
  text : String
  span : Span
  deriving DecidableEq, Repr, Inhabited

namespace Token

/-- The token that closes every token list, at position `position`. -/
def eof (position : Nat) : Token := ⟨.eof, "EOF", .empty position⟩

/-- The end of a logical line. -/
def newline (span : Span) : Token := ⟨.newline, "\n", span⟩

/-- The closing of an indented block, at position `position`. -/
def dedent (position : Nat) : Token := ⟨.dedent, "", .empty position⟩

/-- The opening of a block that is indented by the blanks of `span`. -/
def indent (span : Span) : Token := ⟨.indent, "", span⟩

/-- A token in full. -/
def describe (token : Token) : String :=
  "Token \x7b\nkind: " ++ token.kind.name ++ ",\nvalue: " ++ token.text ++ "\x7d"

/-- What a token looks like in a diagnostic; layout has no text of its own. -/
def shown (token : Token) : String :=
  match token.kind with
  | .newline => "newline"
  | .indent => "indent"
  | .dedent => "dedent"
  | .eof => "end of file"
  | _ => token.text

end Token
end Offside
