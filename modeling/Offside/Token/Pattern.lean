import Offside.Token

/-!
# Lexical patterns

The lexical grammar as data: an ordered table of patterns, each a shape of text and the
role of what has that shape.  The pattern in force at a place is the first of the table
whose shape the text there begins with.
-/

namespace Offside

/-- A set of texts; what a source begins with is split off by `Shape.split?`. -/
inductive Shape where
  /-- A letter or underscore, then letters, digits and underscores (ASCII). -/
  | word
  /-- One or more digits (ASCII). -/
  | digits
  /-- A line feed, perhaps after a carriage return. -/
  | lineBreak
  /-- One or more blanks, tabs and carriage returns. -/
  | blanks
  /-- A hash sign and the rest of the line. -/
  | comment
  /-- A text of one line between two double or two single quotes. -/
  | quotation
  /-- Exactly this text. -/
  | exact (text : List Char)
  deriving DecidableEq, Repr

namespace Shape

/-- The characters that a word may start with. -/
def startsWord (c : Char) : Bool := c.isAlpha || c = '_'

/-- The characters that a word may go on with. -/
def continuesWord (c : Char) : Bool := c.isAlphanum || c = '_'

/-- Blanks, tabs and carriage returns. -/
def isSpace (c : Char) : Bool := c = ' ' || c = '\t' || c = '\r'

/-- The longest beginning of a text whose characters all pass, if it is not empty. -/
def splitWhile? (passes : Char → Bool) (source : Source) : Option (Source × Source) :=
  match source.takeWhile passes with
  | [] => none
  | first :: more => some (first :: more, source.dropWhile passes)

/-- The text behind an opening quote up to the same quote on the same line. -/
def splitQuotation? (quote : Char) (source : Source) : Option (Source × Source) :=
  let inside := fun c => c ≠ quote && c ≠ '\n'
  match source.dropWhile inside with
  | c :: rest =>
    if c = quote then some (quote :: source.takeWhile inside ++ [quote], rest) else none
  | [] => none

/-- The longest beginning of a source that has a shape, and the rest. -/
def split? : Shape → Source → Option (Source × Source)
  | .word, c :: rest =>
    if startsWord c then some (c :: rest.takeWhile continuesWord, rest.dropWhile continuesWord)
    else none
  | .digits, source => splitWhile? Char.isDigit source
  | .lineBreak, '\n' :: rest => some (['\n'], rest)
  | .lineBreak, '\r' :: '\n' :: rest => some (['\r', '\n'], rest)
  | .blanks, source => splitWhile? isSpace source
  | .comment, '#' :: rest => some ('#' :: rest.takeWhile (· ≠ '\n'), rest.dropWhile (· ≠ '\n'))
  | .quotation, c :: rest => if c = '"' || c = '\'' then splitQuotation? c rest else none
  | .exact text, source =>
    if text.isPrefixOf source then some (text, source.drop text.length) else none
  | _, _ => none

end Shape

/-- What a text of some shape stands for. -/
inductive Role where
  /-- A reserved word or an identifier. -/
  | word
  | number
  | string
  /-- The end of a line. -/
  | lineBreak
  /-- Nothing. -/
  | skipped
  /-- A mark of a fixed kind. -/
  | mark (kind : TokenKind)
  deriving DecidableEq, Repr

/-- A shape with the role of the texts that have it. -/
structure Pattern where
  shape : Shape
  role : Role
  deriving DecidableEq, Repr

namespace Pattern

/-- The pattern of a mark that is always written the same. -/
def ofMark (text : String) (kind : TokenKind) : Pattern := ⟨.exact text.toList, .mark kind⟩

/-- The lexical grammar, in the order in which patterns are tried. -/
def table : List Pattern := [
  ⟨.word, .word⟩,
  ⟨.digits, .number⟩,
  ⟨.lineBreak, .lineBreak⟩,
  ⟨.blanks, .skipped⟩,
  ⟨.comment, .skipped⟩,
  ⟨.quotation, .string⟩,
  ofMark "[" .openBracket,
  ofMark "]" .closeBracket,
  ofMark "\x7b" .openCurly,
  ofMark "\x7d" .closeCurly,
  ofMark "(" .openParen,
  ofMark ")" .closeParen,
  ofMark "==" .equals,
  ofMark "!=" .notEquals,
  ofMark "=" .assignment,
  ofMark "<=" .lessEquals,
  ofMark "<" .less,
  ofMark ">=" .greaterEquals,
  ofMark ">" .greater,
  ofMark "->" .arrow,
  ofMark "//" .doubleSlash,
  ofMark "." .dot,
  ofMark ":" .colon,
  ofMark "," .comma,
  ofMark "+" .plus,
  ofMark "-" .dash,
  ofMark "*" .star,
  ofMark "%" .percent]

/-- What a source begins with: its role, its text and the rest of the source. -/
def first? (source : Source) : Option (Role × Source × Source) :=
  table.findSome? fun pattern =>
    (pattern.shape.split? source).map fun (text, rest) => (pattern.role, text, rest)

end Pattern
end Offside
