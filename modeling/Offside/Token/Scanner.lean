import Offside.Diagnostic
import Offside.Token.Pattern

/-!
# Scanning

From a source to its tokens.  The scanner walks the source once.  At the start of each
logical line it compares the width of the indentation with the widths of the open
blocks, and emits the layout tokens; inside brackets there is no layout.

Main definition: `tokenize`.
-/

namespace Offside

/-- The scanner's place in a source and what it has to remember. -/
structure Scanner where
  /-- The tokens so far, the newest first. -/
  tokens : List Token
  /-- The byte position reached. -/
  position : Nat
  /-- The source from that position on. -/
  rest : Source
  /-- The widths of the open blocks, the innermost first; the outermost has width zero
  and is left out. -/
  blocks : List Nat
  /-- The number of open brackets. -/
  depth : Nat
  /-- Whether a logical line starts here. -/
  atLineStart : Bool

namespace Scanner

/-- The scanner before a source. -/
def start (source : Source) : Scanner where
  tokens := []
  position := 0
  rest := source
  blocks := []
  depth := 0
  atLineStart := true

/-- The kind of the newest token. -/
def lastKind? (s : Scanner) : Option TokenKind := s.tokens.head?.map Token.kind

/-- The number of open brackets after a token.  A closing bracket too many is not
counted. -/
def depthAfter (depth : Nat) (kind : TokenKind) : Nat :=
  if kind.isOpening then depth + 1 else if kind.isClosing then depth - 1 else depth

/-- Adds a token. -/
def push (s : Scanner) (token : Token) : Scanner :=
  { s with tokens := token :: s.tokens, depth := depthAfter s.depth token.kind }

/-- Moves on by a number of bytes, if that leads to a character or to the end. -/
def advance? (s : Scanner) (n : Nat) : Option Scanner :=
  (Source.splitAt? s.rest n).map fun (_, rest) =>
    { s with position := s.position + n, rest := rest }

/-- The width of the innermost open block. -/
def width (s : Scanner) : Nat := s.blocks.headD 0

/-! ## Layout -/

/-- Opens a block when the line starts further right than the innermost block, and
closes the blocks that lie further right than the line. -/
def indentTo (s : Scanner) (width : Nat) : Scanner :=
  if s.width < width then
    { s with blocks := width :: s.blocks }.push (.indent ⟨s.position, s.position + width⟩)
  else
    (s.blocks.takeWhile (width < ·)).foldl
      (fun s _ => s.push (.dedent (s.position + width)))
      { s with blocks := s.blocks.dropWhile (width < ·) }

/-- Blanks and tabs make up the indentation of a line. -/
def isIndentation (c : Char) : Bool := c = ' ' || c = '\t'

/-- Whether a line that goes on like this behind its indentation is blank or holds only
a comment. -/
def isBlankLine : Source → Bool
  | [] => true
  | c :: _ => c = '\n' || c = '\r' || c = '#'

/-- Emits the layout tokens at the start of a logical line.  The line must start where
some open block does, or further right than all of them. -/
def startLine (source : Source) (s : Scanner) : Outcome Scanner :=
  let s := { s with atLineStart := false }
  if 0 < s.depth || isBlankLine (s.rest.dropWhile isIndentation) then .ok s
  else
    let width := (s.rest.takeWhile isIndentation).length
    let s := s.indentTo width
    if s.width = width then .ok s
    else .refuseAt source (s.position + width) .inconsistentIndentation

/-! ## Words and marks -/

/-- The end of a line.  It ends a logical line outside brackets, and is a token there
unless that line is empty. -/
def endLine (s : Scanner) (span : Span) : Scanner :=
  if s.depth = 0 then
    match s.lastKind? with
    | none | some .newline => { s with atLineStart := true }
    | some _ => { s.push (.newline span) with atLineStart := true }
  else s

/-- Emits what a text in some role stands for. -/
def emit (s : Scanner) (role : Role) (text : Source) : Scanner :=
  let span : Span := ⟨s.position, s.position + Source.byteSize text⟩
  match role with
  | .word => s.push ⟨.ofWord (String.ofList text), String.ofList text, span⟩
  | .number => s.push ⟨.number, String.ofList text, span⟩
  | .string => s.push ⟨.string, String.ofList text.tail.dropLast, span⟩
  | .lineBreak => s.endLine span
  | .skipped => s
  | .mark kind => s.push ⟨kind, String.ofList text, span⟩

/-- Reads one word, mark, break, comment or run of blanks. -/
def readOne (source : Source) (s : Scanner) : Outcome Scanner :=
  match Pattern.first? s.rest with
  | some (role, text, rest) =>
    .ok { s.emit role text with position := s.position + Source.byteSize text, rest := rest }
  | none => .refuseAt source s.position (.unrecognisedToken (String.ofList (s.rest.take 1)))

/-- One step: the layout of a line that starts here, and then one reading. -/
def step (source : Source) (s : Scanner) : Outcome Scanner := do
  let s ← if s.atLineStart then s.startLine source else .ok s
  s.readOne source

/-- Steps until the source is used up, at most `fuel` times. -/
def run (source : Source) : Nat → Scanner → Outcome Scanner
  | fuel, s =>
    if s.rest.isEmpty then .ok s
    else
      match fuel with
      | 0 => .error .unfinished
      | fuel + 1 => do run source fuel (← s.step source)

/-- The tokens, after ending the last line, closing the open blocks and adding the end of
the file at position `stop`. -/
def finish (s : Scanner) (stop : Nat) : List Token :=
  let lineEnd :=
    match s.lastKind? with
    | none | some .newline => []
    | some _ => [Token.newline (.empty stop)]
  s.tokens.reverse ++ lineEnd ++ s.blocks.map (fun _ => Token.dedent stop) ++ [Token.eof stop]

end Scanner

/-- The tokens of a source.  Each step reads at least one character, so there are at
most as many steps as characters. -/
def tokenize (source : Source) : Outcome (List Token) := do
  let s ← Scanner.run source source.length (Scanner.start source)
  return s.finish (Source.byteSize source)

end Offside
