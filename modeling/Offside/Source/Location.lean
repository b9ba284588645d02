import Offside.Source.Span

/-!
# Locations

Where something stands in a source, in a reader's terms: line and column counted
from one, and the text of the line.  Columns count characters.
-/

namespace Offside

/-- A line, a column in it, and the whole line without its end. -/
structure Location where
  line : Nat
  column : Nat
  text : String
  deriving DecidableEq, Repr, Inhabited

namespace Source

/-- A text without the carriage returns it ends with. -/
def dropFinalReturns (line : Source) : Source :=
  (line.reverse.dropWhile (· = '\r')).reverse

/-- The piece of a text behind its last line feed. -/
def lastLine (text : Source) : Source :=
  (text.reverse.takeWhile (· ≠ '\n')).reverse

/-- The piece of a text before its first line feed. -/
def firstLine (text : Source) : Source := text.takeWhile (· ≠ '\n')

/-- The location between two pieces of a source. -/
def locationBetween (before after : Source) : Location where
  line := before.count '\n' + 1
  column := (lastLine before).length + 1
  text := String.ofList (dropFinalReturns (lastLine before ++ firstLine after))

/-- The location of a byte position.  A position past the end counts as the end; one
inside a character has no location. -/
def location? (source : Source) (position : Nat) : Option Location :=
  (splitAt? source (min position (byteSize source))).map fun (before, after) =>
    locationBetween before after

end Source
end Offside
