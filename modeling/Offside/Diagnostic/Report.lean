import Offside.Diagnostic
import Offside.Text.Blank

/-!
# Reports

How a diagnostic is shown to the user: its name and tip, the file, and the line of the
source with a mark below the column.

    Error: UnboundId (Variable `y` not declared)
    -> input.py
       |
    20 | x = y
       | ----^

Indentation is not shown, and the mark is moved left by as much.

The bar and the mark stand at the right end of fields whose widths are known only when the report is
printed.  The formatter takes such a width up to a bound; beyond it the program breaks off, with
the lines in front printed.

Main definitions:

- `Report`: what is printed, and whether that is all of the report.
- `Diagnostic.report`: the report on a diagnostic in a file.
-/

namespace Offside

/-! ## Printing lines -/

/-- The lines that are printed, and whether printing ends with the last of them or breaks off. -/
structure Report where
  lines : List String
  complete : Bool
  deriving DecidableEq, Repr

namespace Report

/-- Prints lines one after the other, up to the first that cannot be formatted. -/
def print : List (Option String) → Report
  | [] => ⟨[], true⟩
  | none :: _ => ⟨[], false⟩
  | some line :: rest => ⟨line :: (print rest).lines, (print rest).complete⟩

/-- What is printed, with the end of each line. -/
def text (report : Report) : String := String.join (report.lines.map fun line => line ++ "\n")

/-- Printing ends with the last line if and only if all lines can be formatted. -/
theorem complete_print (lines : List (Option String)) :
    (print lines).complete = lines.all Option.isSome := by
  induction lines with
  | nil => rfl
  | cons line rest ih => cases line <;> simp [print, ih]

end Report

namespace Diagnostic

/-! ## The lines of a report -/

/-- The greatest width of a field that the formatter takes when the program runs. -/
def maxWidth : Nat := 65535

/-- A text moved to the right end of a field, if the field is not too wide for the formatter. -/
def alignRight? (filler : Char) (width : Nat) (text : List Char) : Option (List Char) :=
  if width ≤ maxWidth then some (List.replicate (width - text.length) filler ++ text) else none

/-- Blanks and tabs at the start of a line are not shown. -/
def isHidden (c : Char) : Bool := c = ' ' || c = '\t'

/-- The number of characters that are not shown at the start of a line. -/
def hiddenWidth (line : List Char) : Nat := (line.takeWhile isHidden).length

/-- A line as it is shown. -/
def shownLine (line : List Char) : List Char := Text.trimEnd (line.dropWhile isHidden)

/-- The digits of a line number. -/
def lineNumber (location : Location) : List Char := (toString location.line).toList

/-- The width of a line number and of the bar behind it. -/
def gutterWidth (location : Location) : Nat := (lineNumber location).length + 2

/-- The bar that stands below the one behind the line number. -/
def bar? (location : Location) : Option (List Char) :=
  alignRight? ' ' (gutterWidth location) ['|']

/-- The line of the source. -/
def sourceLine (location : Location) : List Char :=
  lineNumber location ++ " | ".toList ++ shownLine location.text.toList

/-- The width of the mark: the column, less what is not shown of the line. -/
def markWidth (location : Location) : Nat :=
  max 1 (location.column - hiddenWidth location.text.toList)

/-- The mark below the column, behind dashes. -/
def markLine? (location : Location) : Option (List Char) := do
  let bar ← bar? location
  let mark ← alignRight? '-' (markWidth location) ['^']
  return bar ++ [' '] ++ mark

/-- Both fields of a report on a place are such that the formatter takes their widths. -/
def Fits (location : Location) : Prop :=
  gutterWidth location ≤ maxWidth ∧ markWidth location ≤ maxWidth

instance (location : Location) : Decidable (Fits location) :=
  inferInstanceAs (Decidable (_ ∧ _))

/-- What is wrong, with the tip if there is one. -/
def headline (cause : Cause) : String :=
  match cause.tip with
  | some tip => "Error: " ++ cause.name ++ " (" ++ tip ++ ")"
  | none => "Error: " ++ cause.name

/-- The lines of a report on a diagnostic in a file, as far as they can be formatted. -/
def reportLines (diagnostic : Diagnostic) (file : String) : List (Option String) := [
  some (headline diagnostic.cause),
  some ("-> " ++ file),
  (bar? diagnostic.location).map String.ofList,
  some (String.ofList (sourceLine diagnostic.location)),
  (markLine? diagnostic.location).map String.ofList]

/-- The report on a diagnostic in a file. -/
def report (diagnostic : Diagnostic) (file : String) : Report :=
  .print (reportLines diagnostic file)

end Diagnostic
end Offside
