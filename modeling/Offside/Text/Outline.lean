import Offside.Text.Quoted

/-!
# Outlines

The form in which structured values are dumped: records, tuples and lists with one part to
a line, each level of parts indented by four blanks, and a comma behind every part.
-/

namespace Offside

/-- A structured value to be shown. -/
inductive Outline where
  | word (text : String)
  /-- A name with named parts. -/
  | record (name : String) (parts : List (String × Outline))
  /-- A name, perhaps empty, with parts in order. -/
  | tuple (name : String) (parts : List Outline)
  | list (parts : List Outline)

namespace Outline

/-- A text between quotes. -/
def string (text : String) : Outline := .word (Text.quoted text)

/-- A natural number. -/
def nat (value : Nat) : Outline := .word (toString value)

/-- The blanks in front of a line. -/
def margin (depth : Nat) : String := String.ofList (List.replicate (4 * depth) ' ')

mutual

/-- An outline whose parts are indented to a depth. -/
def render (depth : Nat) : Outline → String
  | .word text => text
  | .record name parts =>
    name ++ " \x7b\n" ++ renderFields (depth + 1) parts ++ margin depth ++ "\x7d"
  | .tuple name parts => name ++ "(\n" ++ renderParts (depth + 1) parts ++ margin depth ++ ")"
  | .list [] => "[]"
  | .list (first :: rest) =>
    "[\n" ++ (margin (depth + 1) ++ render (depth + 1) first ++ ",\n" ++
      renderParts (depth + 1) rest) ++ margin depth ++ "]"

/-- The lines of named parts. -/
def renderFields (depth : Nat) : List (String × Outline) → String
  | [] => ""
  | (name, value) :: rest =>
    margin depth ++ name ++ ": " ++ render depth value ++ ",\n" ++ renderFields depth rest

/-- The lines of parts in order. -/
def renderParts (depth : Nat) : List Outline → String
  | [] => ""
  | first :: rest => margin depth ++ render depth first ++ ",\n" ++ renderParts depth rest

end

end Outline
end Offside
