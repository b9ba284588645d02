import Offside.Proofs.Writing.LoweredLists
import Offside.Token.Scanner

/-!
# Written statements

How statements with blocks are written, on lines of which each has a width: a block stands further
right than its header, and all its statements start at the same width.  Between the lines there may
be blank lines and comments, at any width.

Main definitions:

- `CodeLine`: the words of a line and how far the line is indented.
- `SpellsStmt`: lines spell a statement.
- `LaidOut`: a source is made up of lines and of what may stand between them.
- `Stmt.Nested`: the statements that can be written.

Main results:

- Theorem `Stmt.NestedAll.spells`: nested statements can be written.
- Theorem `exists_laidOut`: lines can be laid out.
-/

namespace Offside

variable {α : Type}

/-- A statement without its notes. -/
def Stmt.bare (stmt : Stmt α) : Stmt Unit := stmt.map fun _ => ()

/-- Statements without their notes. -/
def Stmt.bareAll (stmts : List (Stmt α)) : List (Stmt Unit) := Stmt.mapAll (fun _ => ()) stmts

/-! ## Lines -/

/-- The words of a line, and the number of blanks and tabs in front of them. -/
structure CodeLine where
  width : Nat
  words : List String
  deriving Repr

/-- The text of words on one line, with single blanks between them but none in front of a
colon. -/
def lineText : List String → Source
  | [] => []
  | [word] => word.toList
  | word :: next :: more =>
    word.toList ++ ((if next = ":" then [] else [' ']) ++ lineText (next :: more))

/-- A line that is blank or holds only a comment. -/
def IsGap (line : Source) : Prop :=
  ∃ indentation comment, line = indentation ++ comment ∧
    (∀ c ∈ indentation, Scanner.isIndentation c = true) ∧
    (comment = [] ∨ ∃ text, comment = '#' :: text ∧ '\n' ∉ text)

/-- A source is made up of lines, indented by blanks and tabs, and of gaps in front of, between and
behind them.  The last line feed may be missing. -/
inductive LaidOut : List CodeLine → Source → Prop where
  | nil : LaidOut [] []
  | gap {line rest : Source} {lines : List CodeLine} (isGap : IsGap line)
      (more : LaidOut lines rest) : LaidOut lines (line ++ '\n' :: rest)
  | line {indentation rest : Source} {words : List String} {lines : List CodeLine}
      (indents : ∀ c ∈ indentation, Scanner.isIndentation c = true) (more : LaidOut lines rest) :
      LaidOut (⟨indentation.length, words⟩ :: lines)
        (indentation ++ (lineText words ++ '\n' :: rest))
  | lastGap {line : Source} (isGap : IsGap line) : LaidOut [] line
  | lastLine {indentation : Source} {words : List String}
      (indents : ∀ c ∈ indentation, Scanner.isIndentation c = true) :
      LaidOut [⟨indentation.length, words⟩] (indentation ++ lineText words)

/-! ## Statements -/

mutual

/-- `SpellsStmt width stmt lines`: the lines spell the statement, which starts at the width. -/
inductive SpellsStmt : Nat → Stmt Unit → List CodeLine → Prop where
  | pass {width : Nat} : SpellsStmt width (.pass ()) [⟨width, ["pass"]⟩]
  | while {width : Nat} {condition : Expr Unit} {body : List (Stmt Unit)} {level : Level}
      {words : List String} {lines : List CodeLine} (onCondition : Spells level condition words)
      (onBody : SpellsBlock width body lines) :
      SpellsStmt width (.while () condition body)
        (⟨width, "while" :: (words ++ [":"])⟩ :: lines)
  | cond {width : Nat} {condition : Expr Unit} {body otherwise : List (Stmt Unit)} {level : Level}
      {words : List String} {lines lines' : List CodeLine}
      (onCondition : Spells level condition words) (onBody : SpellsBlock width body lines)
      (onTail : SpellsTail width otherwise lines') :
      SpellsStmt width (.cond () condition body otherwise)
        (⟨width, "if" :: (words ++ [":"])⟩ :: (lines ++ lines'))
  | for {width : Nat} {item : String} {iterable : Expr Unit} {body otherwise : List (Stmt Unit)}
      {level : Level} {words : List String} {lines lines' : List CodeLine} (named : IsName item)
      (onIterable : Spells level iterable words) (onBody : SpellsBlock width body lines)
      (onElse : SpellsElse width otherwise lines') :
      SpellsStmt width (.for () item iterable body otherwise)
        (⟨width, "for" :: item :: "in" :: (words ++ [":"])⟩ :: (lines ++ lines'))

/-- Statements that start at the same width. -/
inductive SpellsStmts : Nat → List (Stmt Unit) → List CodeLine → Prop where
  | nil {width : Nat} : SpellsStmts width [] []
  | cons {width : Nat} {first : Stmt Unit} {more : List (Stmt Unit)} {lines lines' : List CodeLine}
      (onFirst : SpellsStmt width first lines) (onMore : SpellsStmts width more lines') :
      SpellsStmts width (first :: more) (lines ++ lines')

/-- The block of a header at a width: one or more statements at a larger width. -/
inductive SpellsBlock : Nat → List (Stmt Unit) → List CodeLine → Prop where
  | block {width inner : Nat} {first : Stmt Unit} {more : List (Stmt Unit)}
      {lines lines' : List CodeLine} (wider : width < inner)
      (onFirst : SpellsStmt inner first lines) (onMore : SpellsStmts inner more lines') :
      SpellsBlock width (first :: more) (lines ++ lines')

/-- Nothing, or the word `else` at a width and its block. -/
inductive SpellsElse : Nat → List (Stmt Unit) → List CodeLine → Prop where
  | nothing {width : Nat} : SpellsElse width [] []
  | otherwise {width : Nat} {body : List (Stmt Unit)} {lines : List CodeLine}
      (onBody : SpellsBlock width body lines) :
      SpellsElse width body (⟨width, ["else", ":"]⟩ :: lines)

/-- Any number of branches with the word `elif`, and perhaps one with `else`.  A branch is a
conditional inside the alternative of what it belongs to. -/
inductive SpellsTail : Nat → List (Stmt Unit) → List CodeLine → Prop where
  | last {width : Nat} {otherwise : List (Stmt Unit)} {lines : List CodeLine}
      (onElse : SpellsElse width otherwise lines) : SpellsTail width otherwise lines
  | elif {width : Nat} {condition : Expr Unit} {body otherwise : List (Stmt Unit)} {level : Level}
      {words : List String} {lines lines' : List CodeLine}
      (onCondition : Spells level condition words) (onBody : SpellsBlock width body lines)
      (onTail : SpellsTail width otherwise lines') :
      SpellsTail width [.cond () condition body otherwise]
        (⟨width, "elif" :: (words ++ [":"])⟩ :: (lines ++ lines'))

end

/-! ## Nested statements -/

mutual

/-- Statements made up of `pass`, of conditionals and of loops, with plain expressions and with
statements in all their blocks. -/
def Stmt.Nested : Stmt α → Prop
  | .pass _ => True
  | .while _ condition body => condition.Plain ∧ body ≠ [] ∧ Stmt.NestedAll body
  | .cond _ condition body otherwise =>
    condition.Plain ∧ body ≠ [] ∧ Stmt.NestedAll body ∧ Stmt.NestedAll otherwise
  | .for _ item iterable body otherwise =>
    (IsName item ∧ iterable.Plain) ∧ body ≠ [] ∧ Stmt.NestedAll body ∧ Stmt.NestedAll otherwise
  | _ => False

/-- All of several statements are nested. -/
def Stmt.NestedAll : List (Stmt α) → Prop
  | [] => True
  | first :: rest => first.Nested ∧ Stmt.NestedAll rest

end

/-- Statements at a larger width are a block. -/
theorem SpellsStmts.block {width inner : Nat} {stmts : List (Stmt Unit)} {lines : List CodeLine}
    (wider : width < inner) (hne : stmts ≠ []) (h : SpellsStmts inner stmts lines) :
    SpellsBlock width stmts lines := by
  cases h with
  | nil => exact absurd rfl hne
  | cons onFirst onMore => exact .block wider onFirst onMore

/-- Statements that can be written can be written as an alternative. -/
theorem SpellsElse.of_stmts {width : Nat} {stmts : List (Stmt Unit)} {lines : List CodeLine}
    (h : SpellsStmts (width + 1) stmts lines) : ∃ lines', SpellsElse width stmts lines' := by
  by_cases hne : stmts = []
  · subst hne
    exact ⟨_, .nothing⟩
  · exact ⟨_, .otherwise (h.block (Nat.lt_succ_self width) hne)⟩

theorem Stmt.bareAll_ne_nil {stmts : List (Stmt α)} (h : stmts ≠ []) : Stmt.bareAll stmts ≠ [] := by
  cases stmts with
  | nil => exact absurd rfl h
  | cons first more => exact List.cons_ne_nil _ _

mutual

/-- Every nested statement can be written at every width, for one with blocks that are indented by
one blank more than their headers. -/
theorem Stmt.Nested.spells {stmt : Stmt α} (h : stmt.Nested) (width : Nat) :
    ∃ lines, SpellsStmt width stmt.bare lines := by
  match stmt with
  | .pass _ => exact ⟨_, .pass⟩
  | .while _ condition body =>
    obtain ⟨words, onCondition⟩ := h.1.spells
    obtain ⟨lines, onBody⟩ := Stmt.NestedAll.spells h.2.2 (width + 1)
    exact ⟨_, .while onCondition (onBody.block (Nat.lt_succ_self width) (bareAll_ne_nil h.2.1))⟩
  | .cond _ condition body otherwise =>
    obtain ⟨words, onCondition⟩ := h.1.spells
    obtain ⟨lines, onBody⟩ := Stmt.NestedAll.spells h.2.2.1 (width + 1)
    obtain ⟨lines', onOtherwise⟩ := Stmt.NestedAll.spells h.2.2.2 (width + 1)
    obtain ⟨lines'', onElse⟩ := SpellsElse.of_stmts onOtherwise
    exact ⟨_, .cond onCondition (onBody.block (Nat.lt_succ_self width) (bareAll_ne_nil h.2.1))
      (.last onElse)⟩
  | .for _ item iterable body otherwise =>
    obtain ⟨words, onIterable⟩ := h.1.2.spells
    obtain ⟨lines, onBody⟩ := Stmt.NestedAll.spells h.2.2.1 (width + 1)
    obtain ⟨lines', onOtherwise⟩ := Stmt.NestedAll.spells h.2.2.2 (width + 1)
    obtain ⟨lines'', onElse⟩ := SpellsElse.of_stmts onOtherwise
    exact ⟨_, .for h.1.1 onIterable
      (onBody.block (Nat.lt_succ_self width) (bareAll_ne_nil h.2.1)) onElse⟩

/-- So can nested statements in a row. -/
theorem Stmt.NestedAll.spells {stmts : List (Stmt α)} (h : Stmt.NestedAll stmts) (width : Nat) :
    ∃ lines, SpellsStmts width (Stmt.bareAll stmts) lines := by
  match stmts with
  | [] => exact ⟨_, .nil⟩
  | first :: rest =>
    obtain ⟨lines, onFirst⟩ := h.1.spells width
    obtain ⟨lines', onRest⟩ := Stmt.NestedAll.spells h.2 width
    exact ⟨_, .cons onFirst onRest⟩

end

/-- Lines can be laid out, for one with blanks in front of them and nothing between them. -/
theorem exists_laidOut (lines : List CodeLine) : ∃ source, LaidOut lines source := by
  induction lines with
  | nil => exact ⟨[], .nil⟩
  | cons line lines ih =>
    obtain ⟨rest, hrest⟩ := ih
    have hblanks : ∀ c ∈ List.replicate line.width ' ', Scanner.isIndentation c = true := by
      intro c hc
      rw [List.eq_of_mem_replicate hc]
      rfl
    have hlaid : LaidOut (⟨(List.replicate line.width ' ').length, line.words⟩ :: lines)
        (List.replicate line.width ' ' ++ (lineText line.words ++ '\n' :: rest)) :=
      .line hblanks hrest
    rw [List.length_replicate] at hlaid
    exact ⟨_, hlaid⟩

end Offside
