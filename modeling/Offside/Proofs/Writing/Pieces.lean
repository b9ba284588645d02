import Offside.Proofs.Layout.Lines
import Offside.Proofs.Writing.Scanning
import Offside.Proofs.Writing.Statements

/-!
# Pieces of written lines

What the tokens of lines are read from: the words of each line, its end, and where the widths of
the lines open and close blocks.  A block of lines takes its pieces with it: in front of whatever
follows, it adds an opening, the pieces of its lines and a closing.

Main definitions:

- `Piece`: what a token is read from, a word or the layout of lines.
- `pieces?`: the pieces of some lines.
- `Unfolds`: in front of whatever follows, lines add certain pieces.

Main results:

- Theorem `Unfolds.block`: the pieces of a block.
-/

namespace Offside

/-- What a token is read from: a word, or the layout of lines. -/
inductive Piece where
  | word (text : String)
  | layout (kind : TokenKind)

/-- A token is read from a piece. -/
def Piece.Gives (source : Source) : Piece → Token → Prop
  | .word text, token => TokenOf source text token
  | .layout kind, token => token.kind = kind

/-- The pieces of words on one line. -/
def wordPieces (words : List String) : List Piece := words.map Piece.word

/-- The pieces of some lines, given the widths of the open blocks: the layout of each line, its
words and its end, and at last the ends of the blocks that are left.  There are none if a line has
a width that is none of a block. -/
def pieces? : List Nat → List CodeLine → Option (List Piece)
  | stack, [] => some (List.replicate (stack.length - 1) (.layout .dedent))
  | stack, line :: lines => do
    let (marks, stack) ← indent? stack line.width
    let more ← pieces? stack lines
    return marks.map Piece.layout ++ (wordPieces line.words ++ Piece.layout .newline :: more)

section Blocks

variable {width inner : Nat} {words : List String} {lines lines' : List CodeLine}
  {pieces pieces' : List Piece}

/-! ## Widths -/

theorem indent?_same (width : Nat) (below : List Nat) :
    indent? (width :: below) width = some ([], width :: below) := by
  simp [indent?]

theorem indent?_wider (wider : width < inner) (below : List Nat) :
    indent? (width :: below) inner = some ([.indent], inner :: width :: below) := by
  simp [indent?, wider]

/-- A line that is not wider than what is below the innermost block closes this block. -/
theorem indent?_below {v : Nat} (wider : width < inner) (hv : v ≤ width) (below : List Nat) :
    indent? (inner :: width :: below) v =
      (indent? (width :: below) v).map fun entry => (.dedent :: entry.1, entry.2) := by
  have hless : v < inner := Nat.lt_of_le_of_lt hv wider
  have hnotWider : ¬inner < v := Nat.not_lt.mpr (Nat.le_of_lt hless)
  have hnotWider' : ¬width < v := Nat.not_lt.mpr hv
  simp only [indent?, List.headD_cons, if_neg hnotWider, if_neg hnotWider',
    if_neg (Nat.ne_of_lt hless), List.takeWhile_cons, List.dropWhile_cons,
    decide_eq_true hless, if_true]
  by_cases hsame : v = width
  · subst hsame
    simp
  · have hless' : v < width := Nat.lt_of_le_of_ne hv hsame
    simp only [if_neg hsame, decide_eq_true hless', if_true]
    split <;> rfl

/-- So do lines that start with such a line, and no lines at all. -/
theorem pieces?_below (wider : width < inner) (below : List Nat)
    (hlines : ∀ line ∈ lines.head?, line.width ≤ width) :
    pieces? (inner :: width :: below) lines =
      (pieces? (width :: below) lines).map (Piece.layout .dedent :: ·) := by
  cases lines with
  | nil => rfl
  | cons line lines =>
    rw [pieces?, pieces?, indent?_below wider (hlines line rfl)]
    cases indent? (width :: below) line.width with
    | none => rfl
    | some entry =>
      cases hmore : pieces? entry.2 lines <;> simp [hmore]

/-! ## Lines of a block -/

/-- In a block of a width, lines add some pieces in front of whatever follows. -/
def Unfolds (width : Nat) (lines : List CodeLine) (pieces : List Piece) : Prop :=
  ∀ below more, (∀ line ∈ more.head?, line.width ≤ width) →
    pieces? (width :: below) (lines ++ more) = (pieces? (width :: below) more).map (pieces ++ ·)

/-- Lines start with one of a width. -/
def StartsAt (width : Nat) (lines : List CodeLine) : Prop :=
  ∃ words more, lines = ⟨width, words⟩ :: more

theorem StartsAt.append (h : StartsAt width lines) (more : List CodeLine) :
    StartsAt width (lines ++ more) := by
  obtain ⟨words, behind, rfl⟩ := h
  exact ⟨words, behind ++ more, rfl⟩

theorem StartsAt.head_le (h : StartsAt width lines) :
    ∀ line ∈ lines.head?, line.width ≤ width := by
  obtain ⟨words, more, rfl⟩ := h
  rintro line ⟨rfl⟩
  exact Nat.le_refl _

namespace Unfolds

theorem nil : Unfolds width [] [] := by
  intro below more hmore
  simp only [List.nil_append, Option.map_id']

/-- A line of the width adds its words and its end. -/
theorem cons (words : List String) (h : Unfolds width lines pieces) :
    Unfolds width (⟨width, words⟩ :: lines) (wordPieces words ++ .layout .newline :: pieces) := by
  intro below more hmore
  rw [List.cons_append, pieces?, indent?_same]
  simp only [Option.bind_eq_bind, Option.bind_some, h below more hmore]
  cases pieces? (width :: below) more <;> simp

theorem append (h : Unfolds width lines pieces) (h' : Unfolds width lines' pieces')
    (hwidth : ∀ line ∈ lines'.head?, line.width ≤ width) :
    Unfolds width (lines ++ lines') (pieces ++ pieces') := by
  intro below more hmore
  have hmore' : ∀ line ∈ (lines' ++ more).head?, line.width ≤ width := by
    cases lines' with
    | nil => exact hmore
    | cons line lines' => exact hwidth
  rw [List.append_assoc, h below _ hmore', h' below more hmore, Option.map_map]
  congr 1
  funext rest
  exact (List.append_assoc _ _ _).symm

/-- A block inside adds an opening, what its lines add, and a closing. -/
theorem block (wider : width < inner) (hstarts : StartsAt inner lines)
    (h : Unfolds inner lines pieces) :
    Unfolds width lines (.layout .indent :: (pieces ++ [.layout .dedent])) := by
  intro below more hmore
  have hmore' : ∀ line ∈ more.head?, line.width ≤ inner := fun line hline =>
    Nat.le_trans (hmore line hline) (Nat.le_of_lt wider)
  have hinside := h (width :: below) more hmore'
  rw [pieces?_below wider below hmore] at hinside
  -- The first line opens the block; from there on, the lines are those of the block.
  have hopens : pieces? (width :: below) (lines ++ more) =
      (pieces? (inner :: width :: below) (lines ++ more)).map (Piece.layout .indent :: ·) := by
    obtain ⟨words, behind, rfl⟩ := hstarts
    rw [List.cons_append, pieces?, pieces?, indent?_wider wider, indent?_same]
    simp only [Option.bind_eq_bind, Option.bind_some]
    cases pieces? (inner :: width :: below) (behind ++ more) <;> rfl
  rw [hopens, hinside]
  cases pieces? (width :: below) more <;> simp

/-- All lines of a source are a block of width zero. -/
theorem pieces?_eq (h : Unfolds 0 lines pieces) : pieces? [0] lines = some pieces := by
  have hall := h [] [] nofun
  rw [List.append_nil] at hall
  rw [hall]
  simp [pieces?]

end Unfolds
end Blocks
end Offside
