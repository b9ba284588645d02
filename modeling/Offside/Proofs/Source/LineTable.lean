import Offside.Proofs.Source.Places
import Mathlib.Data.List.TakeWhile

/-!
# Line tables

A table of the positions where the lines of a source start finds the line of a position by a
search, and its column and text by cutting the source.  Looked up step by step, with every index
and every cut checked, the table has the location of each position that has one.

Main definitions:

- `Source.lineStarts`: the positions where the lines of a source start.
- `Source.lineIndex?`: the line of a position in such a table.
- `Source.lookUp?`: the location of a position by the table.

Main results:

- Theorem `Source.lookUp?_eq`: the table gives the location of a position.
-/

namespace Offside
namespace Source

/-- The positions behind the line feeds of a text that stands at a position. -/
def behindFeeds (position : Nat) : Source → List Nat
  | [] => []
  | c :: rest =>
    let next := position + c.utf8Size
    if c = '\n' then next :: behindFeeds next rest else behindFeeds next rest

/-- The positions where the lines of a source start. -/
def lineStarts (source : Source) : List Nat := 0 :: behindFeeds 0 source

/-- The place of an entry in a sorted row, or else the place where it would have to go. -/
def search (row : List Nat) (entry : Nat) : Except Nat Nat :=
  let place := (row.takeWhile (· < entry)).length
  if row[place]? = some entry then .ok place else .error place

/-- The index of the last entry of a sorted row that is not beyond a position, if there is one
before the place where the position would have to go. -/
def lineIndex? (row : List Nat) (position : Nat) : Option Nat :=
  match search row position with
  | .ok place => some place
  | .error place => if 1 ≤ place then some (place - 1) else none

/-- The location of a position by the line table, if no step leads out of the table or cuts a
character of the source. -/
def lookUp? (source : Source) (position : Nat) : Option Location := do
  let position := min position (byteSize source)
  let index ← lineIndex? (lineStarts source) position
  let start ← (lineStarts source)[index]?
  let line ← slice? source ⟨start, byteSize source⟩
  let before ← slice? source ⟨start, position⟩
  let text ← slice? source ⟨start, start + byteSize (firstLine line)⟩
  return ⟨index + 1, before.length + 1, String.ofList (dropFinalReturns text)⟩

/-! ## Searches -/

section Search

variable {lows highs : List Nat} {start position : Nat}

/-- A row is searched up to the last entry that is not beyond the position. -/
theorem lineIndex?_append (hlows : ∀ low ∈ lows, low < start) (hstart : start ≤ position)
    (hhighs : ∀ high ∈ highs, position < high) :
    lineIndex? (lows ++ start :: highs) position = some lows.length := by
  have hpass : ∀ low ∈ lows, decide (low < position) = true := fun low hlow =>
    decide_eq_true (Nat.lt_of_lt_of_le (hlows low hlow) hstart)
  have hstop : highs.takeWhile (· < position) = [] := by
    cases highs with
    | nil => rfl
    | cons high highs =>
      have hhigh := hhighs high List.mem_cons_self
      exact List.takeWhile_cons_of_neg (by simp; omega)
  rcases Nat.eq_or_lt_of_le hstart with rfl | hlt
  · have hplace : (lows ++ start :: highs).takeWhile (· < start) = lows := by
      rw [List.takeWhile_append_of_pos hpass, List.takeWhile_cons_of_neg (by simp),
        List.append_nil]
    simp [lineIndex?, search, hplace]
  · have hplace : (lows ++ start :: highs).takeWhile (· < position) = lows ++ [start] := by
      rw [List.takeWhile_append_of_pos hpass, List.takeWhile_cons_of_pos (by simpa using hlt),
        hstop]
    have hnext : (lows ++ start :: highs)[lows.length + 1]? ≠ some position := by
      intro hget
      rw [List.getElem?_append_right (by omega)] at hget
      simp only [Nat.add_sub_cancel_left, List.getElem?_cons_succ] at hget
      have hhigh := hhighs position (List.mem_of_getElem? hget)
      omega
    simp [lineIndex?, search, hplace, hnext]

end Search

/-! ## Line starts -/

theorem behindFeeds_append (position : Nat) (text more : Source) :
    behindFeeds position (text ++ more) =
      behindFeeds position text ++ behindFeeds (position + byteSize text) more := by
  induction text generalizing position with
  | nil => rfl
  | cons c text ih =>
    simp only [List.cons_append, behindFeeds, byteSize_cons, ih, Nat.add_assoc]
    split <;> rfl

theorem length_behindFeeds (position : Nat) (text : Source) :
    (behindFeeds position text).length = text.count '\n' := by
  induction text generalizing position with
  | nil => rfl
  | cons c text ih =>
    by_cases hc : c = '\n'
    · simp [behindFeeds, hc, ih]
    · simp [behindFeeds, hc, ih]

theorem behindFeeds_eq_nil (position : Nat) {text : Source} (h : '\n' ∉ text) :
    behindFeeds position text = [] := by
  rw [← List.length_eq_zero_iff, length_behindFeeds, List.count_eq_zero]
  exact h

/-- A position behind a line feed lies inside the text or at its end. -/
theorem mem_behindFeeds {position entry : Nat} {text : Source}
    (h : entry ∈ behindFeeds position text) :
    position < entry ∧ entry ≤ position + byteSize text := by
  induction text generalizing position with
  | nil => cases h
  | cons c text ih =>
    have hpos := Char.utf8Size_pos c
    have hrest : entry ∈ behindFeeds (position + c.utf8Size) text →
        position < entry ∧ entry ≤ position + byteSize (c :: text) := by
      intro hmem
      have hbounds := ih hmem
      rw [byteSize_cons]
      omega
    rw [behindFeeds] at h
    split at h
    · rcases List.mem_cons.mp h with rfl | hmem
      · rw [byteSize_cons]
        omega
      · exact hrest hmem
    · exact hrest h

/-! ## Lines -/

theorem not_mem_lastLine (text : Source) : '\n' ∉ lastLine text := by
  intro hmem
  rw [lastLine, List.mem_reverse] at hmem
  simpa using List.mem_takeWhile_imp hmem

/-- A text is some whole lines and the start of its last line. -/
theorem exists_eq_append_lastLine (text : Source) :
    ∃ whole, text = whole ++ lastLine text ∧ (whole = [] ∨ ∃ more, whole = more ++ ['\n']) := by
  refine ⟨(text.reverse.dropWhile (· ≠ '\n')).reverse, ?_, ?_⟩
  · rw [lastLine, ← List.reverse_append, List.takeWhile_append_dropWhile, List.reverse_reverse]
  · cases hdrop : text.reverse.dropWhile (· ≠ '\n') with
    | nil => exact .inl rfl
    | cons c more =>
      have hc : c = '\n' := by
        have hhead := List.head?_dropWhile_not (· ≠ '\n') text.reverse
        rw [hdrop] at hhead
        simpa using hhead
      exact .inr ⟨more.reverse, by rw [List.reverse_cons, hc]⟩

/-- The first line goes on behind the line that it continues. -/
theorem firstLine_append {line : Source} (h : '\n' ∉ line) (after : Source) :
    firstLine (line ++ after) = line ++ firstLine after := by
  rw [firstLine, List.takeWhile_append_of_pos, firstLine]
  intro c hc
  have hne : c ≠ '\n' := fun heq => h (heq ▸ hc)
  simpa using hne

/-- Where whole lines end, a line starts: behind the starts of these lines, each before it. -/
theorem lineStarts_whole {whole : Source} (h : whole = [] ∨ ∃ more, whole = more ++ ['\n'])
    (rest : Source) :
    ∃ lows, lows.length = whole.count '\n' ∧ (∀ low ∈ lows, low < byteSize whole) ∧
      lineStarts (whole ++ rest) =
        lows ++ byteSize whole :: behindFeeds (byteSize whole) rest := by
  rcases h with rfl | ⟨more, rfl⟩
  · exact ⟨[], rfl, by simp, rfl⟩
  · have hone : byteSize (more ++ ['\n']) = byteSize more + 1 := byteSize_append more ['\n']
    refine ⟨0 :: behindFeeds 0 more, ?_, ?_, ?_⟩
    · rw [List.length_cons, length_behindFeeds, List.count_append]
      rfl
    · intro low hlow
      rw [hone]
      rcases List.mem_cons.mp hlow with rfl | hmem
      · omega
      · have hbounds := mem_behindFeeds hmem
        omega
    · rw [lineStarts, List.append_assoc, behindFeeds_append, List.cons_append, hone,
        Nat.zero_add]
      rfl

/-! ## Locations -/

/-- The line table has the location between two pieces of a source. -/
theorem lookUp?_append (before after : Source) :
    lookUp? (before ++ after) (byteSize before) = some (locationBetween before after) := by
  obtain ⟨whole, hbefore, hwhole⟩ := exists_eq_append_lastLine before
  have hline := not_mem_lastLine before
  have hcount : before.count '\n' = whole.count '\n' := by
    rw [hbefore, List.count_append, List.count_eq_zero.mpr hline, Nat.add_zero]
  rw [locationBetween, hcount]
  -- only what the last line is matters from here on, not what it was taken from
  generalize lastLine before = line at hbefore hline
  subst hbefore
  obtain ⟨lows, hlength, hlows, hstarts⟩ := lineStarts_whole hwhole (line ++ after)
  rw [← List.append_assoc, behindFeeds_append, behindFeeds_eq_nil _ hline,
    List.nil_append] at hstarts
  have hmin : min (byteSize (whole ++ line)) (byteSize (whole ++ line ++ after)) =
      byteSize (whole ++ line) := by
    rw [byteSize_append _ after]
    omega
  have hindex : lineIndex? (lineStarts (whole ++ line ++ after)) (byteSize (whole ++ line)) =
      some lows.length := by
    rw [hstarts, byteSize_append]
    exact lineIndex?_append hlows (Nat.le_add_right _ _) fun high hhigh =>
      (mem_behindFeeds hhigh).1
  have hstart : (lineStarts (whole ++ line ++ after))[lows.length]? = some (byteSize whole) := by
    rw [hstarts]
    simp
  have hrest : slice? (whole ++ line ++ after) ⟨byteSize whole, byteSize (whole ++ line ++ after)⟩ =
      some (line ++ after) :=
    Covers.slice?_eq ⟨whole, [], by simp, by simp⟩
  have hcolumn : slice? (whole ++ line ++ after) ⟨byteSize whole, byteSize (whole ++ line)⟩ =
      some line :=
    Covers.slice?_eq ⟨whole, after, by simp, by simp⟩
  have htext : slice? (whole ++ line ++ after)
      ⟨byteSize whole, byteSize whole + byteSize (line ++ firstLine after)⟩ =
      some (line ++ firstLine after) := by
    refine Covers.slice?_eq ⟨whole, after.dropWhile (· ≠ '\n'), ?_, rfl⟩
    simp [firstLine]
  simp only [lookUp?, hmin, hindex, hstart, hrest, hcolumn, firstLine_append hline, htext,
    Option.bind_eq_bind, Option.bind_some, Option.pure_def, ← hlength]

/-- The line table gives the location of a position, and none where there is none. -/
theorem lookUp?_eq (source : Source) (position : Nat) :
    lookUp? source position = location? source position := by
  have hclamp : lookUp? source position = lookUp? source (min position (byteSize source)) := by
    simp only [lookUp?, Nat.min_assoc, Nat.min_self]
  rw [hclamp, location?]
  generalize hp : min position (byteSize source) = p
  have hle : p ≤ byteSize source := by omega
  cases hsplit : splitAt? source p with
  | some pieces =>
    obtain ⟨rfl, rfl⟩ := eq_append_of_splitAt? hsplit
    exact lookUp?_append pieces.1 pieces.2
  | none =>
    rw [Option.map_none, Option.eq_none_iff_forall_ne_some]
    intro location hlookUp
    simp only [lookUp?, Nat.min_eq_left hle, Option.bind_eq_bind, Option.bind_eq_some_iff]
      at hlookUp
    obtain ⟨index, -, start, -, line, -, before, hbefore, -⟩ := hlookUp
    obtain ⟨first, second, rfl, rfl⟩ := (covers_of_slice? hbefore).cuts_stop
    rw [splitAt?_append] at hsplit
    cases hsplit

end Source
end Offside
