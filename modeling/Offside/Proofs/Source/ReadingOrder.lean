import Offside.Proofs.Source.LineEnds

/-!
# Locations in reading order

A line is looked up in the table of line starts by halving, which finds it since the starts are
sorted.  What the table then gives is what a reader counts from the left: the line feeds before a
position, the characters behind the last of them, and the line around it.  So the locations of
positions come in reading order, line by line and column by column, and no two positions share one.

Main definitions:

- `Source.halve`: the search for an entry of a sorted row by halving.
- `LineAround`: the line around the place between two pieces of a source.
- `Location.Counts`: a location says what is counted from the left.
- `Location.IsBefore`: a location is met before another one.

Main results:

- Theorem `halve_eq_search`: halving finds what there is to be found.
- Theorem `locationBetween_counts`: a location says what is counted.
- Theorem `locationBetween_isBefore`: locations come in reading order.
- Theorem `lookUp?_readingOrder`: so it is with those looked up in the line table.
-/

namespace Offside
namespace Source

/-! ## Halving -/

/-- The place of an entry of a sorted row from `low` up to `high`, or else the place where it would
have to go.  The entry in the middle tells in which half to go on. -/
def halve (row : List Nat) (entry low high : Nat) : Except Nat Nat :=
  if low < high then
    let middle := (low + high) / 2
    match row[middle]? with
    | some found =>
      if found = entry then .ok middle
      else if found < entry then halve row entry (middle + 1) high
      else halve row entry low middle
    | none => .error low
  else .error low
termination_by high - low

/-- The entries below another one are those in front of its place. -/
theorem lt_iff_lt_place {row : List Nat} (hrow : row.Pairwise (· < ·)) (entry : Nat)
    {index found : Nat} (hfound : row[index]? = some found) :
    found < entry ↔ index < (row.takeWhile (· < entry)).length := by
  induction row generalizing index with
  | nil => nomatch hfound
  | cons first row ih =>
    obtain ⟨hfirst, hrow⟩ := List.pairwise_cons.mp hrow
    by_cases hlow : first < entry
    · rw [List.takeWhile_cons_of_pos (by simpa using hlow), List.length_cons]
      cases index with
      | zero =>
        obtain rfl := Option.some.inj hfound
        exact iff_of_true hlow (Nat.succ_pos _)
      | succ index => exact (ih hrow hfound).trans Nat.succ_lt_succ_iff.symm
    · rw [List.takeWhile_cons_of_neg (by simpa using hlow), List.length_nil]
      refine iff_of_false (fun hlt => hlow ?_) (Nat.not_lt_zero _)
      cases index with
      | zero =>
        obtain rfl := Option.some.inj hfound
        exact hlt
      | succ index => exact (hfirst found (List.mem_of_getElem? hfound)).trans hlt

/-- An entry that stands in a sorted row stands at its place. -/
theorem place_eq {row : List Nat} (hrow : row.Pairwise (· < ·)) {index entry : Nat}
    (hentry : row[index]? = some entry) : (row.takeWhile (· < entry)).length = index := by
  have hplace := lt_iff_lt_place hrow entry hentry
  refine Nat.le_antisymm (Nat.not_lt.mp (mt hplace.mpr (Nat.lt_irrefl _)))
    (Nat.not_lt.mp fun hleft => ?_)
  -- Were the place further to the left, the entry there would be below its own place.
  obtain ⟨hinside, hget⟩ := List.getElem?_eq_some_iff.mp hentry
  have hlower := List.pairwise_iff_getElem.mp hrow _ _ (hleft.trans hinside) hinside hleft
  rw [hget] at hlower
  have hbelow := lt_iff_lt_place hrow entry (List.getElem?_eq_getElem (hleft.trans hinside))
  exact Nat.lt_irrefl _ (hbelow.mp hlower)

/-- As long as the place of an entry is neither left of `low` nor right of `high`, where the entry
does not stand, halving finds it. -/
theorem halve_eq {row : List Nat} (hrow : row.Pairwise (· < ·)) {entry low high : Nat}
    (hlow : low ≤ (row.takeWhile (· < entry)).length)
    (hhigh : (row.takeWhile (· < entry)).length ≤ high) (hlength : high ≤ row.length)
    (hout : row[high]? ≠ some entry) : halve row entry low high = search row entry := by
  induction hsize : high - low using Nat.strongRecOn generalizing low high with
  | ind size ih =>
    subst hsize
    rw [halve]
    split
    · next hlt =>
      have hmiddle : (low + high) / 2 < high := by omega
      have hget := List.getElem?_eq_getElem (Nat.lt_of_lt_of_le hmiddle hlength)
      have hplace := lt_iff_lt_place hrow entry hget
      generalize row[(low + high) / 2] = found at hget hplace
      simp only [hget]
      split
      · next heq =>
        subst heq
        simp only [search, place_eq hrow hget, hget, if_true]
      · next hne =>
        split
        · next hless => exact ih _ (by omega) (hplace.mp hless) hhigh hlength hout rfl
        · next hmore =>
          refine ih _ (by omega) hlow (Nat.not_lt.mp (mt hplace.mpr hmore)) (by omega) ?_ rfl
          rw [hget]
          exact fun heq => hne (Option.some.inj heq)
    · have heq : (row.takeWhile (· < entry)).length = high := by omega
      have hstop : low = high := by omega
      simp only [search, heq, if_neg hout, hstop]

/-! ## The line table -/

theorem pairwise_behindFeeds (position : Nat) (text : Source) :
    (behindFeeds position text).Pairwise (· < ·) := by
  induction text generalizing position with
  | nil => exact .nil
  | cons c text ih =>
    rw [behindFeeds]
    split
    · exact List.pairwise_cons.mpr ⟨fun entry hentry => (mem_behindFeeds hentry).1, ih _⟩
    · exact ih _

/-- The starts of lines are sorted. -/
theorem pairwise_lineStarts (source : Source) : (lineStarts source).Pairwise (· < ·) :=
  List.pairwise_cons.mpr ⟨fun _ hentry => (mem_behindFeeds hentry).1, pairwise_behindFeeds 0 source⟩

/-- Halving finds a line in the table if it is there, and else the place where it would go. -/
theorem halve_eq_search (source : Source) (entry : Nat) :
    halve (lineStarts source) entry 0 (lineStarts source).length =
      search (lineStarts source) entry :=
  halve_eq (pairwise_lineStarts source) (Nat.zero_le _) (List.takeWhile_prefix _).length_le le_rfl
    (by simp)

end Source

/-! ## Counting from the left -/

/-- The line around the place between two pieces of a source: the lines in front of it, its parts in
front of and behind the place, and what is behind it. -/
structure LineAround (before after : Source) where
  lines : Source
  front : Source
  back : Source
  more : Source
  before_eq : before = lines ++ front
  after_eq : after = back ++ more
  lines_whole : lines = [] ∨ ∃ others, lines = others ++ ['\n']
  oneLine : '\n' ∉ front ++ back
  more_apart : more = [] ∨ ∃ others, more = '\n' :: others

/-- A location says what is counted from the left up to the place between two pieces of a source:
the line feeds, the characters behind the last of them, and what the line reads but for carriage
returns at its end. -/
def Location.Counts (before after : Source) (location : Location) : Prop :=
  location.line = 1 + before.count '\n' ∧ ∃ around : LineAround before after,
    location.column = 1 + around.front.length ∧
    location.text.toList.getLast? ≠ some '\r' ∧ ∃ returns,
      around.front ++ around.back = location.text.toList ++ List.replicate returns '\r'

/-- A location is met before another one by who reads a source from the left. -/
def Location.IsBefore (first second : Location) : Prop :=
  first.line < second.line ∨ first.line = second.line ∧ first.column < second.column

namespace Source

variable {before after : Source}

theorem not_mem_firstLine (text : Source) : '\n' ∉ firstLine text := by
  intro hmem
  simpa using List.mem_takeWhile_imp hmem

/-- A text is its first line and what starts with the first line feed. -/
theorem exists_eq_firstLine_append (text : Source) :
    ∃ more, text = firstLine text ++ more ∧ (more = [] ∨ ∃ others, more = '\n' :: others) := by
  refine ⟨text.dropWhile (· ≠ '\n'), List.takeWhile_append_dropWhile.symm, ?_⟩
  cases hdrop : text.dropWhile (· ≠ '\n') with
  | nil => exact .inl rfl
  | cons c more =>
    have hhead := List.head?_dropWhile_not (· ≠ '\n') text
    rw [hdrop] at hhead
    exact .inr ⟨more, by simpa using hhead⟩

/-- Only carriage returns are dropped from the end of a line. -/
theorem exists_eq_dropFinalReturns_append (line : Source) :
    ∃ returns, line = dropFinalReturns line ++ List.replicate returns '\r' := by
  have hreturns : line.reverse.takeWhile (· = '\r') =
      List.replicate (line.reverse.takeWhile (· = '\r')).length '\r' :=
    List.eq_replicate_of_mem fun c hc => by simpa using List.mem_takeWhile_imp hc
  refine ⟨(line.reverse.takeWhile (· = '\r')).length, ?_⟩
  rw [dropFinalReturns, ← List.reverse_replicate, ← hreturns, ← List.reverse_append,
    List.takeWhile_append_dropWhile, List.reverse_reverse]

/-- All carriage returns are dropped from the end of a line. -/
theorem getLast?_dropFinalReturns (line : Source) :
    (dropFinalReturns line).getLast? ≠ some '\r' := by
  rw [dropFinalReturns, List.getLast?_reverse]
  intro hhead
  have hstop := List.head?_dropWhile_not (· = '\r') line.reverse
  rw [hhead] at hstop
  simp at hstop

/-- The location between two pieces of a source says what is counted up to there. -/
theorem locationBetween_counts (before after : Source) :
    (locationBetween before after).Counts before after := by
  obtain ⟨lines, hbefore, hlines⟩ := exists_eq_append_lastLine before
  obtain ⟨more, hafter, hmore⟩ := exists_eq_firstLine_append after
  have honeLine : '\n' ∉ lastLine before ++ firstLine after := by
    rw [List.mem_append, not_or]
    exact ⟨not_mem_lastLine before, not_mem_firstLine after⟩
  have htext : (locationBetween before after).text.toList =
      dropFinalReturns (lastLine before ++ firstLine after) := String.toList_ofList
  refine ⟨Nat.add_comm _ _, ⟨lines, lastLine before, firstLine after, more, hbefore, hafter,
    hlines, honeLine, hmore⟩, Nat.add_comm _ _, ?_, ?_⟩
  · rw [htext]
    exact getLast?_dropFinalReturns _
  · rw [htext]
    exact exists_eq_dropFinalReturns_append _

/-! ## Reading order -/

/-- Behind some characters more, the location is a later one. -/
theorem locationBetween_isBefore (before : Source) {between : Source} (h : between ≠ [])
    (after : Source) :
    (locationBetween before (between ++ after)).IsBefore
      (locationBetween (before ++ between) after) := by
  by_cases hfeed : '\n' ∈ between
  · have hcount := List.count_pos_iff.mpr hfeed
    refine .inl ?_
    simp only [locationBetween, List.count_append]
    omega
  · have hlines : between.count '\n' = 0 := List.count_eq_zero.mpr hfeed
    have hlast : lastLine (before ++ between) = lastLine before ++ between := by
      rw [lastLine, List.reverse_append, List.takeWhile_append_of_pos (all_ne_lineFeed hfeed),
        List.reverse_append, List.reverse_reverse, lastLine]
    have hlength := List.length_pos_iff.mpr h
    refine .inr ?_
    simp only [locationBetween, List.count_append, hlast, List.length_append]
    omega

/-- Of two places where a source can be cut, there are some characters between. -/
theorem exists_between {source : Source} {first second : Nat} (hfirst : Cuts source first)
    (hsecond : Cuts source second) (hlt : first < second) :
    ∃ before between after, between ≠ [] ∧ source = before ++ (between ++ after) ∧
      first = byteSize before ∧ second = byteSize (before ++ between) := by
  obtain ⟨between, before, after, hsource, hspan⟩ := hfirst.covers_between hsecond hlt.le
  obtain ⟨hstart, hstop⟩ := Span.mk.inj hspan
  refine ⟨before, between, after, ?_, hsource, hstart, ?_⟩
  · rintro rfl
    rw [byteSize_nil] at hstop
    omega
  · rw [byteSize_append]
    exact hstop

/-- The table locates the later of two positions behind the earlier one. -/
theorem lookUp?_isBefore {source : Source} {first second : Nat} (hfirst : Cuts source first)
    (hsecond : Cuts source second) (hlt : first < second) :
    ∃ earlier later, lookUp? source first = some earlier ∧ lookUp? source second = some later ∧
      earlier.IsBefore later := by
  obtain ⟨before, between, after, hne, rfl, rfl, rfl⟩ := exists_between hfirst hsecond hlt
  refine ⟨_, _, lookUp?_append _ _, ?_, locationBetween_isBefore before hne after⟩
  rw [← List.append_assoc]
  exact lookUp?_append _ _

/-- What the line table says of the positions of a source. -/
structure InReadingOrder (source : Source) : Prop where
  /-- Lines may be looked up by halving. -/
  halves : ∀ entry, halve (lineStarts source) entry 0 (lineStarts source).length =
    search (lineStarts source) entry
  /-- Between any two pieces of the source, the location that the table gives is the one that all
  others use, and says what is counted from the left. -/
  counts : ∀ before after, source = before ++ after → ∃ location,
    lookUp? source (byteSize before) = some location ∧
      location? source (byteSize before) = some location ∧ location.Counts before after
  /-- Behind the end, there is nothing but the end. -/
  clamps : ∀ position, byteSize source ≤ position →
    lookUp? source position = lookUp? source (byteSize source)
  /-- Later positions have later locations. -/
  ascends : ∀ first second, Cuts source first → Cuts source second → first < second →
    ∃ earlier later, lookUp? source first = some earlier ∧ lookUp? source second = some later ∧
      earlier.IsBefore later
  /-- No two positions have the same line and column. -/
  separates : ∀ first second location other, Cuts source first → Cuts source second →
    lookUp? source first = some location → lookUp? source second = some other →
      location.line = other.line → location.column = other.column → first = second

/-- The line table gives every position the location that is counted from the left, and the
locations of a source come in reading order. -/
theorem lookUp?_readingOrder (source : Source) : InReadingOrder source where
  halves := halve_eq_search source
  counts before after hsource := by
    subst hsource
    exact ⟨_, lookUp?_append before after, location?_append before after,
      locationBetween_counts before after⟩
  clamps position hle := by
    simp only [lookUp?, Nat.min_eq_right hle, Nat.min_self]
  ascends _ _ := lookUp?_isBefore
  separates first second location other hfirst hsecond hlocation hother hline hcolumn := by
    have hapart {low high : Nat} {earlier later : Location} (hlow : Cuts source low)
        (hhigh : Cuts source high) (hearlier : lookUp? source low = some earlier)
        (hlater : lookUp? source high = some later) (hline : earlier.line = later.line)
        (hcolumn : earlier.column = later.column) : ¬low < high := by
      intro hlt
      obtain ⟨_, _, hfound, hfound', hbefore⟩ := lookUp?_isBefore hlow hhigh hlt
      obtain rfl := Option.some.inj (hfound.symm.trans hearlier)
      obtain rfl := Option.some.inj (hfound'.symm.trans hlater)
      unfold Location.IsBefore at hbefore
      omega
    have hnotBefore := hapart hfirst hsecond hlocation hother hline hcolumn
    have hnotBehind := hapart hsecond hfirst hother hlocation hline.symm hcolumn.symm
    omega

end Source
end Offside
