import Offside.Diagnostic.Report
import Offside.Proofs.Source.LineEnds
import Offside.Proofs.Source.LineTable
import Offside.Proofs.Text.Around

/-!
# Where a report points

A report on a place shows the line of the place without its indentation and without what it ends
with, behind the number of the line.  Its mark is moved by as much, so that the caret stands below
the character at the place: the widths of the indentation and of the line number cancel out.

This holds as long as the formatter takes the width of the mark.  Further to the right the report
breaks off in front of the mark, and nothing points at the character.

Main definitions:

- `PointsAt`: a printed text ends in an excerpt and a mark, whose caret stands below a character.
- `Location.IsAt`: a location is that of a character that is not blank.

Main results:

- Theorem `Diagnostic.complete_report`: when a report is printed to its end.
- Theorem `Diagnostic.report_pointsAt`: a report on the place of a character that is not blank
  points at this character if and only if the width of its mark can be formatted.
-/

namespace Offside

/-- A printed text ends in an excerpt and a mark below it, a line each.  The mark has one caret,
and the character of the excerpt in the column of the caret is `c`. -/
def PointsAt (printed : List Char) (c : Char) : Prop :=
  ∃ above excerpt mark : List Char, ∃ column : Nat,
    printed = above ++ '\n' :: (excerpt ++ '\n' :: (mark ++ ['\n'])) ∧
      '\n' ∉ excerpt ∧ '\n' ∉ mark ∧
      (∀ i, mark[i]? = some '^' ↔ i = column) ∧ excerpt[column]? = some c

/-- The last two lines of a text that ends with the end of a line are determined by the text. -/
theorem eq_of_append_lines {above above' first first' last last' : List Char}
    (h : above ++ '\n' :: (first ++ '\n' :: (last ++ ['\n'])) =
      above' ++ '\n' :: (first' ++ '\n' :: (last' ++ ['\n'])))
    (hfirst : '\n' ∉ first) (hfirst' : '\n' ∉ first') (hlast : '\n' ∉ last)
    (hlast' : '\n' ∉ last') : first = first' ∧ last = last' := by
  have hcut : (above ++ '\n' :: first) ++ '\n' :: last =
      (above' ++ '\n' :: first') ++ '\n' :: last' :=
    List.append_cancel_right (by simpa using h : _ ++ ['\n'] = _ ++ ['\n'])
  obtain rfl : last = last' := by
    rw [← Source.lastLine_append hlast, hcut, Source.lastLine_append hlast']
  have habove : above ++ '\n' :: first = above' ++ '\n' :: first' :=
    List.append_cancel_right hcut
  exact ⟨by rw [← Source.lastLine_append hfirst, habove, Source.lastLine_append hfirst'], rfl⟩

/-! ## The place of a character -/

/-- A location is that of a character that is not blank, with a text in front of it and one behind
it in its line. -/
structure Location.IsAt (location : Location) (front : List Char) (c : Char)
    (more : List Char) : Prop where
  blank : Text.isBlank c = false
  text : location.text.toList = front ++ c :: more
  column : location.column = front.length + 1
  oneLine : '\n' ∉ location.text.toList

/-- What is not blank is no line feed. -/
theorem Text.ne_lineFeed {c : Char} (hc : isBlank c = false) : c ≠ '\n' := by
  rintro rfl
  exact absurd hc (by decide)

/-- The character behind a cut of a source is at the location of the cut. -/
theorem Source.isAt_locationBetween {c : Char} (hc : Text.isBlank c = false)
    (before after : Source) :
    ∃ more, (locationBetween before (c :: after)).IsAt (lastLine before) c more := by
  have hfeed := Text.ne_lineFeed hc
  have hreturn : decide (c = '\r') = false := decide_eq_false (by
    rintro rfl
    exact absurd hc (by decide))
  have hfirst : firstLine (c :: after) = c :: firstLine after :=
    List.takeWhile_cons_of_pos (by simpa using hfeed)
  have htext : (locationBetween before (c :: after)).text.toList =
      lastLine before ++ c :: dropFinalReturns (firstLine after) := by
    rw [locationBetween, String.toList_ofList, hfirst, dropFinalReturns,
      dropEnd_append_cons hreturn, dropFinalReturns]
  have hmore : '\n' ∉ dropFinalReturns (firstLine after) := by
    intro hmem
    rw [dropFinalReturns, List.mem_reverse] at hmem
    have hline := List.mem_reverse.mp ((List.dropWhile_suffix _).mem hmem)
    simpa using List.mem_takeWhile_imp hline
  exact ⟨_, hc, htext, rfl, by simp [htext, not_mem_lastLine, hfeed.symm, hmore]⟩

namespace Diagnostic

variable {location : Location} {front more : List Char} {c : Char}

/-! ## Fields -/

/-- The formatter refuses a field if and only if it is too wide. -/
@[simp]
theorem isSome_alignRight? (filler : Char) (width : Nat) (text : List Char) :
    (alignRight? filler width text).isSome = decide (width ≤ maxWidth) := by
  by_cases h : width ≤ maxWidth <;> simp [alignRight?, h]

/-- A text within the width of a field is padded on the left. -/
theorem alignRight?_eq {filler : Char} {width : Nat} (h : width ≤ maxWidth) (text : List Char) :
    alignRight? filler width text = some (List.replicate (width - text.length) filler ++ text) :=
  if_pos h

/-- The bar stands behind as many blanks as the line number and the blank behind it take. -/
theorem bar?_eq (h : gutterWidth location ≤ maxWidth) :
    bar? location = some (List.replicate ((lineNumber location).length + 1) ' ' ++ ['|']) := by
  rw [bar?, alignRight?_eq h]
  rfl

/-- There is a mark line if its width is within the limit. -/
theorem isSome_markLine? : (markLine? location).isSome = decide (Fits location) := by
  by_cases hgutter : gutterWidth location ≤ maxWidth <;>
    by_cases hmark : markWidth location ≤ maxWidth <;>
      simp [markLine?, bar?, alignRight?, Fits, hgutter, hmark]

/-- A report is printed to its end if and only if the formatter takes the widths of its fields. -/
theorem complete_report (diagnostic : Diagnostic) (file : String) :
    (diagnostic.report file).complete = true ↔ Fits diagnostic.location := by
  simp only [report, Report.complete_print, reportLines, List.all_cons, List.all_nil,
    Option.isSome_map, Option.isSome_some, isSome_markLine?, bar?, isSome_alignRight?,
    Bool.true_and, Bool.and_true, Bool.and_eq_true, decide_eq_true_eq]
  exact ⟨And.right, fun h => ⟨h.1, h⟩⟩

/-! ## The two lines -/

/-- What is not blank is shown. -/
theorem isHidden_eq_false (hc : Text.isBlank c = false) : isHidden c = false := by
  rw [Bool.eq_false_iff]
  intro hhidden
  simp only [isHidden, Bool.or_eq_true, decide_eq_true_eq] at hhidden
  rcases hhidden with rfl | rfl <;> exact absurd hc (by decide)

/-- A character that is not blank stays in the line that is shown, and all behind it up to the last
one. -/
theorem shownLine_append_cons (hc : Text.isBlank c = false) (before after : List Char) :
    shownLine (before ++ c :: after) =
      before.dropWhile isHidden ++ c :: Text.trimEnd after := by
  rw [shownLine, dropWhile_append_cons (isHidden_eq_false hc), Text.trimEnd,
    dropEnd_append_cons hc, Text.trimEnd]

/-- The number of a line consists of digits. -/
theorem isDigit_of_mem_lineNumber {digit : Char} (h : digit ∈ lineNumber location) :
    digit.isDigit = true := by
  rw [lineNumber, Nat.toString_eq_repr, Nat.toList_repr] at h
  exact Nat.isDigit_of_mem_toDigits (by decide) (by decide) h

/-- So nothing else stands in it. -/
theorem not_mem_lineNumber (h : c.isDigit = false) : c ∉ lineNumber location := fun hmem => by
  simp [isDigit_of_mem_lineNumber hmem] at h

/-- What stands in front of a character in the excerpt. -/
theorem sourceLine_eq (h : location.IsAt front c more) :
    ∃ margin, sourceLine location = margin ++ c :: Text.trimEnd more ∧
      margin.length = (lineNumber location).length + 3 + (front.dropWhile isHidden).length := by
  refine ⟨lineNumber location ++ " | ".toList ++ front.dropWhile isHidden, ?_, ?_⟩
  · rw [sourceLine, h.text, shownLine_append_cons h.blank, List.append_assoc _ (front.dropWhile _)]
  · simp only [List.length_append]
    rfl

/-- The line that is shown has no line feed in it. -/
theorem not_mem_sourceLine (h : '\n' ∉ location.text.toList) : '\n' ∉ sourceLine location := by
  have hshown : '\n' ∉ shownLine location.text.toList := by
    intro hmem
    rw [shownLine, Text.trimEnd, List.mem_reverse] at hmem
    exact h ((List.dropWhile_suffix _).mem
      (List.mem_reverse.mp ((List.dropWhile_suffix _).mem hmem)))
  simp [sourceLine, hshown, not_mem_lineNumber]

/-- A caret in the excerpt stands behind the line number and the bar. -/
theorem le_of_caret {column : Nat} (h : (sourceLine location)[column]? = some '^') :
    (lineNumber location).length + 3 ≤ column := by
  have hmargin : '^' ∉ lineNumber location ++ " | ".toList := by
    simp [not_mem_lineNumber]
  by_contra hlt
  rw [sourceLine, List.getElem?_append_left (by simp; omega)] at h
  exact hmargin (List.mem_of_getElem? h)

/-- The mark is as wide as what is shown of the line, up to the character. -/
theorem markWidth_eq (h : location.IsAt front c more) :
    markWidth location = (front.dropWhile isHidden).length + 1 := by
  have hvisible : hiddenWidth location.text.toList + (front.dropWhile isHidden).length =
      front.length := by
    rw [h.text, hiddenWidth, takeWhile_append_cons (isHidden_eq_false h.blank),
      ← List.length_append, List.takeWhile_append_dropWhile]
  rw [markWidth, h.column]
  omega

/-- What stands in front of the caret. -/
theorem markLine?_eq (h : location.IsAt front c more) (hfits : Fits location) :
    ∃ margin, markLine? location = some (margin ++ ['^']) ∧ '^' ∉ margin ∧ '\n' ∉ margin ∧
      margin.length = (lineNumber location).length + 3 + (front.dropWhile isHidden).length := by
  refine ⟨List.replicate ((lineNumber location).length + 1) ' ' ++ ['|', ' '] ++
    List.replicate (front.dropWhile isHidden).length '-', ?_, by simp, by simp, ?_⟩
  · have hmark : alignRight? '-' (markWidth location) ['^'] =
        some (List.replicate (front.dropWhile isHidden).length '-' ++ ['^']) := by
      rw [alignRight?_eq hfits.2, markWidth_eq h]
      rfl
    simp [markLine?, bar?_eq hfits.1, hmark]
  · simp only [List.length_append, List.length_replicate]
    rfl

/-- The caret of a mark stands behind its margin. -/
theorem caret_iff {margin : List Char} (h : '^' ∉ margin) (i : Nat) :
    (margin ++ ['^'])[i]? = some '^' ↔ i = margin.length := by
  rcases Nat.lt_trichotomy i margin.length with hlt | rfl | hgt
  · rw [List.getElem?_append_left hlt]
    exact ⟨fun hget => absurd (List.mem_of_getElem? hget) h, fun heq => by omega⟩
  · simp
  · rw [List.getElem?_eq_none (by simp; omega)]
    exact ⟨fun hget => absurd hget (by simp), fun heq => by omega⟩

/-! ## Reports -/

/-- A report in full: the excerpt and the mark come last. -/
theorem toList_text_report {diagnostic : Diagnostic} {mark : List Char}
    (hfits : Fits diagnostic.location) (hmark : markLine? diagnostic.location = some mark)
    (file : String) :
    ∃ above, (diagnostic.report file).text.toList =
      above ++ '\n' :: (sourceLine diagnostic.location ++ '\n' :: (mark ++ ['\n'])) := by
  refine ⟨(headline diagnostic.cause).toList ++ '\n' :: (("-> " ++ file).toList ++ '\n' ::
    (List.replicate ((lineNumber diagnostic.location).length + 1) ' ' ++ ['|'])), ?_⟩
  simp [report, reportLines, hmark, bar?_eq hfits.1, Report.print, Report.text, String.join]

/-- A report that breaks off in front of the mark: the bar and the excerpt come last. -/
theorem toList_text_report_of_not_fits {diagnostic : Diagnostic}
    (hgutter : gutterWidth diagnostic.location ≤ maxWidth) (hfits : ¬Fits diagnostic.location)
    (file : String) :
    ∃ above, (diagnostic.report file).text.toList = above ++ '\n' ::
      (List.replicate ((lineNumber diagnostic.location).length + 1) ' ' ++ ['|'] ++
        '\n' :: (sourceLine diagnostic.location ++ ['\n'])) := by
  have hmark : markLine? diagnostic.location = none := by
    rw [← Option.not_isSome_iff_eq_none, isSome_markLine?, decide_eq_true_eq]
    exact hfits
  refine ⟨(headline diagnostic.cause).toList ++ '\n' :: ("-> " ++ file).toList, ?_⟩
  simp [report, reportLines, hmark, bar?_eq hgutter, Report.print, Report.text, String.join]

/-- A report on the place of a character that is printed to its end points at the character. -/
theorem pointsAt_of_fits {diagnostic : Diagnostic} (h : diagnostic.location.IsAt front c more)
    (hfits : Fits diagnostic.location) (file : String) :
    PointsAt (diagnostic.report file).text.toList c := by
  obtain ⟨dashes, hmark, hcaret, hdashes, hsame⟩ := markLine?_eq h hfits
  obtain ⟨above, hprinted⟩ := toList_text_report hfits hmark file
  obtain ⟨margin, hexcerpt, hlength⟩ := sourceLine_eq h
  refine ⟨above, _, _, dashes.length, hprinted, not_mem_sourceLine h.oneLine, ?_,
    caret_iff hcaret, ?_⟩
  · simp [hdashes]
  · rw [hexcerpt, hsame, ← hlength]
    simp

/-- A report that breaks off in front of the mark points at nothing: a caret in its last line stands
behind the end of the bar above. -/
theorem not_pointsAt_of_not_fits {diagnostic : Diagnostic}
    (h : diagnostic.location.IsAt front c more)
    (hgutter : gutterWidth diagnostic.location ≤ maxWidth) (hfits : ¬Fits diagnostic.location)
    (file : String) (c' : Char) : ¬PointsAt (diagnostic.report file).text.toList c' := by
  rintro ⟨above, excerpt, mark, column, hpoints, hexcerpt, hmark, hcaret, hat⟩
  obtain ⟨above', hprinted⟩ := toList_text_report_of_not_fits hgutter hfits file
  obtain ⟨rfl, rfl⟩ := eq_of_append_lines (hpoints.symm.trans hprinted) hexcerpt (by simp) hmark
    (not_mem_sourceLine h.oneLine)
  have hbehind := le_of_caret ((hcaret column).mpr rfl)
  rw [List.getElem?_eq_none (by simp; omega)] at hat
  exact nomatch hat

/-- A sign behind a long word is too far to the right for a mark. -/
theorem not_fits_farRight {count : Nat} (hcount : maxWidth ≤ count) :
    gutterWidth (Source.locationBetween (List.replicate count 'x') ['$']) ≤ maxWidth ∧
      ¬Fits (Source.locationBetween (List.replicate count 'x') ['$']) := by
  obtain ⟨more, hat⟩ := Source.isAt_locationBetween (by decide : Text.isBlank '$' = false)
    (List.replicate count 'x') []
  have hline : (Source.locationBetween (List.replicate count 'x') ['$']).line = 1 := by
    simp [Source.locationBetween, List.count_replicate]
  have hfront : Source.lastLine (List.replicate count 'x') = List.replicate count 'x' :=
    Source.lastLine_eq_self (by simp)
  have hshown : (List.replicate count 'x').dropWhile isHidden = List.replicate count 'x' :=
    by simp [isHidden]
  have hwidth := markWidth_eq hat
  rw [hfront, hshown, List.length_replicate] at hwidth
  refine ⟨?_, fun hfits => ?_⟩
  · rw [gutterWidth, lineNumber, hline]
    decide
  · have hle := hwidth ▸ hfits.2
    omega

/-- A character that is not blank has a location, and what is printed on a diagnostic at this
location is determined by the width of the mark, where the line number has few enough digits to be
formatted: if the formatter takes the width, the report is printed to its end and points at the
character, and otherwise it breaks off and points at nothing. -/
theorem report_pointsAt {source before after : Source} {position : Nat} {c : Char}
    (hstarts : source.splitAt? position = some (before, c :: after))
    (hc : Text.isBlank c = false) :
    ∃ location, source.location? position = some location ∧
      ∀ diagnostic : Diagnostic, diagnostic.location = location → ∀ file,
        ((diagnostic.report file).complete = true ↔ Fits location) ∧
        (Fits location → PointsAt (diagnostic.report file).text.toList c) ∧
        (gutterWidth location ≤ maxWidth → ¬Fits location →
          ¬PointsAt (diagnostic.report file).text.toList c) := by
  obtain ⟨rfl, rfl⟩ := Source.eq_append_of_splitAt? hstarts
  obtain ⟨more, hat⟩ := Source.isAt_locationBetween hc before after
  refine ⟨_, Source.location?_append before (c :: after), ?_⟩
  rintro diagnostic hlocation file
  rw [← hlocation] at hat ⊢
  exact ⟨complete_report diagnostic file, fun hfits => pointsAt_of_fits hat hfits file,
    fun hgutter hfits => not_pointsAt_of_not_fits hat hgutter hfits file c⟩

/-- In line ten, behind a tab and a letter of two bytes, the caret stands below the name. -/
theorem report_pointsAt_lineTen :
    Source.splitAt? "\n\n\n\n\n\n\n\n\n\té = y \r\n".toList 15 =
        some ("\n\n\n\n\n\n\n\n\n\té = ".toList, 'y' :: " \r\n".toList) ∧
      Text.isBlank 'y' = false ∧ Fits ⟨10, 6, "\té = y "⟩ ∧
      PointsAt (report ⟨.unboundId "y", ⟨10, 6, "\té = y "⟩⟩ "input.py").text.toList 'y' := by
  have hstarts : Source.splitAt? "\n\n\n\n\n\n\n\n\n\té = y \r\n".toList 15 =
      some ("\n\n\n\n\n\n\n\n\n\té = ".toList, 'y' :: " \r\n".toList) := by decide
  have hplace : Source.location? "\n\n\n\n\n\n\n\n\n\té = y \r\n".toList 15 =
      some ⟨10, 6, "\té = y "⟩ := by decide
  obtain ⟨location, hlocation, hreport⟩ := report_pointsAt hstarts (by decide)
  obtain rfl := Option.some.inj (hplace.symm.trans hlocation)
  have hfits : Fits ⟨10, 6, "\té = y "⟩ := by decide
  exact ⟨hstarts, by decide, hfits, (hreport _ rfl _).2.1 hfits⟩

/-- A character behind more characters than the formatter takes as a width: a report on its place
breaks off and points at nothing. -/
theorem report_pointsAt_farRight :
    let before := List.replicate 65536 'x'
    Source.splitAt? (before ++ ['$']) (Source.byteSize before) = some (before, ['$']) ∧
      Text.isBlank '$' = false ∧
      ∃ location, Source.location? (before ++ ['$']) (Source.byteSize before) = some location ∧
        ∀ diagnostic : Diagnostic, diagnostic.location = location → ∀ file,
          (diagnostic.report file).complete = false ∧
            ¬PointsAt (diagnostic.report file).text.toList '$' := by
  intro before
  obtain ⟨more, hat⟩ := Source.isAt_locationBetween (by decide : Text.isBlank '$' = false) before []
  obtain ⟨hgutter, hfits⟩ := not_fits_farRight (by decide : maxWidth ≤ 65536)
  refine ⟨Source.splitAt?_append before _, by decide, _, Source.location?_append before _, ?_⟩
  rintro diagnostic hlocation file
  rw [← hlocation] at hat
  rw [← hlocation] at hgutter hfits
  exact ⟨Bool.eq_false_iff.mpr fun hcomplete => hfits ((complete_report diagnostic file).mp hcomplete),
    not_pointsAt_of_not_fits hat hgutter hfits file '$'⟩

end Diagnostic
end Offside
