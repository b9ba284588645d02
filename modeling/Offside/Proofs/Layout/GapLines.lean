import Offside.Proofs.Layout.SameLines
import Offside.Proofs.Writing.ScanningLines

/-!
# Lines that leave no trace

A line that is blank or holds only a comment may be put in front of any line of a source, or behind
the last one: before the first word, inside a block or between two, inside brackets.  The scanner
passes it over and is in the same state behind it.

Main definitions:

- `Scanner.PassesOver`: a scanner gets behind a text without a change of its state.

Main results:

- Theorem `Scanner.scan_gapLine`: in front of a line, the scanner passes over a gap.
- Theorem `tokenize_gapLine`: a source with one more gap has the same tokens but for their places,
  or is refused for the same cause.
-/

namespace Offside

variable {source text rest : Source}

namespace Scanner

variable {s t : Scanner}

/-- A run leads behind a text to a scanner that has changed nothing but its place. -/
structure PassesOver (source : Source) (s : Scanner) (rest : Source) (t : Scanner) : Prop where
  scan_eq : scan source s = scan source t
  tokens_eq : t.tokens = s.tokens
  blocks_eq : t.blocks = s.blocks
  depth_eq : t.depth = s.depth
  start_eq : t.atLineStart = s.atLineStart
  aligned : t.Aligned source
  rest_eq : t.rest = rest

/-- At the start of a line outside brackets, a gap is passed over, and a line starts behind it. -/
theorem scan_gapOutside {line : Source} (hline : s.AtLine source) (hgap : IsGap line)
    (hrest : s.rest = line ++ '\n' :: rest) : ∃ t, PassesOver source s rest t := by
  have hne : s.rest ≠ [] := by simp [hrest]
  have hscan := scan_gap hline hgap hne hrest (by simp)
  have hbehind : (s.inside.behind line ('\n' :: rest)).Aligned source :=
    aligned_behind (s := s.inside) hline.aligned hrest
  have hfirst : Pattern.first? (s.inside.behind line ('\n' :: rest)).rest =
      some (.lineBreak, ['\n'], rest) := first?_lineFeed
  have hclosed : (s.inside.behind line ('\n' :: rest)).isClosed = true := hline.closed
  have hdepth : (s.inside.behind line ('\n' :: rest)).depth = 0 := hline.depth
  obtain ⟨-, hdepth', hblocks, hstart⟩ := read_lineBreak ['\n'] rest hdepth
  refine ⟨_, hscan.trans (scan_read rfl hfirst), ?_, hblocks, hdepth'.trans hline.depth.symm,
    hstart.trans hline.start.symm, aligned_read hbehind hfirst, rfl⟩
  rw [Scanner.read, emit, endLine_eq hdepth, if_pos hclosed]
  rfl

/-- Inside brackets, a gap and the end of its line are passed over. -/
theorem scan_gapInside {line : Source} (hdepth : 0 < s.depth) (hstart : s.atLineStart = false)
    (haligned : s.Aligned source) (hgap : IsGap line) (hrest : s.rest = line ++ '\n' :: rest) :
    ∃ t, PassesOver source s rest t := by
  have hscan : scan source s = scan source (s.behind line ('\n' :: rest)) :=
    scan_insideGap hstart hgap hrest (by simp)
  have hfirst : Pattern.first? (s.behind line ('\n' :: rest)).rest =
      some (.lineBreak, ['\n'], rest) := first?_lineFeed
  have hopen : ¬(s.behind line ('\n' :: rest)).depth = 0 := Nat.ne_of_gt hdepth
  have hread : (s.behind line ('\n' :: rest)).emit .lineBreak ['\n'] =
      s.behind line ('\n' :: rest) := by
    rw [emit, endLine, if_neg hopen]
  refine ⟨_, hscan.trans (scan_read hstart hfirst), ?_, read_blocks _ _ _ _, ?_, ?_,
    aligned_read (aligned_behind haligned hrest) hfirst, rfl⟩ <;>
  · rw [Scanner.read, hread]
    rfl

/-- In front of a line, a gap is passed over. -/
theorem scan_gapLine {line : Source} (hbetween : s.BetweenLines) (haligned : s.Aligned source)
    (hgap : IsGap line) (hrest : s.rest = line ++ '\n' :: rest) :
    ∃ t, PassesOver source s rest t := by
  rcases hbetween with ⟨hdepth, hstart, hclosed⟩ | ⟨hdepth, hstart⟩
  · exact scan_gapOutside ⟨hstart, hdepth, hclosed, haligned⟩ hgap hrest
  · exact scan_gapInside hdepth hstart haligned hgap hrest

/-- Before their sources, two scanners are in the same state. -/
theorem resembles_start (source source' : Source) :
    Resembles source source' source source' (start source) (start source') :=
  ⟨⟨rfl, rfl, rfl⟩, rfl, ⟨[], rfl, rfl⟩, ⟨[], rfl, rfl⟩, rfl, rfl⟩

/-- At the end of their sources, two scanners in the same state close the same blocks. -/
theorem Echoes.finish {s' : Scanner} (h : s.Echoes s') (hblocks : s.blocks = s'.blocks)
    (stop stop' : Nat) :
    (s.finish stop).map Token.content = (s'.finish stop').map Token.content := by
  rw [finish_eq, finish_eq, ← h.isClosed_eq, ← hblocks]
  simp only [List.map_append, List.map_reverse, h.contents, List.map_map]
  split <;> rfl

end Scanner

/-- Runs that go in step to the ends of their sources have the same tokens but for their places. -/
theorem tokenize_sameContents {source source' : Source}
    (h : Scanner.InStep source source' (.start source) (.start source')
      fun t t' => Scanner.Resembles source source' [] [] t t') :
    Outcome.Alike SameCause
      (fun tokens tokens' => tokens.map Token.content = tokens'.map Token.content)
      (tokenize source) (tokenize source') := by
  rw [tokenize_eq_scan, tokenize_eq_scan]
  cases h with
  | refused h h' =>
    rw [h, h']
    exact .error ⟨_, _, _, rfl, rfl⟩
  | reaches h h' ends =>
    rw [h, h', Scanner.scan_nil ends.rest_eq, Scanner.scan_nil ends.rest_eq']
    exact .ok (ends.echoes.finish ends.blocks_eq _ _)

/-- A line that is blank or holds only a comment makes no difference to the tokens of a source but
to their places, and none to the cause for which it is refused. -/
theorem tokenize_gapLine {before line after : Source} (hbefore : WholeLines before)
    (hline : IsGap line) :
    Outcome.Alike SameCause
      (fun tokens tokens' => tokens.map Token.content = tokens'.map Token.content)
      (tokenize (before ++ after)) (tokenize (before ++ (line ++ '\n' :: after))) := by
  refine tokenize_sameContents ?_
  have hstart := Scanner.resembles_start (before ++ after) (before ++ (line ++ '\n' :: after))
  have hfirst : (Scanner.start (before ++ after)).BetweenLines := .inl ⟨rfl, rfl, rfl⟩
  refine (hstart.inStep_lines (.inr hbefore) (.inr hbefore) fun _ _ => hfirst).trans ?_
  rintro t t' ⟨hresembles, hbetween⟩
  have hbetween' : t'.BetweenLines := by
    have hechoes := hresembles.echoes
    have hsame := hbetween (.inr (by simp))
    rwa [Scanner.BetweenLines, hechoes.depth_eq, hechoes.start_eq, hechoes.isClosed_eq] at hsame
  obtain ⟨u, hpasses⟩ := Scanner.scan_gapLine hbetween' hresembles.aligned' hline
    hresembles.rest_eq'
  have hafter : Scanner.Resembles (before ++ after) (before ++ (line ++ '\n' :: after))
      (after ++ []) (after ++ []) t u := by
    refine ⟨⟨?_, ?_, ?_⟩, ?_, hresembles.aligned, hpasses.aligned, ?_, ?_⟩
    · rw [hpasses.tokens_eq, hresembles.echoes.contents]
    · rw [hpasses.depth_eq, hresembles.echoes.depth_eq]
    · rw [hpasses.start_eq, hresembles.echoes.start_eq]
    · rw [hpasses.blocks_eq, hresembles.blocks_eq]
    · rw [hresembles.rest_eq, List.append_nil]
    · rw [hpasses.rest_eq, List.append_nil]
  have hrest := hafter.inStep_lines (.inl rfl) (.inl rfl) (by simp)
  exact (hrest.prepend rfl hpasses.scan_eq).trans fun _ _ hends => .reaches rfl rfl hends.1

/-- A comment inside brackets, further left than the block around them. -/
theorem tokenize_gapLine_insideBrackets :
    WholeLines "if a:\n    f(\n".toList ∧ IsGap " # first".toList ∧
      Outcome.Alike SameCause
        (fun tokens tokens' => tokens.map Token.content = tokens'.map Token.content)
        (tokenize ("if a:\n    f(\n".toList ++ "1)\n    pass".toList))
        (tokenize ("if a:\n    f(\n".toList ++
          (" # first".toList ++ '\n' :: "1)\n    pass".toList))) := by
  have hbefore : WholeLines "if a:\n    f(\n".toList := by
    refine .inr ⟨"if a:\n    f(".toList, ?_⟩
    decide
  have hline : IsGap " # first".toList :=
    ⟨[' '], "# first".toList, rfl, by simp [Scanner.isIndentation], .inr ⟨" first".toList, rfl, by decide⟩⟩
  exact ⟨hbefore, hline, tokenize_gapLine hbefore hline⟩

end Offside
