import Offside.Proofs.Layout.Positions
import Offside.Proofs.Writing.Balance
import Offside.Proofs.Writing.Pieces

/-!
# Scanning written lines

The scanner reads lines of words as one token for each word and the end of the line, with the
layout that the widths of the lines ask for.  Gaps between the lines leave no trace.

Main definitions:

- `CodeLine.Sound`: a line of words that can be read as one token each.
- `Scanner.Adds`: from a scanner, the run adds the tokens of some pieces.

Main results:

- Theorem `tokenize_lines`: the tokens of lines are those of their pieces.
-/

namespace Offside

/-- The words of a line are there, can be read, and leave no bracket open. -/
structure CodeLine.Sound (line : CodeLine) : Prop where
  nonempty : line.words ≠ []
  readable : AllReadable line.words
  balanced : Balanced line.words

namespace Scanner

variable {source text rest : Source} {s t : Scanner} {words : List String}

/-! ## Gaps -/

/-- A comment is passed over up to the end of the line. -/
theorem scan_comment (hstart : s.atLineStart = false) (htext : '\n' ∉ text)
    (hends : ∀ c ∈ rest.head?, decide (c ≠ '\n') = false) (hrest : s.rest = '#' :: text ++ rest) :
    scan source s = scan source (s.behind ('#' :: text) rest) := by
  have hpasses : ∀ c ∈ text, decide (c ≠ '\n') = true := by
    intro c hc
    have hne : c ≠ '\n' := fun heq => htext (heq ▸ hc)
    exact decide_eq_true hne
  have hnone := splits_nothing hends
  have hreads : Pattern.first? ('#' :: (text ++ rest)) = some (.skipped,
      '#' :: (text ++ rest).takeWhile (· ≠ '\n'), (text ++ rest).dropWhile (· ≠ '\n')) :=
    first?_comment
  rw [List.takeWhile_append_of_pos hpasses, List.dropWhile_append_of_pos hpasses, hnone.1,
    hnone.2, List.append_nil] at hreads
  exact scan_skipped hstart (hrest ▸ hreads)

/-- Behind the indentation of a gap, a comment or the end of the line comes. -/
theorem head_of_gap {comment : Source} (hcomment : comment = [] ∨ ∃ text, comment = '#' :: text ∧
    '\n' ∉ text) (hends : ∀ c ∈ rest.head?, c = '\n') :
    ∀ c ∈ (comment ++ rest).head?, c = '#' ∨ c = '\n' := by
  rcases hcomment with rfl | ⟨text, rfl, -⟩
  · exact fun c hc => .inr (hends c hc)
  · rintro c ⟨rfl⟩
    exact .inl rfl

/-- Inside a line, the text of a gap is passed over. -/
theorem scan_insideGap {line : Source} (hstart : s.atLineStart = false) (hgap : IsGap line)
    (hrest : s.rest = line ++ rest) (hends : ∀ c ∈ rest.head?, c = '\n') :
    scan source s = scan source (s.behind line rest) := by
  obtain ⟨indentation, comment, rfl, hindents, hcomment⟩ := hgap
  rw [List.append_assoc] at hrest
  have hspace : ∀ c ∈ (comment ++ rest).head?, Shape.isSpace c = false := by
    intro c hc
    rcases head_of_gap hcomment hends c hc with rfl | rfl <;> rfl
  rw [scan_indentation hstart hindents hspace hrest]
  rcases hcomment with rfl | ⟨text, rfl, htext⟩
  · rw [List.nil_append, List.append_nil]
  · rw [scan_comment (s := s.behind indentation ('#' :: text ++ rest)) hstart htext
      (fun c hc => by simp [hends c hc]) rfl, behind_behind]

/-- The text of a gap is passed over. -/
theorem scan_gap {line : Source} (hline : s.AtLine source) (hgap : IsGap line) (hne : s.rest ≠ [])
    (hrest : s.rest = line ++ rest) (hends : ∀ c ∈ rest.head?, c = '\n') :
    scan source s = scan source (s.inside.behind line rest) := by
  -- What stands behind the indentation makes the line a blank one.
  have hblank : isBlankLine (s.rest.dropWhile isIndentation) = true := by
    obtain ⟨indentation, comment, rfl, hindents, hcomment⟩ := hgap
    have hbehind := head_of_gap hcomment hends
    rw [hrest, List.append_assoc, List.dropWhile_append_of_pos hindents]
    generalize comment ++ rest = behind at hbehind
    cases behind with
    | nil => rfl
    | cons c more => rcases hbehind c rfl with rfl | rfl <;> rfl
  have hinside : scan source s = scan source s.inside := by
    rw [scan_startLine hline.start hne, startLine_blank hline.depth hblank]
    rfl
  rw [hinside, scan_insideGap (s := s.inside) rfl hgap hrest hends]

/-! ## Words -/

/-- The text of some words starts like the first word. -/
theorem lineText_starts {word : String} {kind : TokenKind} (h : Readable word kind)
    (more : List String) : ∃ first behind, lineText (word :: more) = first :: behind ∧
      first ∉ [' ', '\t', '\r', '\n', '#'] := by
  obtain ⟨first, chars, hword, hfirst⟩ := h.starts
  cases more with
  | nil => exact ⟨first, chars, hword, hfirst⟩
  | cons next more => exact ⟨first, _, by rw [lineText, hword]; rfl, hfirst⟩

/-- The scanner behind some words, with their tokens. -/
def behindWords (s : Scanner) (words : List String) (tokens : List Token) (rest : Source) :
    Scanner where
  tokens := tokens.reverse ++ s.tokens
  position := s.position + Source.byteSize (lineText words)
  rest := rest
  blocks := s.blocks
  depth := depthOver s.depth tokens
  atLineStart := s.atLineStart

/-- Words on one line give one token each. -/
theorem scan_words (hreadable : AllReadable words) (hne : words ≠ []) (haligned : s.Aligned source)
    (hstart : s.atLineStart = false) (hends : Ends rest) (hrest : s.rest = lineText words ++ rest) :
    ∃ tokens, List.Forall₂ (TokenOf source) words tokens ∧
      scan source s = scan source (s.behindWords words tokens rest) := by
  obtain ⟨word, more, rfl⟩ := List.exists_cons_of_ne_nil hne
  induction more generalizing s word with
  | nil =>
    obtain ⟨kind, hword⟩ := hreadable word List.mem_cons_self
    obtain ⟨token, htoken, hscan⟩ :=
      scan_word hword haligned hstart (hword.readsBefore hends) hrest
    exact ⟨[token], .cons htoken .nil, hscan⟩
  | cons next more ih =>
    obtain ⟨kind, hword⟩ := hreadable word List.mem_cons_self
    obtain ⟨kind', hnext⟩ := hreadable next (List.mem_cons_of_mem _ List.mem_cons_self)
    obtain ⟨first, chars, htext, hfirst⟩ := lineText_starts hnext more
    have hsplit : s.rest = word.toList ++
        ((if next = ":" then [] else [' ']) ++ (lineText (next :: more) ++ rest)) := by
      rw [hrest, lineText, List.append_assoc, List.append_assoc]
    -- Between two words there is a blank, or nothing if the second is a colon.
    generalize hblank : (if next = ":" then [] else [' '] : Source) = blank at hsplit
    have hblanks : ∀ c ∈ blank, isIndentation c = true := by
      rw [← hblank]
      split
      · exact nofun
      · exact fun c hc => List.mem_singleton.mp hc ▸ rfl
    have hends' : Ends (blank ++ (lineText (next :: more) ++ rest)) := by
      rw [← hblank]
      split
      · next hcolon =>
        subst hcolon
        cases more with
        | nil => exact ends_cons (by decide) _
        | cons other more => exact ends_cons (by decide) _
      · exact ends_cons (by decide) _
    have hspace : ∀ c ∈ (lineText (next :: more) ++ rest).head?, Shape.isSpace c = false := by
      rw [htext]
      rintro c ⟨rfl⟩
      simp only [List.mem_cons, List.not_mem_nil, or_false, not_or] at hfirst
      simp [Shape.isSpace, hfirst]
    obtain ⟨token, htoken, hscan⟩ :=
      scan_word hword haligned hstart (hword.readsBefore hends') hsplit
    have hskip : scan source ((s.push token).behind word.toList
          (blank ++ (lineText (next :: more) ++ rest))) =
        scan source ((s.push token).behind (word.toList ++ blank)
          (lineText (next :: more) ++ rest)) := by
      rw [← behind_behind]
      exact scan_indentation hstart hblanks hspace rfl
    have haligned' : ((s.push token).behind (word.toList ++ blank)
        (lineText (next :: more) ++ rest)).Aligned source :=
      aligned_behind haligned (hsplit.trans (List.append_assoc _ _ _).symm)
    obtain ⟨tokens, htokens, hscan'⟩ := ih haligned' hstart next
      (fun other hother => hreadable other (List.mem_cons_of_mem _ hother))
      (List.cons_ne_nil _ _) rfl
    refine ⟨token :: tokens, .cons htoken htokens, ?_⟩
    rw [hscan, hskip, hscan', behindWords, behindWords, lineText, hblank]
    simp [behind, push, depthOver, Source.byteSize_append, Nat.add_assoc]

/-! ## Lines -/

/-- A scanner is at the end of a line with words on it, behind new tokens. -/
structure AtEnd (source : Source) (s : Scanner) (added : List Token) (stack : List Nat)
    (rest : Source) (t : Scanner) : Prop where
  scan_eq : scan source s = scan source t
  tokens_eq : t.tokens = added.reverse ++ s.tokens
  blocks_eq : t.blocks ++ [0] = stack
  rest_eq : t.rest = rest
  start : t.atLineStart = false
  depth : t.depth = 0
  isOpen : t.isClosed = false
  aligned : t.Aligned source

/-- Tokens of known kinds are read from the layout of lines. -/
theorem gives_layout {kinds : List TokenKind} {tokens : List Token}
    (h : tokens.map Token.kind = kinds) :
    List.Forall₂ (Piece.Gives source) (kinds.map Piece.layout) tokens := by
  subst h
  rw [List.forall₂_map_left_iff, List.forall₂_map_left_iff]
  exact List.forall₂_same.mpr fun _ _ => rfl

theorem gives_words {tokens : List Token} (h : List.Forall₂ (TokenOf source) words tokens) :
    List.Forall₂ (Piece.Gives source) (wordPieces words) tokens :=
  List.forall₂_map_left_iff.mpr h

/-- Up to the end of a line, its layout and its words are added. -/
theorem scan_codeLine (rest : Source) {indentation : Source} {marks : List TokenKind}
    {stack : List Nat} (hline : s.AtLine source)
    (hsound : CodeLine.Sound ⟨indentation.length, words⟩)
    (hindents : ∀ c ∈ indentation, isIndentation c = true) (hends : ∀ c ∈ rest.head?, c = '\n')
    (hrest : s.rest = indentation ++ (lineText words ++ rest))
    (hstack : indent? (s.blocks ++ [0]) indentation.length = some (marks, stack)) :
    ∃ t added, AtEnd source s added stack rest t ∧
      List.Forall₂ (Piece.Gives source) (marks.map Piece.layout ++ wordPieces words) added := by
  obtain ⟨hne, hreadable, hbalanced⟩ := hsound
  dsimp only at hne hreadable hbalanced
  have hstarts : ∃ first chars, lineText words = first :: chars ∧
      first ∉ [' ', '\t', '\r', '\n', '#'] := by
    obtain ⟨word, more, rfl⟩ := List.exists_cons_of_ne_nil hne
    obtain ⟨kind, hword⟩ := hreadable word List.mem_cons_self
    exact lineText_starts hword more
  obtain ⟨first, chars, htext, hfirst⟩ := hstarts
  simp only [List.mem_cons, List.not_mem_nil, or_false, not_or] at hfirst
  have hcut : s.rest.takeWhile isIndentation = indentation ∧
      s.rest.dropWhile isIndentation = lineText words ++ rest := by
    have hnone : ∀ c ∈ (lineText words ++ rest).head?, isIndentation c = false := by
      rw [htext]
      rintro c ⟨rfl⟩
      simp [isIndentation, hfirst]
    rw [hrest, List.takeWhile_append_of_pos hindents, List.dropWhile_append_of_pos hindents,
      (splits_nothing hnone).1, (splits_nothing hnone).2, List.append_nil]
    exact ⟨rfl, rfl⟩
  have hblank : isBlankLine (s.rest.dropWhile isIndentation) = false := by
    rw [hcut.2, htext]
    simp [isBlankLine, hfirst]
  have hlayout := startLine_indent hline.aligned hline.depth hblank
    (congrArg List.length hcut.1.symm)
  rw [hstack] at hlayout
  obtain ⟨t, hstartLine, htrest, htstart, htdepth, haligned, htblocks, hkinds⟩ := hlayout
  obtain ⟨added, hadded, -⟩ := tokens_of_startLine hline.aligned hstartLine
  have hmarks : added.reverse.map Token.kind = marks := by
    rw [kinds, hadded, List.map_append] at hkinds
    rw [List.map_reverse, List.append_cancel_right hkinds, List.reverse_reverse]
  have hne' : s.rest ≠ [] := by simp [hrest, htext]
  have hscan : scan source s = scan source t := by
    rw [scan_startLine hline.start hne', hstartLine]
    rfl
  have hspace : ∀ c ∈ (lineText words ++ rest).head?, Shape.isSpace c = false := by
    rw [htext]
    rintro c ⟨rfl⟩
    simp [Shape.isSpace, hfirst]
  have hskip : scan source t = scan source (t.behind indentation (lineText words ++ rest)) :=
    scan_indentation htstart hindents hspace (htrest.trans hrest)
  have haligned' := aligned_behind haligned (htrest.trans hrest)
  obtain ⟨tokens, htokens, hwords⟩ := scan_words hreadable hne haligned' htstart
    (fun c hc => by simp [hends c hc]) rfl
  refine ⟨_, added.reverse ++ tokens,
    ⟨hscan.trans (hskip.trans hwords), ?_, htblocks, rfl, htstart, ?_, ?_, ?_⟩,
    List.rel_append (gives_layout hmarks) (gives_words htokens)⟩
  · rw [List.reverse_append, List.reverse_reverse, List.append_assoc, ← hadded]
    rfl
  · exact (hbalanced _ _ htokens _).trans htdepth
  · exact isClosed_of_words htokens hne rfl
  · exact aligned_behind haligned' rfl

/-- From a scanner, the run adds the tokens of some pieces, and then the end of the file. -/
def Adds (source : Source) (s : Scanner) (pieces : List Piece) : Prop :=
  ∃ t tokens, scan source s = .ok t ∧
    t.finish (Source.byteSize source) =
      s.tokens.reverse ++ (tokens ++ [.eof (Source.byteSize source)]) ∧
    List.Forall₂ (Piece.Gives source) pieces tokens

/-- Tokens that are added on the way come first. -/
theorem Adds.prepend {pieces more : List Piece} {added : List Token} (h : Adds source t more)
    (hscan : scan source s = scan source t) (htokens : t.tokens = added.reverse ++ s.tokens)
    (hgives : List.Forall₂ (Piece.Gives source) pieces added) :
    Adds source s (pieces ++ more) := by
  obtain ⟨last, tokens, hlast, hfinish, hmore⟩ := h
  refine ⟨last, added ++ tokens, hscan.trans hlast, ?_, List.rel_append hgives hmore⟩
  rw [hfinish, htokens, List.reverse_append, List.reverse_reverse, List.append_assoc,
    List.append_assoc]

/-- The ends of the blocks that are open. -/
theorem gives_dedents (blocks : List Nat) (stop : Nat) :
    List.Forall₂ (Piece.Gives source)
      (List.replicate ((blocks ++ [0]).length - 1) (.layout .dedent))
      (blocks.map fun _ => Token.dedent stop) := by
  have hkinds : (blocks.map fun _ => Token.dedent stop).map Token.kind =
      List.replicate ((blocks ++ [0]).length - 1) .dedent := by
    rw [List.map_map, List.length_append, List.length_singleton, Nat.add_sub_cancel]
    exact List.map_const'
  rw [← List.map_replicate]
  exact gives_layout hkinds

/-- At the end of the source, the blocks that are left end. -/
theorem adds_end (hclosed : s.isClosed = true) (hrest : s.rest = []) :
    Adds source s (List.replicate ((s.blocks ++ [0]).length - 1) (.layout .dedent)) := by
  refine ⟨s, _, scan_nil hrest, ?_, gives_dedents s.blocks (Source.byteSize source)⟩
  rw [finish_eq, if_pos hclosed, List.append_nil, List.append_assoc]

/-- At the end of the source, a line with words on it ends first. -/
theorem adds_lastEnd (hopen : s.isClosed = false) (hrest : s.rest = []) :
    Adds source s (.layout .newline ::
      List.replicate ((s.blocks ++ [0]).length - 1) (.layout .dedent)) := by
  refine ⟨s, _, scan_nil hrest, ?_,
    .cons (rfl : Piece.Gives source (.layout .newline) (.newline (.empty (Source.byteSize source))))
      (gives_dedents s.blocks (Source.byteSize source))⟩
  rw [finish_eq, hopen]
  simp

/-- Behind a line feed, a new line starts. -/
theorem scan_lineFeed (hstart : s.atLineStart = false) (hdepth : s.depth = 0)
    (haligned : s.Aligned source) (hrest : s.rest = '\n' :: rest) :
    ∃ (t : Scanner) (added : List Token), scan source s = scan source t ∧ t.AtLine source ∧
      t.rest = rest ∧
      t.blocks = s.blocks ∧ t.tokens = added.reverse ++ s.tokens ∧
      added.map Token.kind = if s.isClosed then [] else [.newline] := by
  have hread : Pattern.first? s.rest = some (.lineBreak, ['\n'], rest) := hrest ▸ first?_lineFeed
  obtain ⟨hkinds, hdepth', hblocks, hline⟩ := read_lineBreak ['\n'] rest hdepth
  have hatLine : (s.read .lineBreak ['\n'] rest).AtLine source :=
    ⟨hline, hdepth', isClosed_of_closedKinds hkinds, aligned_read haligned hread⟩
  have htokens : (s.read .lineBreak ['\n'] rest).tokens = (if s.isClosed then []
      else [.newline ⟨s.position, s.position + Source.byteSize ['\n']⟩]) ++ s.tokens := by
    rw [read, emit, endLine_eq hdepth]
    split <;> rfl
  cases hclosed : s.isClosed with
  | true =>
    rw [hclosed] at htokens
    exact ⟨_, [], scan_read hstart hread, hatLine, rfl, hblocks, htokens, rfl⟩
  | false =>
    rw [hclosed] at htokens
    exact ⟨_, [_], scan_read hstart hread, hatLine, rfl, hblocks, htokens, rfl⟩

/-- From the start of a line, the run adds the tokens of the lines that follow. -/
theorem adds_lines {lines : List CodeLine} {pieces : List Piece} (hlaid : LaidOut lines rest)
    (hline : s.AtLine source) (hrest : s.rest = rest) (hsound : ∀ line ∈ lines, line.Sound)
    (hpieces : pieces? (s.blocks ++ [0]) lines = some pieces) : Adds source s pieces := by
  induction hlaid generalizing s pieces with
  | nil =>
    cases hpieces
    exact adds_end hline.closed hrest
  | @gap line rest lines isGap more ih =>
    have hgap : scan source s = scan source (s.inside.behind line ('\n' :: rest)) := by
      refine scan_gap hline isGap (by simp [hrest]) hrest ?_
      rintro c ⟨rfl⟩
      rfl
    obtain ⟨t, added, hscan, htline, htrest, hblocks, htokens, hkinds⟩ :=
      scan_lineFeed (s := s.inside.behind line ('\n' :: rest)) rfl hline.depth
        (aligned_behind hline.aligned hrest) rfl
    have hclosed : (s.inside.behind line ('\n' :: rest)).isClosed = true := hline.closed
    rw [hclosed] at hkinds
    have hblocks' : t.blocks = s.blocks := hblocks
    exact (ih htline htrest hsound (hblocks' ▸ hpieces)).prepend (hgap.trans hscan) htokens
      (gives_layout hkinds)
  | @line indentation rest words lines indents more ih =>
    obtain ⟨hfirst, hmore⟩ := List.forall_mem_cons.mp hsound
    simp only [pieces?, Option.bind_eq_bind, Option.bind_eq_some_iff, Prod.exists] at hpieces
    obtain ⟨marks, stack, hstack, behind, hbehind, ⟨rfl⟩⟩ := hpieces
    obtain ⟨t, added, hend, hgives⟩ := scan_codeLine ('\n' :: rest) hline hfirst indents
      (by rintro c ⟨rfl⟩; rfl) hrest hstack
    obtain ⟨u, ends, hscan, huline, hurest, hblocks, htokens, hkinds⟩ :=
      scan_lineFeed hend.start hend.depth hend.aligned hend.rest_eq
    rw [hend.isOpen] at hkinds
    rw [← hend.blocks_eq, ← hblocks] at hbehind
    have hadds := (ih huline hurest hmore hbehind).prepend hscan htokens
      (gives_layout hkinds)
    have hall := hadds.prepend hend.scan_eq hend.tokens_eq hgives
    rwa [List.append_assoc] at hall
  | @lastGap line isGap =>
    cases hpieces
    by_cases hnil : line = []
    · exact adds_end hline.closed (hrest.trans hnil)
    · have hgap : scan source s = scan source (s.inside.behind line []) :=
        scan_gap hline isGap (hrest ▸ hnil) (hrest.trans (List.append_nil line).symm) (by simp)
      have hend : Adds source (s.inside.behind line [])
          (List.replicate ((s.blocks ++ [0]).length - 1) (.layout .dedent)) :=
        adds_end hline.closed rfl
      exact hend.prepend hgap rfl .nil
  | @lastLine indentation words indents =>
    simp only [pieces?, Option.bind_eq_bind, Option.bind_eq_some_iff, Prod.exists] at hpieces
    obtain ⟨marks, stack, hstack, behind, ⟨rfl⟩, ⟨rfl⟩⟩ := hpieces
    obtain ⟨t, added, hend, hgives⟩ := scan_codeLine [] hline
      (hsound _ List.mem_cons_self) indents (by simp) (by rw [hrest, List.append_nil]) hstack
    have hlast : Adds source t (.layout .newline ::
        List.replicate ((t.blocks ++ [0]).length - 1) (.layout .dedent)) :=
      adds_lastEnd hend.isOpen hend.rest_eq
    have hadds := hlast.prepend hend.scan_eq hend.tokens_eq hgives
    rw [hend.blocks_eq, List.append_assoc] at hadds
    exact hadds

end Scanner

/-- The tokens of a source that is made up of lines are those of the pieces of the lines, and then
the end of the file. -/
theorem tokenize_lines {source : Source} {lines : List CodeLine} {pieces : List Piece}
    (hlaid : LaidOut lines source) (hsound : ∀ line ∈ lines, line.Sound)
    (hpieces : pieces? [0] lines = some pieces) :
    ∃ tokens fileEnd, tokenize source = .ok (tokens ++ [fileEnd]) ∧ fileEnd.kind = .eof ∧
      List.Forall₂ (Piece.Gives source) pieces tokens := by
  obtain ⟨t, tokens, hscan, hfinish, hgives⟩ :=
    Scanner.adds_lines hlaid (Scanner.atLine_start source) rfl hsound hpieces
  refine ⟨tokens, .eof (Source.byteSize source), ?_, rfl, hgives⟩
  rw [tokenize_eq_scan, hscan]
  exact congrArg Except.ok hfinish

end Offside
