import Offside.Proofs.Layout.Positions
import Mathlib.Data.List.Chain

/-!
# Nothing is lost

The spans of the tokens and the gaps between them make up the whole source.  A token shows the text
of its span, and a gap is silent: blanks, tabs, carriage returns, line feeds and comments.  The
layout at the start of a line is ahead of the scanner, which has still to pass the indentation; so
what a run keeps is that the gaps are silent up to the place where the newest layout ends, and that
the next reading leads there.

Main definitions:

- `Silent`: what a stretch of a source without tokens is made of.
- `Token.Shows`: the text that a token covers.
- `Lossless`: tokens and silence make up a source.

Main results:

- Theorem `Scanner.Accounted.read` and `Scanner.Accounted.startLine`: each step of the scanner
  accounts for what it passes.
- Theorem `tokenize_lossless`: the tokens of a source are lossless.
-/

namespace Offside

/-! ## Silence -/

/-- A stretch of a source in which there are no tokens, with what stands behind it: blanks, tabs,
carriage returns, line feeds, and comments that reach to the end of their line. -/
inductive Silent (behind : Source) : Source → Prop where
  | nil : Silent behind []
  | space {c : Char} {text : Source} (isSpace : c ∈ [' ', '\t', '\r', '\n'])
      (more : Silent behind text) : Silent behind (c :: text)
  | comment {words text : Source} (oneLine : '\n' ∉ words)
      (ends : ∀ c ∈ (text ++ behind).head?, c = '\n') (more : Silent behind text) :
      Silent behind ('#' :: (words ++ text))

/-- Between two spans of a source, all is silent. -/
def Adjoins (source : Source) (older newer : Span) : Prop :=
  ∃ before gap after, source = before ++ (gap ++ after) ∧
    older.stop = Source.byteSize before ∧
    newer.start = Source.byteSize before + Source.byteSize gap ∧ Silent after gap

section Silence

variable {source front back behind text rest : Source} {role : Role}

/-- Blanks are silent. -/
theorem silent_of_spaces (h : ∀ c ∈ text, c ∈ [' ', '\t', '\r', '\n']) : Silent behind text := by
  induction text with
  | nil => exact .nil
  | cons c text ih =>
    rw [List.forall_mem_cons] at h
    exact .space h.1 (ih h.2)

/-- Two silent texts in a row are silent. -/
theorem Silent.append (hfront : Silent (back ++ behind) front) (hback : Silent behind back) :
    Silent behind (front ++ back) := by
  induction hfront with
  | nil => exact hback
  | space isSpace _ ih => exact .space isSpace ih
  | @comment words text oneLine ends _ ih =>
    rw [List.cons_append, List.append_assoc]
    exact .comment oneLine (by rwa [List.append_assoc]) ih

/-- What is read and is no word is silent, and the end of a line is a line feed, perhaps after a
carriage return. -/
theorem silent_of_first? {word : String} (h : Pattern.first? source = some (role, text, rest))
    (hkind : role.kind? word = none) :
    Silent rest text ∧ (role = .lineBreak → text = ['\n'] ∨ text = ['\r', '\n']) := by
  have hspaces {after : Source} {c : Char} (hc : c ∈ [' ', '\t', '\r']) :
      Silent rest (c :: after.takeWhile Shape.isSpace) := by
    refine silent_of_spaces (List.forall_mem_cons.mpr ⟨by simp_all; tauto, fun d hd => ?_⟩)
    have hspace := List.all_eq_true.mp List.all_takeWhile d hd
    simp only [Shape.isSpace, Bool.or_eq_true, decide_eq_true_eq] at hspace
    rcases hspace with (rfl | rfl) | rfl <;> simp
  cases source with
  | nil => cases h
  | cons c after =>
    rcases first_of_kind?_none h hkind with rfl | rfl | rfl | rfl | rfl
    · cases h.symm.trans (first?_blanks (.inl rfl))
      exact ⟨hspaces (by simp), by simp⟩
    · cases h.symm.trans (first?_blanks (.inr rfl))
      exact ⟨hspaces (by simp), by simp⟩
    · by_cases hfeed : after.head? = some '\n'
      · rcases List.head?_eq_some_iff.mp hfeed with ⟨more, rfl⟩
        cases h.symm.trans first?_returnLineFeed
        exact ⟨silent_of_spaces (by simp), fun _ => .inr rfl⟩
      · cases h.symm.trans (first?_return hfeed)
        exact ⟨hspaces (by simp), by simp⟩
    · cases h.symm.trans first?_lineFeed
      exact ⟨silent_of_spaces (by simp), fun _ => .inl rfl⟩
    · cases h.symm.trans first?_comment
      refine ⟨?_, by simp⟩
      rw [← List.append_nil (after.takeWhile _)]
      refine .comment (fun hmem => ?_) (fun d hd => ?_) .nil
      · simpa using List.all_eq_true.mp List.all_takeWhile _ hmem
      · have hstop := List.head?_dropWhile_not (fun c : Char => decide (c ≠ '\n')) after
        rw [List.nil_append] at hd
        rw [Option.mem_def.mp hd] at hstop
        simpa using hstop

end Silence

section Adjoining

variable {source : Source} {older newer : Span} {position : Nat}

/-- An empty span adjoins itself. -/
theorem adjoins_refl (h : Cuts source position) :
    Adjoins source (.empty position) (.empty position) := by
  rcases h with ⟨before, after, rfl, rfl⟩
  exact ⟨before, [], after, rfl, rfl, rfl, .nil⟩

/-- Spans that adjoin the same place adjoin each other. -/
theorem Adjoins.trans (hbefore : Adjoins source older (.empty position))
    (hafter : Adjoins source (.empty position) newer) : Adjoins source older newer := by
  rcases hbefore with ⟨before, gap, rest, hsource, hold, hposition, hgap⟩
  rcases hafter with ⟨before', gap', after, hsource', hposition', hnew, hgap'⟩
  -- a source can be cut at a position in one way only
  have hcut := Source.splitAt?_append (before ++ gap) rest
  have hcut' := Source.splitAt?_append before' (gap' ++ after)
  have hstart : Source.byteSize (before ++ gap) = Source.byteSize before' := by
    rw [Source.byteSize_append]
    exact hposition.symm.trans hposition'
  rw [List.append_assoc, ← hsource, hstart, hsource', hcut'] at hcut
  cases hcut
  refine ⟨before, gap ++ gap', after, by simpa using hsource, hold, ?_, hgap.append hgap'⟩
  rw [hnew, ← hstart]
  simp only [Source.byteSize_append, Nat.add_assoc]

/-- Spans that adjoin come one after the other. -/
theorem Adjoins.le (h : Adjoins source older newer) : older.stop ≤ newer.start := by
  rcases h with ⟨before, gap, after, -, hold, hnew, -⟩
  rw [hold, hnew]
  exact Nat.le_add_right _ _

/-- At a position, there may be more empty spans. -/
theorem isChain_replicate_empty {spans : List Span} (hcuts : Cuts source position)
    (h : List.IsChain (flip (Adjoins source)) (.empty position :: spans)) (count : Nat) :
    List.IsChain (flip (Adjoins source))
      (.empty position :: (List.replicate count (.empty position) ++ spans)) := by
  induction count with
  | zero => exact h
  | succ count ih => exact .cons_cons (adjoins_refl hcuts) ih

/-- What adjoins a position adjoins each position behind it that is reached in silence. -/
theorem isChain_empty {spans : List Span} {next : Nat}
    (h : List.IsChain (flip (Adjoins source)) (.empty position :: spans))
    (hnext : Adjoins source (.empty position) (.empty next)) :
    List.IsChain (flip (Adjoins source)) (.empty next :: spans) := by
  rw [List.isChain_cons] at h ⊢
  exact ⟨fun older holder => Adjoins.trans (h.1 older holder) hnext, h.2⟩

end Adjoining

/-! ## Tokens and the texts that they cover -/

/-- A token covers its text, which is not empty; a string is between two quotes.  The end of a line
covers a line feed, perhaps after a carriage return; the opening of a block covers blanks and tabs;
and what else is layout covers nothing. -/
def Token.Shows (token : Token) (text : Source) : Prop :=
  match token.kind with
  | .newline => text = ['\n'] ∨ text = ['\r', '\n']
  | .indent => text ≠ [] ∧ ∀ c ∈ text, c = ' ' ∨ c = '\t'
  | .dedent | .eof => text = []
  | .string => ∃ quote, (quote = '"' ∨ quote = '\'') ∧ text = quote :: token.text.toList ++ [quote]
  | _ => text ≠ [] ∧ text = token.text.toList

/-- A word shows its text. -/
theorem Token.shows_word {token : Token} {text : Source} (hlayout : token.kind.isLayout = false)
    (hend : token.kind ≠ .eof) (hstring : token.kind ≠ .string) (hne : text ≠ [])
    (htext : text = token.text.toList) : token.Shows text := by
  unfold Token.Shows
  split
  all_goals first | exact ⟨hne, htext⟩ | simp_all [TokenKind.isLayout]

/-- The tokens of a source lose nothing of it: each lies within the source, between two places where
the source can be cut, and behind the one before it; those that are not added at the end of the
source show the text that they cover; and before, between and behind them all is silent. -/
structure Lossless (source : Source) (tokens : List Token) : Prop where
  within : ∀ token ∈ tokens, token.span.start ≤ token.span.stop ∧
    token.span.stop ≤ Source.byteSize source ∧
    Cuts source token.span.start ∧ Cuts source token.span.stop
  apart : tokens.Pairwise fun earlier later => earlier.span.stop ≤ later.span.start
  shown : ∃ read lineEnd count,
    tokens = read ++ lineEnd ++ List.replicate count (.dedent (Source.byteSize source)) ++
        [.eof (Source.byteSize source)] ∧
      (lineEnd = [] ∨ lineEnd = [.newline (.empty (Source.byteSize source))]) ∧
      ∀ token ∈ read, ∃ text, Source.slice? source token.span = some text ∧ token.Shows text
  silent : List.IsChain (Adjoins source)
    (.empty 0 :: tokens.map Token.span ++ [.empty (Source.byteSize source)])

/-! ## Steps -/

namespace Scanner

variable {source text rest : Source} {role : Role} {s t : Scanner}

/-- The spans of the tokens so far, the newest first, behind the place where the source starts. -/
def spans (s : Scanner) : List Span := s.tokens.map Token.span ++ [.empty 0]

/-- The scanner has still to pass the blanks up to a place. -/
def IsAhead (s : Scanner) (place : Nat) : Prop :=
  s.atLineStart = false ∧ ∃ text rest, Pattern.first? s.rest = some (.skipped, text, rest) ∧
    place = s.position + Source.byteSize text

/-- The tokens so far show what they cover, and between them all is silent, up to the place of the
scanner or the end of the indentation before it. -/
structure Accounted (source : Source) (s : Scanner) : Prop where
  aligned : s.Aligned source
  shown : ∀ token ∈ s.tokens, ∃ text, Covers source token.span text ∧ token.Shows text
  silent : ∃ place, List.IsChain (flip (Adjoins source)) (.empty place :: s.spans) ∧
    (place = s.position ∨ s.IsAhead place)

/-- At the start there is nothing to account for. -/
theorem accounted_start (source : Source) : (Scanner.start source).Accounted source where
  aligned := ⟨[], rfl, rfl⟩
  shown := nofun
  silent := ⟨0, .cons_cons (adjoins_refl ⟨[], source, rfl, rfl⟩) (.singleton _), .inl rfl⟩

/-! ### The start of a line -/

/-- Before a word, the indentation of a line is read as a whole. -/
theorem first?_indentation (hfull : isBlankLine (s.rest.dropWhile isIndentation) = false) :
    s.rest.takeWhile isIndentation = [] ∨ Pattern.first? s.rest =
      some (.skipped, s.rest.takeWhile isIndentation, s.rest.dropWhile isIndentation) := by
  cases hrest : s.rest with
  | nil => exact .inl rfl
  | cons c after =>
    by_cases hc : isIndentation c = true
    · right
      rw [hrest] at hfull
      have hspaces := dropWhile_isSpace hfull
      have hspace : Shape.isSpace c = true := by
        simp only [isIndentation, Bool.or_eq_true] at hc
        simp only [Shape.isSpace, Bool.or_eq_true]
        exact .inl hc
      rw [List.dropWhile_cons_of_pos hc, List.dropWhile_cons_of_pos hspace] at hspaces
      have htaken : after.takeWhile Shape.isSpace = after.takeWhile isIndentation := by
        have hboth : after.takeWhile Shape.isSpace ++ after.dropWhile Shape.isSpace =
            after.takeWhile isIndentation ++ after.dropWhile Shape.isSpace := by
          rw [List.takeWhile_append_dropWhile, hspaces, List.takeWhile_append_dropWhile]
        exact List.append_cancel_right hboth
      rw [List.takeWhile_cons_of_pos hc, List.dropWhile_cons_of_pos hc, ← hspaces, ← htaken]
      exact first?_blanks (by simpa [isIndentation] using hc)
    · exact .inl (List.takeWhile_cons_of_neg hc)

/-- The layout of a line accounts for its indentation. -/
theorem Accounted.indentTo (h : s.Accounted source)
    (hchain : List.IsChain (flip (Adjoins source)) (.empty s.position :: s.spans))
    (hfull : isBlankLine (s.rest.dropWhile isIndentation) = false) :
    (s.inside.indentTo (s.rest.takeWhile isIndentation).length).Accounted source := by
  have hcovers := h.aligned.covers_indentation
  have hblanks : ∀ c ∈ s.rest.takeWhile isIndentation, c = ' ' ∨ c = '\t' := by
    intro c hc
    simpa [isIndentation] using List.all_eq_true.mp List.all_takeWhile c hc
  have hread := first?_indentation hfull
  have hsize := byteSize_indentation s.rest
  generalize s.rest.takeWhile isIndentation = blanks at hcovers hblanks hread hsize ⊢
  have hpassed : Adjoins source (.empty s.position) (.empty (s.position + blanks.length)) := by
    rcases hcovers with ⟨before, after, hsource, hspan⟩
    refine ⟨before, blanks, after, hsource, congrArg Span.start hspan, congrArg Span.stop hspan, ?_⟩
    exact silent_of_spaces fun c hc => by rcases hblanks c hc with rfl | rfl <;> simp
  have hplace : s.position + blanks.length = (s.inside.indentTo blanks.length).position ∨
      (s.inside.indentTo blanks.length).IsAhead (s.position + blanks.length) := by
    rw [indentTo_eq]
    rcases hread with rfl | hread
    · exact .inl rfl
    · exact .inr ⟨rfl, _, _, hread, by rw [hsize]; rfl⟩
  have haligned : (s.inside.indentTo blanks.length).Aligned source := by
    rw [indentTo_eq]
    exact h.aligned
  obtain ⟨hpos, -, -, htokens⟩ | ⟨count, -, -, htokens⟩ := indentTo_cases s.inside blanks.length
  · refine ⟨haligned, ?_, _, ?_, hplace⟩
    · rw [htokens, List.forall_mem_cons]
      exact ⟨⟨blanks, hcovers, List.length_pos_iff.mp hpos, hblanks⟩, h.shown⟩
    · rw [spans, htokens]
      rw [List.isChain_cons] at hchain
      exact .cons_cons (adjoins_refl hcovers.cuts_stop)
        (List.isChain_cons.mpr ⟨fun older holder => hchain.1 older holder, hchain.2⟩)
  · refine ⟨haligned, ?_, _, ?_, hplace⟩
    · rw [htokens, List.forall_mem_append]
      refine ⟨fun token htoken => ?_, h.shown⟩
      rw [List.eq_of_mem_replicate htoken]
      exact ⟨[], hcovers.cuts_stop.covers_empty, rfl⟩
    · rw [spans, htokens, List.map_append, List.map_replicate, List.append_assoc]
      exact isChain_replicate_empty hcovers.cuts_stop (isChain_empty hchain hpassed) count

/-- The start of a line accounts for its indentation. -/
theorem Accounted.startLine (h : s.Accounted source) (hstart : s.atLineStart = true)
    (hline : s.startLine source = .ok t) : t.Accounted source := by
  obtain ⟨place, hchain, rfl | ⟨hinside, -⟩⟩ := h.silent
  · rcases eq_indentTo_of_startLine hline with rfl | ⟨hfull, rfl⟩
    · exact ⟨h.aligned, h.shown, s.position, hchain, .inl rfl⟩
    · exact h.indentTo hchain hfull
  · rw [hstart] at hinside
    nomatch hinside

/-! ### Readings -/

/-- What is read is passed over without a token, or it is shown by the token that it adds. -/
theorem shows_of_read (hfirst : Pattern.first? s.rest = some (role, text, rest)) :
    (s.read role text rest).tokens = s.tokens ∧ role.kind? (String.ofList text) = none ∨
      ∃ token, token.span = ⟨s.position, s.position + Source.byteSize text⟩ ∧
        (s.read role text rest).tokens = token :: s.tokens ∧ token.Shows text := by
  have hlist : text = (String.ofList text).toList := String.toList_ofList.symm
  have hne := (first?_append hfirst).2
  cases role with
  | word =>
    exact .inr ⟨_, rfl, rfl, Token.shows_word (isLayout_ofWord _) (ofWord_ne_eof _)
      (ofWord_ne (by decide) (by decide) _) hne hlist⟩
  | number => exact .inr ⟨_, rfl, rfl, hne, hlist⟩
  | string =>
    obtain ⟨quote, inside, hquote, htext⟩ := eq_of_first?_string hfirst
    refine .inr ⟨_, rfl, rfl, quote, hquote, ?_⟩
    rw [String.toList_ofList, htext]
    simp
  | mark kind =>
    have hkind : (Role.mark kind).kind? "" = some kind := rfl
    refine .inr ⟨_, rfl, rfl, Token.shows_word (isLayout_of_first? hfirst hkind)
      (ne_eof_of_first? hfirst hkind) ?_ hne hlist⟩
    rintro rfl
    cases lexeme?_of_first?_mark hfirst
  | skipped => exact .inl ⟨rfl, rfl⟩
  | lineBreak =>
    have hkind : Role.lineBreak.kind? "" = none := rfl
    have hfeed := (silent_of_first? hfirst hkind).2 rfl
    by_cases hdepth : s.depth = 0
    · simp only [Scanner.read, emit, endLine_eq hdepth]
      split
      · exact .inl ⟨rfl, rfl⟩
      · exact .inr ⟨.newline _, rfl, rfl, hfeed⟩
    · refine .inl ⟨?_, rfl⟩
      simp only [Scanner.read, emit, endLine, if_neg hdepth]

/-- A reading accounts for what it passes. -/
theorem Accounted.read (h : s.Accounted source)
    (hfirst : Pattern.first? s.rest = some (role, text, rest)) :
    (s.read role text rest).Accounted source := by
  have haligned := aligned_read h.aligned hfirst
  have hcovers := covers_of_first? h.aligned hfirst
  obtain ⟨place, hchain, rfl | ⟨-, text', rest', hahead, rfl⟩⟩ := h.silent
  · rcases shows_of_read hfirst with ⟨htokens, hkind⟩ | ⟨token, hspan, htokens, hshows⟩
    · have hpassed : Adjoins source (.empty s.position)
          (.empty (s.position + Source.byteSize text)) := by
        rcases h.aligned with ⟨before, hsource, hposition⟩
        refine ⟨before, text, rest, ?_, hposition, ?_, (silent_of_first? hfirst hkind).1⟩
        · rw [hsource, (first?_append hfirst).1]
        · exact congrArg (· + Source.byteSize text) hposition
      refine ⟨haligned, htokens ▸ h.shown, _, ?_, .inl rfl⟩
      rw [spans, htokens]
      exact isChain_empty hchain hpassed
    · refine ⟨haligned, ?_, _, ?_, .inl rfl⟩
      · rw [htokens, List.forall_mem_cons]
        exact ⟨⟨text, hspan ▸ hcovers, hshows⟩, h.shown⟩
      · rw [spans, htokens, List.map_cons, hspan]
        rw [List.isChain_cons] at hchain
        exact .cons_cons (adjoins_refl hcovers.cuts_stop)
          (List.isChain_cons.mpr ⟨fun older holder => hchain.1 older holder, hchain.2⟩)
  -- the layout has accounted for the indentation that is read now
  · cases hahead.symm.trans hfirst
    exact ⟨haligned, h.shown, _, hchain, .inl rfl⟩

end Scanner

/-! ## Token lists -/

/-- What the end of a source adds covers nothing. -/
theorem Scanner.spans_finish (s : Scanner) (stop : Nat) :
    ∃ count, (s.finish stop).map Token.span =
      (s.tokens.map Token.span).reverse ++ List.replicate count (.empty stop) := by
  refine ⟨(if s.isClosed then 0 else 1) + s.blocks.length + 1, ?_⟩
  rw [Scanner.finish_eq, List.replicate_add, List.replicate_add]
  cases s.isClosed <;>
    simp [Token.newline, Token.dedent, Token.eof, List.map_const']

/-- At the end of the source, all of it is accounted for. -/
theorem Scanner.Accounted.silent_finish {source : Source} {s : Scanner} (h : s.Accounted source)
    (hrest : s.rest = []) : List.IsChain (Adjoins source) (.empty 0 ::
      (s.finish (Source.byteSize source)).map Token.span ++
        [.empty (Source.byteSize source)]) := by
  have hstop : Cuts source (Source.byteSize source) := ⟨source, [], by simp, rfl⟩
  have hposition : s.position = Source.byteSize source := by
    rcases h.aligned with ⟨before, hsource, hposition⟩
    rw [hposition, hsource, hrest, List.append_nil]
  obtain ⟨place, hchain, hplace⟩ := h.silent
  have hend : place = Source.byteSize source := by
    rcases hplace with rfl | ⟨-, text, rest, hahead, -⟩
    · exact hposition
    · rw [hrest] at hahead
      nomatch hahead
  subst hend
  obtain ⟨count, hspans⟩ := s.spans_finish (Source.byteSize source)
  have hall : List.IsChain (Adjoins source) _ :=
    List.isChain_reverse.mpr (isChain_replicate_empty hstop hchain count)
  rw [hspans]
  simpa [Scanner.spans] using hall

/-- Tokens that are each behind the one before them are behind all that are before them. -/
theorem pairwise_of_isChain {tokens : List Token}
    (hordered : ∀ token ∈ tokens, token.span.start ≤ token.span.stop)
    (h : tokens.IsChain fun earlier later => earlier.span.stop ≤ later.span.start) :
    tokens.Pairwise fun earlier later => earlier.span.stop ≤ later.span.start := by
  induction tokens with
  | nil => exact .nil
  | cons first more ih =>
    rw [List.forall_mem_cons] at hordered
    rw [List.isChain_cons] at h
    have hmore := ih hordered.2 h.2
    refine .cons (fun later hlater => ?_) hmore
    cases more with
    | nil => nomatch hlater
    | cons next more =>
      have hnext := h.1 next rfl
      rcases List.mem_cons.mp hlater with rfl | hlater
      · exact hnext
      · have hwidth := hordered.2 next List.mem_cons_self
        have hbehind := List.rel_of_pairwise_cons hmore hlater
        omega

/-- The tokens of a source lose nothing of it. -/
theorem tokenize_lossless {source : Source} {tokens : List Token}
    (h : tokenize source = .ok tokens) : Lossless source tokens := by
  have hcovers := tokenize_covers h
  unfold tokenize at h
  cases hrun : Scanner.run source source.length (.start source) with
  | error failure =>
    rw [hrun] at h
    nomatch h
  | ok last =>
    rw [hrun] at h
    cases h
    have hlast : last.Accounted source := Scanner.run_keeps (fun h hstart => h.startLine hstart)
      (fun h _ => h.read) (Scanner.accounted_start source) hrun
    have hsilent := hlast.silent_finish (rest_of_run hrun)
    have hordered (token : Token) (htoken : token ∈ last.finish (Source.byteSize source)) :
        token.span.start ≤ token.span.stop := by
      obtain ⟨text, htext⟩ := hcovers token htoken
      exact htext.le
    refine ⟨fun token htoken => ?_, ?_, ?_, hsilent⟩
    · obtain ⟨text, htext⟩ := hcovers token htoken
      exact ⟨htext.le, htext.cuts_stop.le, htext.cuts, htext.cuts_stop⟩
    · have hspans := hsilent.infix ⟨[.empty 0], [.empty (Source.byteSize source)], rfl⟩
      exact pairwise_of_isChain hordered
        (((List.isChain_map Token.span).mp hspans).imp fun _ _ hadjoins => hadjoins.le)
    · refine ⟨last.tokens.reverse, _, last.blocks.length,
        by rw [Scanner.finish_eq, List.map_const'], ?_, fun token htoken => ?_⟩
      · split
        · exact .inl rfl
        · exact .inr rfl
      · obtain ⟨text, htext, hshows⟩ := hlast.shown token (List.mem_reverse.mp htoken)
        exact ⟨text, htext.slice?_eq, hshows⟩

/-- Strings of both quotes, one with a character of two bytes, in a block that is closed before a
comment at the end, with blank lines, carriage returns and a bracket over two lines. -/
theorem tokenize_lossless_quotedBlock :
    ∃ tokens, tokenize
        "if a: # b\n\n \t'\xe9'\r\n\r# c\n \t\"\"\nd(\n 1)\r # e".toList = .ok tokens ∧
      Lossless "if a: # b\n\n \t'\xe9'\r\n\r# c\n \t\"\"\nd(\n 1)\r # e".toList tokens := by
  have hok : (tokenize
      "if a: # b\n\n \t'\xe9'\r\n\r# c\n \t\"\"\nd(\n 1)\r # e".toList).isOk = true := by
    decide +kernel
  cases htokens : tokenize
      "if a: # b\n\n \t'\xe9'\r\n\r# c\n \t\"\"\nd(\n 1)\r # e".toList with
  | error failure =>
    rw [htokens] at hok
    nomatch hok
  | ok tokens => exact ⟨tokens, rfl, tokenize_lossless htokens⟩

end Offside
