import Mathlib.Data.List.Forall2
import Offside.Proofs.Abreast
import Offside.Proofs.Layout.Positions
import Offside.Proofs.Source.LineEnds

/-!
# Scanning line ends of two characters

A source with a carriage return in front of every line feed is read like the source itself.  Most
pieces are the same in both; a run of blanks or a comment at the end of a line takes the carriage
return, which leaves the line feed alone to end the line; and where a carriage return stands in
front of a line feed already, the two returns are blanks.

Main definitions:

- `ReadsAlike`: what the two sources begin with.
- `Token.Mirrors` and `Scanner.Mirrors`: tokens and scanners of the two sources go together.

Main results:

- Theorem `first?_withReturns`: what the two sources begin with goes together.
- Theorem `scan_mirrors`: the scans of the two sources go together.
- Theorem `tokenize_mirrors`: so do their tokens.
-/

namespace Offside

open Source

variable {source text rest : Source} {role : Role}

/-! ## What is read -/

/-- What the source with carriage returns begins with, where the source begins with a piece in some
role: the same piece; a piece at the end of a line, with the return of the line; or the end of a
line, with a return of its own or behind two that are blanks. -/
inductive ReadsAlike (source : Source) : Role → Source → Source → Prop where
  | same {role : Role} {text rest : Source} (oneLine : withReturns text = text)
      (reads : Pattern.first? source.withReturns = some (role, text, rest.withReturns)) :
      ReadsAlike source role text rest
  | lastBlanks {text rest : Source} (oneLine : withReturns text = text)
      (reads : Pattern.first? source.withReturns =
        some (.skipped, text ++ ['\r'], '\n' :: rest.withReturns)) :
      ReadsAlike source .skipped text ('\n' :: rest)
  | lineFeed {rest : Source} (reads : Pattern.first? source.withReturns =
        some (.lineBreak, ['\r', '\n'], rest.withReturns)) :
      ReadsAlike source .lineBreak ['\n'] rest
  | returnLineFeed {rest : Source} (reads : Pattern.first? source.withReturns =
        some (.skipped, ['\r', '\r'], '\n' :: rest.withReturns)) :
      ReadsAlike source .lineBreak ['\r', '\n'] rest

/-- A beginning that goes up to the end of the line may take one more carriage return. -/
theorem cut_withReturns (passes : Char → Bool) (hfeed : passes '\n' = false)
    (hreturn : passes '\r' = true) (source : Source) :
    withReturns (source.takeWhile passes) = source.takeWhile passes ∧
    (source.withReturns.takeWhile passes = source.takeWhile passes ∧
        source.withReturns.dropWhile passes = withReturns (source.dropWhile passes) ∨
      ∃ rest, source.dropWhile passes = '\n' :: rest ∧
        source.withReturns.takeWhile passes = source.takeWhile passes ++ ['\r'] ∧
        source.withReturns.dropWhile passes = '\n' :: withReturns rest) := by
  induction source with
  | nil => exact ⟨rfl, .inl ⟨rfl, rfl⟩⟩
  | cons c source ih =>
    by_cases hc : c = '\n'
    · subst hc
      exact ⟨by simp [hfeed], .inr ⟨source, by simp [hfeed], by simp [hfeed, hreturn],
        by simp [hfeed, hreturn]⟩⟩
    · rw [withReturns_cons hc]
      by_cases hpasses : passes c = true
      · simp only [List.takeWhile_cons_of_pos hpasses, List.dropWhile_cons_of_pos hpasses,
          withReturns_cons hc, List.cons_append, List.cons.injEq, true_and]
        exact ih
      · simp [hpasses, withReturns_cons hc]

/-- A beginning of one line is one of the source with carriage returns. -/
theorem prefix_withReturns {word : List Char} (hfeed : '\n' ∉ word) (hreturn : '\r' ∉ word)
    (source : Source) :
    word.isPrefixOf source.withReturns = word.isPrefixOf source ∧
      (word.isPrefixOf source = true →
        source.withReturns.drop word.length = withReturns (source.drop word.length)) := by
  induction word generalizing source with
  | nil => exact ⟨rfl, fun _ => rfl⟩
  | cons first word ih =>
    rw [List.mem_cons, not_or] at hfeed hreturn
    cases source with
    | nil => exact ⟨rfl, fun h => nomatch h⟩
    | cons c source =>
      obtain ⟨hbegins, hdrop⟩ := ih hfeed.2 hreturn.2 source
      by_cases hc : c = '\n'
      · subst hc
        have hfirst : (first == '\n') = false ∧ (first == '\r') = false :=
          ⟨beq_false_of_ne (Ne.symm hfeed.1), beq_false_of_ne (Ne.symm hreturn.1)⟩
        simp only [withReturns_lineFeed, List.isPrefixOf, hfirst, Bool.false_and, true_and]
        exact nofun
      · rw [withReturns_cons hc]
        simp only [List.isPrefixOf, hbegins, Bool.and_eq_true, List.length_cons,
          List.drop_succ_cons]
        exact ⟨trivial, fun h => hdrop h.2⟩

/-- The start of a piece that is neither blank nor a comment nor the end of a line. -/
def startsVisible (c : Char) : Prop := ¬(c = ' ' ∨ c = '\t' ∨ c = '\r' ∨ c = '\n' ∨ c = '#')

/-- A quotation ends on its line, and is read in the same way. -/
theorem splitQuotation?_withReturns {quote : Char} (hquote : quote = '"' ∨ quote = '\'')
    (source : Source) :
    Shape.splitQuotation? quote source.withReturns =
      (Shape.splitQuotation? quote source).map fun (text, rest) => (text, rest.withReturns) := by
  have hne : quote ≠ '\n' ∧ quote ≠ '\r' := by
    rcases hquote with rfl | rfl <;> decide
  obtain ⟨-, hcut⟩ := cut_withReturns (fun c => c ≠ quote && c ≠ '\n') (by simp)
    (by simp [hne.2.symm]) source
  simp only [Shape.splitQuotation?]
  generalize source.takeWhile (fun c => c ≠ quote && c ≠ '\n') = inside at hcut ⊢
  generalize source.dropWhile (fun c => c ≠ quote && c ≠ '\n') = behind at hcut ⊢
  rcases hcut with ⟨htake, hdrop⟩ | ⟨rest, rfl, htake, hdrop⟩
  · rw [htake, hdrop]
    cases behind with
    | nil => rfl
    | cons c rest =>
      by_cases hc : c = '\n'
      · subst hc
        simp [hne.1.symm, hne.2.symm]
      · rw [withReturns_cons hc]
        by_cases hend : c = quote <;> simp [hend]
  · rw [htake, hdrop]
    simp [hne.1.symm]

/-- Words, numbers, strings and marks are read in the same way. -/
theorem split?_withReturns {c : Char} (hc : startsVisible c) {shape : Shape}
    (hshape : ∀ word, shape = .exact word → '\n' ∉ word ∧ '\r' ∉ word) (source : Source) :
    shape.split? (withReturns (c :: source)) =
      (shape.split? (c :: source)).map fun (text, rest) => (text, rest.withReturns) := by
  simp only [startsVisible, not_or] at hc
  obtain ⟨hblank, htab, hreturn, hfeed, hhash⟩ := hc
  have hspace : Shape.isSpace c = false := by simp [Shape.isSpace, hblank, htab, hreturn]
  cases shape with
  | word =>
    rw [withReturns_cons hfeed]
    simp only [Shape.split?]
    rw [takeWhile_withReturns rfl rfl, dropWhile_withReturns rfl rfl]
    split <;> rfl
  | digits =>
    simp only [Shape.split?, Shape.splitWhile?]
    rw [takeWhile_withReturns rfl rfl, dropWhile_withReturns rfl rfl]
    split <;> rfl
  | lineBreak =>
    rw [withReturns_cons hfeed]
    unfold Shape.split?
    split <;> simp_all
  | blanks =>
    rw [withReturns_cons hfeed]
    simp [Shape.split?, Shape.splitWhile?, hspace]
  | comment =>
    rw [withReturns_cons hfeed]
    unfold Shape.split?
    split <;> simp_all
  | quotation =>
    rw [withReturns_cons hfeed]
    simp only [Shape.split?]
    by_cases hquote : (c = '"' || c = '\'') = true
    · rw [if_pos hquote, if_pos hquote, splitQuotation?_withReturns (by simpa using hquote)]
    · rw [if_neg hquote, if_neg hquote]
      rfl
  | exact word =>
    obtain ⟨hwordFeed, hwordReturn⟩ := hshape word rfl
    obtain ⟨hbegins, hdrop⟩ := prefix_withReturns hwordFeed hwordReturn (c :: source)
    simp only [Shape.split?, hbegins]
    split
    · next h => simp [hdrop h]
    · rfl

/-- Where a piece is no blank, no comment and no end of a line, both sources begin with it. -/
theorem first?_visible {c : Char} (hc : startsVisible c) (source : Source) :
    Pattern.first? (withReturns (c :: source)) =
      (Pattern.first? (c :: source)).map fun (role, text, rest) =>
        (role, text, rest.withReturns) := by
  have hmarks : ∀ pattern ∈ Pattern.table, ∀ word, pattern.shape = .exact word →
      '\n' ∉ word ∧ '\r' ∉ word := by
    simp [Pattern.table, Pattern.ofMark]
  unfold Pattern.first?
  generalize Pattern.table = table at hmarks ⊢
  induction table with
  | nil => rfl
  | cons pattern table ih =>
    obtain ⟨hpattern, htable⟩ := List.forall_mem_cons.mp hmarks
    rw [List.findSome?_cons, List.findSome?_cons, split?_withReturns hc hpattern]
    cases pattern.shape.split? (c :: source) with
    | none => exact ih htable
    | some piece => rfl

/-- A piece that may go on with carriage returns, but not beyond the end of the line. -/
theorem ReadsAlike.skipped (passes : Char → Bool) (hfeed : passes '\n' = false)
    (hreturn : passes '\r' = true) (c : Char) (hc : c ≠ '\n') {source : Source}
    (hreads : Pattern.first? (withReturns (c :: source)) = some (.skipped,
      c :: source.withReturns.takeWhile passes, source.withReturns.dropWhile passes)) :
    ReadsAlike (c :: source) .skipped (c :: source.takeWhile passes)
      (source.dropWhile passes) := by
  obtain ⟨htake, hcut⟩ := cut_withReturns passes hfeed hreturn source
  have hline : withReturns (c :: source.takeWhile passes) = c :: source.takeWhile passes := by
    rw [withReturns_cons hc, htake]
  rcases hcut with ⟨htext, hrest⟩ | ⟨rest, hdrop, htext, hrest⟩
  · rw [htext, hrest] at hreads
    exact .same hline hreads
  · rw [htext, hrest] at hreads
    rw [hdrop]
    exact .lastBlanks hline hreads

/-- With carriage returns no source starts with a line feed. -/
theorem head?_withReturns (source : Source) : source.withReturns.head? ≠ some '\n' := by
  cases source with
  | nil => nofun
  | cons c source =>
    by_cases hc : c = '\n'
    · subst hc
      rw [withReturns_lineFeed]
      exact fun h => nomatch Option.some.inj h
    · rw [withReturns_cons hc]
      exact fun h => hc (Option.some.inj h)

/-- What the two sources begin with goes together. -/
theorem first?_withReturns (h : Pattern.first? source = some (role, text, rest)) :
    ReadsAlike source role text rest := by
  obtain ⟨hsource, hne⟩ := first?_append h
  obtain ⟨c, more, rfl⟩ := List.exists_cons_of_ne_nil (l := source) (by simp [hsource, hne])
  by_cases hc : startsVisible c
  · have hreads : Pattern.first? (withReturns (c :: more)) =
        some (role, text, rest.withReturns) := by
      rw [first?_visible hc, h, Option.map_some]
    have hboth := (first?_append hreads).1
    rw [hsource, withReturns_append] at hboth
    exact .same (List.append_cancel_right hboth) hreads
  · rcases not_not.mp hc with rfl | rfl | rfl | rfl | rfl
    · cases h.symm.trans (first?_blanks (.inl rfl))
      exact .skipped Shape.isSpace rfl rfl ' ' (by decide) (first?_blanks (.inl rfl))
    · cases h.symm.trans (first?_blanks (.inr rfl))
      exact .skipped Shape.isSpace rfl rfl '\t' (by decide) (first?_blanks (.inr rfl))
    · by_cases hbreak : more.head? = some '\n'
      · obtain ⟨behind, rfl⟩ := List.head?_eq_some_iff.mp hbreak
        cases h.symm.trans first?_returnLineFeed
        exact .returnLineFeed (first?_return nofun)
      · cases h.symm.trans (first?_return hbreak)
        exact .skipped Shape.isSpace rfl rfl '\r' (by decide)
          (first?_return (head?_withReturns more))
    · cases h.symm.trans first?_lineFeed
      exact .lineFeed first?_returnLineFeed
    · cases h.symm.trans first?_comment
      exact .skipped (· ≠ '\n') rfl rfl '#' (by decide) first?_comment

/-- Where nothing starts in a source, nothing starts in that with carriage returns. -/
theorem first?_withReturns_none (h : Pattern.first? source = none) (hne : source ≠ []) :
    Pattern.first? source.withReturns = none := by
  obtain ⟨c, more, rfl⟩ := List.exists_cons_of_ne_nil hne
  by_cases hc : startsVisible c
  · rw [first?_visible hc, h, Option.map_none]
  · rcases not_not.mp hc with rfl | rfl | rfl | rfl | rfl
    · nomatch h.symm.trans (first?_blanks (.inl rfl))
    · nomatch h.symm.trans (first?_blanks (.inr rfl))
    · by_cases hbreak : more.head? = some '\n'
      · obtain ⟨behind, rfl⟩ := List.head?_eq_some_iff.mp hbreak
        nomatch h.symm.trans first?_returnLineFeed
      · nomatch h.symm.trans (first?_return hbreak)
    · nomatch h.symm.trans first?_lineFeed
    · nomatch h.symm.trans first?_comment

/-- A line is blank with a carriage return in front of its end as it is without. -/
theorem isBlankLine_withReturns (source : Source) :
    Scanner.isBlankLine source.withReturns = Scanner.isBlankLine source := by
  cases source with
  | nil => rfl
  | cons c source =>
    by_cases hc : c = '\n'
    · subst hc
      rfl
    · rw [withReturns_cons hc]
      rfl

/-! ## Tokens and scanners -/

/-- Two refusals have the same name, and are on the same line. -/
def RefusedAlike (failure failure' : Failure) : Prop :=
  ∃ diagnostic diagnostic', failure = .refused diagnostic ∧ failure' = .refused diagnostic' ∧
    diagnostic.cause.name = diagnostic'.cause.name ∧
    diagnostic.location.line = diagnostic'.location.line

/-- Refusals on the same line for causes of the same name are alike. -/
theorem refuseAt_alike {α β : Type} {rel : α → β → Prop} {source' : Source}
    {position position' : Nat} {cause cause' : Cause}
    (hline : OnSameLine source source' position position') (hname : cause.name = cause'.name) :
    Outcome.Alike RefusedAlike rel (.refuseAt source position cause)
      (.refuseAt source' position' cause') := by
  obtain ⟨location, location', hleft, hright, hline⟩ := hline
  rw [Outcome.refuseAt, hleft, Outcome.refuseAt, hright]
  exact .error ⟨_, _, rfl, rfl, hname, hline⟩

/-- Two spans of a text of one line go together. -/
structure MirroredWord (source : Source) (span span' : Span) : Prop where
  start : Mirrored source span.start span'.start
  stop : Mirrored source span.stop span'.stop
  oneLine : ∃ text, Covers source span text ∧ withReturns text = text

/-- Two tokens go together: they are the same but for their place, start on the same line, and are
in front of the same characters unless they are layout. -/
structure Token.Mirrors (source : Source) (token token' : Token) : Prop where
  kind_eq : token.kind = token'.kind
  text_eq : token.text = token'.text
  start : OnSameLine source source.withReturns token.span.start token'.span.start
  word : token.kind.isLayout = false → MirroredWord source token.span token'.span

/-- What is layout only has to start on the same line. -/
theorem Token.Mirrors.of_layout {kind : TokenKind} (hkind : kind.isLayout = true) (word : String)
    {span span' : Span} (hline : OnSameLine source source.withReturns span.start span'.start) :
    Token.Mirrors source ⟨kind, word, span⟩ ⟨kind, word, span'⟩ :=
  ⟨rfl, rfl, hline, fun hword => absurd (hkind.symm.trans hword) nofun⟩

namespace Scanner

variable {s s' t t' : Scanner}

/-- Two scanners have tokens that go together, and remember the same. -/
structure Mirrors (source : Source) (s s' : Scanner) : Prop where
  tokens : List.Forall₂ (Token.Mirrors source) s.tokens s'.tokens
  blocks_eq : s.blocks = s'.blocks
  depth_eq : s.depth = s'.depth
  start_eq : s.atLineStart = s'.atLineStart

/-- Two scanners are in front of the same characters. -/
def InFront (source : Source) (s s' : Scanner) : Prop :=
  s'.rest = s.rest.withReturns ∧ ∃ before, source = before ++ s.rest ∧
    s.position = byteSize before ∧ s'.position = byteSize before.withReturns

/-- Two scanners are in front of the end of a line, the second behind the carriage returns that
come before the line feed. -/
def InFrontOfEnd (source : Source) (s s' : Scanner) : Prop :=
  s.atLineStart = false ∧ ∃ before lineEnd rest, (lineEnd = ['\n'] ∨ lineEnd = ['\r', '\n']) ∧
    source = before ++ (lineEnd ++ rest) ∧ s.rest = lineEnd ++ rest ∧
    s'.rest = '\n' :: withReturns rest ∧ s.position = byteSize before ∧
    s'.position = byteSize before.withReturns + byteSize lineEnd

/-- Scanners in front of the same text are at mirrored positions. -/
theorem InFront.mirrored (h : InFront source s s') : Mirrored source s.position s'.position := by
  obtain ⟨-, before, hsource, hposition, hposition'⟩ := h
  exact ⟨before, s.rest, hsource, hposition, hposition'⟩

/-- Behind a text of one line, the two scanners are in front of the same characters. -/
theorem InFront.mirrored_behind (h : InFront source s s') (hrest : s.rest = text ++ rest)
    (hline : withReturns text = text) :
    Mirrored source (s.position + byteSize text) (s'.position + byteSize text) := by
  obtain ⟨-, before, hsource, hposition, hposition'⟩ := h
  refine ⟨before ++ text, rest, by rw [hsource, hrest, List.append_assoc], ?_, ?_⟩
  · rw [byteSize_append, hposition]
  · rw [withReturns_append, byteSize_append, hline, hposition']

namespace Mirrors

/-- Mirrored scanners are both in a closed line, or none is. -/
theorem isClosed_eq (h : s.Mirrors source s') : s.isClosed = s'.isClosed := by
  have htokens := h.tokens
  unfold isClosed lastKind?
  generalize s.tokens = tokens at htokens ⊢
  generalize s'.tokens = tokens' at htokens ⊢
  cases htokens with
  | nil => rfl
  | cons htoken _ => simp [htoken.kind_eq]

/-- Mirrored scanners are in blocks of the same width. -/
theorem width_eq (h : s.Mirrors source s') : s.width = s'.width := by
  rw [width, width, h.blocks_eq]

/-- A mirrored token may be added on both sides. -/
theorem push (h : s.Mirrors source s') {token token' : Token}
    (htoken : token.Mirrors source token') :
    (s.push token).Mirrors source (s'.push token') where
  tokens := .cons htoken h.tokens
  blocks_eq := h.blocks_eq
  depth_eq := by rw [Scanner.push, Scanner.push, h.depth_eq, htoken.kind_eq]
  start_eq := h.start_eq

/-- The end of a line is mirrored. -/
theorem endLine (h : s.Mirrors source s') {span span' : Span}
    (hline : OnSameLine source source.withReturns span.start span'.start) :
    (s.endLine span).Mirrors source (s'.endLine span') := by
  by_cases hdepth : s.depth = 0
  · rw [endLine_eq hdepth, endLine_eq (h.depth_eq ▸ hdepth), ← h.isClosed_eq]
    split
    · exact ⟨h.tokens, h.blocks_eq, h.depth_eq, rfl⟩
    · have hnewline : Token.Mirrors source (.newline span) (.newline span') :=
        .of_layout rfl "\n" hline
      have hpush := h.push hnewline
      exact ⟨hpush.tokens, hpush.blocks_eq, hpush.depth_eq, rfl⟩
  · rw [Scanner.endLine, if_neg hdepth, Scanner.endLine, if_neg (h.depth_eq ▸ hdepth)]
    exact h

/-- A piece of one line is read in the same way. -/
theorem emit (h : s.Mirrors source s') (hfront : InFront source s s')
    (hrest : s.rest = text ++ rest) (hline : withReturns text = text) (role : Role) :
    (s.emit role text).Mirrors source (s'.emit role text) := by
  have hword : MirroredWord source ⟨s.position, s.position + byteSize text⟩
      ⟨s'.position, s'.position + byteSize text⟩ := by
    refine ⟨hfront.mirrored, hfront.mirrored_behind hrest hline, text, ?_, hline⟩
    obtain ⟨-, before, hsource, hposition, -⟩ := hfront
    exact ⟨before, rest, by rw [hsource, hrest], by rw [hposition]⟩
  have hstart := hfront.mirrored.onSameLine
  cases role with
  | word | number | string | mark kind => exact h.push ⟨rfl, rfl, hstart, fun _ => hword⟩
  | lineBreak => exact h.endLine hstart
  | skipped => exact h

/-- Where a scanner stands makes no difference to what it has. -/
theorem move (h : s.Mirrors source s') (position position' : Nat) (rest rest' : Source) :
    Mirrors source { s with position := position, rest := rest }
      { s' with position := position', rest := rest' } :=
  ⟨h.tokens, h.blocks_eq, h.depth_eq, h.start_eq⟩

/-- Closings of blocks on one line go together. -/
theorem dedents {position position' : Nat}
    (hline : OnSameLine source source.withReturns position position') (n : Nat) :
    List.Forall₂ (Token.Mirrors source) (List.replicate n (.dedent position))
      (List.replicate n (.dedent position')) := by
  induction n with
  | zero => exact .nil
  | succ n ih => exact .cons (.of_layout rfl _ hline) ih

/-- So is a change of indentation. -/
theorem indentTo (h : s.Mirrors source s') {width : Nat}
    (hindent : OnSameLine source source.withReturns s.position s'.position)
    (hdedent : OnSameLine source source.withReturns (s.position + width) (s'.position + width)) :
    (s.indentTo width).Mirrors source (s'.indentTo width) := by
  have hwidth := h.width_eq
  by_cases habove : s.width < width
  · rw [Scanner.indentTo, if_pos habove, Scanner.indentTo, if_pos (hwidth ▸ habove)]
    have hopen : Mirrors source { s with blocks := width :: s.blocks }
        { s' with blocks := width :: s'.blocks } :=
      ⟨h.tokens, congrArg (width :: ·) h.blocks_eq, h.depth_eq, h.start_eq⟩
    exact hopen.push (.of_layout rfl _ hindent)
  · rw [indentTo_of_le habove, indentTo_of_le (hwidth ▸ habove), ← h.blocks_eq]
    exact ⟨List.rel_append (dedents hdedent _) h.tokens, rfl, h.depth_eq, h.start_eq⟩

/-- At the end of the source, the last line and the open blocks are closed in the same way. -/
theorem finish (h : s.Mirrors source s') {stop stop' : Nat} (hstop : Mirrored source stop stop') :
    List.Forall₂ (Token.Mirrors source) (s.finish stop) (s'.finish stop') := by
  have hline := hstop.onSameLine
  have hword : MirroredWord source (.empty stop) (.empty stop') :=
    ⟨hstop, hstop, [], hstop.cuts.covers_empty, rfl⟩
  have heof : Token.Mirrors source (.eof stop) (.eof stop') := ⟨rfl, rfl, hline, fun _ => hword⟩
  rw [finish_eq, finish_eq, ← h.isClosed_eq, ← h.blocks_eq, List.map_const', List.map_const']
  refine List.rel_append (List.rel_append (List.rel_append (List.rel_reverse h.tokens) ?_)
    (dedents hline _)) (.cons heof .nil)
  split
  · exact .nil
  · exact .cons (.of_layout rfl _ hline) .nil

end Mirrors

/-! ## The start of a line -/

/-- The start of a line inside brackets or of a blank line is passed over, other lines are
indented. -/
theorem startLine_eq {width : Nat} (hwidth : width = (s.rest.takeWhile isIndentation).length) :
    s.startLine source =
      if 0 < s.depth || isBlankLine (s.rest.dropWhile isIndentation) then .ok s.inside
      else if (s.inside.indentTo width).width = width then .ok (s.inside.indentTo width)
      else .refuseAt source (s.position + width) .inconsistentIndentation := by
  have hposition : (s.inside.indentTo width).position = s.position := by
    rw [indentTo_eq]
    rfl
  subst hwidth
  rw [← hposition]
  rfl

/-- The start of a line is passed over, indented or refused in the same way. -/
theorem startLine_mirrors (h : s.Mirrors source s') (hfront : InFront source s s') :
    Outcome.Alike RefusedAlike
      (fun t t' => t.Mirrors source t' ∧ InFront source t t' ∧ t.atLineStart = false ∧
        t.rest = s.rest)
      (s.startLine source) (s'.startLine source.withReturns) := by
  have hinside : s.inside.Mirrors source s'.inside := ⟨h.tokens, h.blocks_eq, h.depth_eq, rfl⟩
  have hrest : s'.rest = s.rest.withReturns := hfront.1
  have hwidth : s'.rest.takeWhile isIndentation = s.rest.takeWhile isIndentation := by
    rw [hrest, takeWhile_withReturns rfl rfl]
  have hblank : isBlankLine (s'.rest.dropWhile isIndentation) =
      isBlankLine (s.rest.dropWhile isIndentation) := by
    rw [hrest, dropWhile_withReturns rfl rfl]
    exact isBlankLine_withReturns _
  have hbehind : OnSameLine source source.withReturns
      (s.position + (s.rest.takeWhile isIndentation).length)
      (s'.position + (s.rest.takeWhile isIndentation).length) := by
    rw [← byteSize_indentation]
    refine (hfront.mirrored_behind List.takeWhile_append_dropWhile.symm ?_).onSameLine
    exact withReturns_eq_self fun hmem => nomatch List.mem_takeWhile_imp hmem
  rw [startLine_eq rfl, startLine_eq (congrArg List.length hwidth.symm), hblank, ← h.depth_eq]
  split
  · exact .ok ⟨hinside, hfront, rfl, rfl⟩
  · have hindented := hinside.indentTo hfront.mirrored.onSameLine hbehind
    rw [← hindented.width_eq]
    split
    · refine .ok ⟨hindented, ?_⟩
      rw [indentTo_eq s.inside, indentTo_eq s'.inside]
      exact ⟨hfront, rfl, rfl⟩
    · exact refuseAt_alike hbehind rfl

/-! ## The run -/

/-- Behind texts that go together, two scanners are in front of the same characters. -/
theorem inFront_behind {before : Source} (hsource : source = before ++ (text ++ t.rest))
    (hrest : t'.rest = t.rest.withReturns)
    (hposition : t.position = byteSize before + byteSize text)
    (hposition' : t'.position = byteSize before.withReturns + byteSize text.withReturns) :
    InFront source t t' := by
  refine ⟨hrest, before ++ text, by rw [hsource, List.append_assoc], ?_, ?_⟩
  · rw [hposition, byteSize_append]
  · rw [hposition', withReturns_append, byteSize_append]

/-- Behind the end of a line that is read in both, two scanners go together. -/
theorem Mirrors.lineBreak (h : s.Mirrors source s') (text text' rest rest' : Source)
    (hline : OnSameLine source source.withReturns s.position s'.position) :
    (s.read .lineBreak text rest).Mirrors source (s'.read .lineBreak text' rest') :=
  Mirrors.move (h.endLine hline) ..

/-- The runs go together from all pairs of scanners with less than `n` characters to read. -/
def AgreeBelow (source : Source) (n : Nat) : Prop :=
  ∀ s s' : Scanner, s.rest.length < n → s.Mirrors source s' →
    InFront source s s' ∨ InFrontOfEnd source s s' →
    Outcome.Alike RefusedAlike (Mirrors source) (scan source s) (scan source.withReturns s')

/-- In front of the end of a line, both scanners read it. -/
theorem scan_mirrors_end (h : s.Mirrors source s') (hfront : InFrontOfEnd source s s')
    (ih : AgreeBelow source s.rest.length) :
    Outcome.Alike RefusedAlike (Mirrors source) (scan source s) (scan source.withReturns s') := by
  obtain ⟨hstart, before, lineEnd, rest, hlineEnd, hsource, hrest, hrest', hposition, hposition'⟩ :=
    hfront
  have hfirst : Pattern.first? s.rest = some (.lineBreak, lineEnd, rest) := by
    rcases hlineEnd with rfl | rfl
    · exact hrest ▸ first?_lineFeed
    · exact hrest ▸ first?_returnLineFeed
  have hfirst' : Pattern.first? s'.rest = some (.lineBreak, ['\n'], rest.withReturns) :=
    hrest' ▸ first?_lineFeed
  -- in the second source, what comes before the line feed are carriage returns
  obtain ⟨returns, hreturns, hcount, hsize⟩ : ∃ returns, withReturns lineEnd = returns ++ ['\n'] ∧
      returns.count '\n' = 0 ∧ byteSize returns = byteSize lineEnd := by
    rcases hlineEnd with rfl | rfl
    · exact ⟨['\r'], rfl, rfl, rfl⟩
    · exact ⟨['\r', '\r'], rfl, rfl, rfl⟩
  have hline : OnSameLine source source.withReturns s.position s'.position := by
    have hsource' : source.withReturns = (before.withReturns ++ returns) ++
        ('\n' :: rest.withReturns) := by simp [hsource, hreturns]
    rw [hposition, hposition', ← hsize, ← byteSize_append]
    exact onSameLine_of_count hsource hsource' (by simp [hcount])
  rw [scan_read hstart hfirst, scan_read (h.start_eq ▸ hstart) hfirst']
  refine ih _ _ (length_lt_of_first? hfirst) (h.lineBreak _ _ _ _ hline) (.inl ?_)
  refine inFront_behind hsource rfl (congrArg (· + _) hposition) ?_
  rw [hreturns, byteSize_append, hsize, ← Nat.add_assoc, ← hposition']
  rfl

/-- In front of a piece, both scanners read it, or at least what is blank in it. -/
theorem scan_mirrors_read (h : s.Mirrors source s') (hfront : InFront source s s')
    (hstart : s.atLineStart = false) (hfirst : Pattern.first? s.rest = some (role, text, rest))
    (ih : AgreeBelow source s.rest.length) :
    Outcome.Alike RefusedAlike (Mirrors source) (scan source s) (scan source.withReturns s') := by
  have hstart' : s'.atLineStart = false := h.start_eq ▸ hstart
  have hless := length_lt_of_first? hfirst
  have hsplit := (first?_append hfirst).1
  obtain ⟨hrest', before, hsource, hposition, hposition'⟩ := id hfront
  rw [hsplit] at hsource
  cases first?_withReturns hfirst with
  | same oneLine reads =>
    rw [scan_read hstart hfirst, scan_read hstart' (hrest' ▸ reads)]
    refine ih _ _ hless ((h.emit hfront hsplit oneLine role).move ..) (.inl ?_)
    exact inFront_behind hsource rfl (congrArg (· + _) hposition)
      (by rw [oneLine]; exact congrArg (· + _) hposition')
  | @lastBlanks _ more oneLine reads =>
    rw [scan_read hstart hfirst, scan_read hstart' (hrest' ▸ reads)]
    refine ih _ _ hless (h.move ..) (.inr ⟨hstart, before ++ text, ['\n'], more, .inl rfl, ?_⟩)
    refine ⟨?_, rfl, rfl, ?_, ?_⟩
    · rw [hsource, List.append_assoc]
      rfl
    · rw [byteSize_append, ← hposition]
      rfl
    · rw [withReturns_append, oneLine, byteSize_append, ← hposition', Nat.add_assoc]
      exact congrArg (s'.position + ·) (byteSize_append text ['\r'])
  | lineFeed reads =>
    rw [scan_read hstart hfirst, scan_read hstart' (hrest' ▸ reads)]
    refine ih _ _ hless (h.lineBreak _ _ _ _ hfront.mirrored.onSameLine) (.inl ?_)
    exact inFront_behind hsource rfl (congrArg (· + _) hposition) (congrArg (· + _) hposition')
  | returnLineFeed reads =>
    rw [scan_read hstart' (hrest' ▸ reads)]
    refine scan_mirrors_end (h.move ..)
      ⟨hstart, before, ['\r', '\n'], rest, .inr rfl, hsource, hsplit, rfl, hposition, ?_⟩ ih
    exact congrArg (· + _) hposition'

/-- Where nothing starts, both scanners refuse the same character. -/
theorem scan_mirrors_stuck (h : s.Mirrors source s') (hfront : InFront source s s')
    (hstart : s.atLineStart = false) (hne : s.rest ≠ []) (hfirst : Pattern.first? s.rest = none) :
    Outcome.Alike RefusedAlike (Mirrors source) (scan source s) (scan source.withReturns s') := by
  have hfirst' : Pattern.first? s'.rest = none := hfront.1 ▸ first?_withReturns_none hfirst hne
  have hne' : s'.rest ≠ [] := hfront.1 ▸ mt eq_nil_of_withReturns hne
  have hstep : Outcome.Alike RefusedAlike (fun _ _ : Scanner => False) (s.step source)
      (s'.step source.withReturns) := by
    rw [step_inside hstart, step_inside (h.start_eq ▸ hstart), readOne, hfirst, readOne, hfirst']
    exact refuseAt_alike hfront.mirrored.onSameLine rfl
  rw [scan_step hne, scan_step hne']
  exact hstep.bind fun _ _ => False.elim

/-- The runs of two scanners that go together go together. -/
theorem scan_mirrors (n : Nat) : AgreeBelow source n := by
  -- On the characters to read: of the start of a line, the place in the source stays.
  induction n with
  | zero => exact fun s s' hlength => absurd hlength (Nat.not_lt_zero _)
  | succ n ih =>
    have hread (s s' : Scanner) (hlength : s.rest.length = n) (hne : s.rest ≠ [])
        (hstart : s.atLineStart = false) (h : s.Mirrors source s') (hfront : InFront source s s') :
        Outcome.Alike RefusedAlike (Mirrors source) (scan source s)
          (scan source.withReturns s') := by
      subst hlength
      cases hfirst : Pattern.first? s.rest with
      | none => exact scan_mirrors_stuck h hfront hstart hne hfirst
      | some piece => exact scan_mirrors_read h hfront hstart hfirst ih
    intro s s' hlength h hfront
    rcases Nat.lt_succ_iff_lt_or_eq.mp hlength with hless | rfl
    · exact ih s s' hless h hfront
    rcases hfront with hfront | hend
    · by_cases hnil : s.rest = []
      · have hnil' : s'.rest = [] := by rw [hfront.1, hnil, withReturns_nil]
        rw [scan_nil hnil, scan_nil hnil']
        exact .ok h
      · cases hstart : s.atLineStart with
        | false => exact hread s s' rfl hnil hstart h hfront
        | true =>
          have hnil' : s'.rest ≠ [] := hfront.1 ▸ mt eq_nil_of_withReturns hnil
          rw [scan_startLine hstart hnil, scan_startLine (h.start_eq ▸ hstart) hnil']
          refine (startLine_mirrors h hfront).bind ?_
          rintro t t' ⟨hmirrors, htfront, htstart, htrest⟩
          exact hread t t' (congrArg _ htrest) (htrest ▸ hnil) htstart hmirrors htfront
    · exact scan_mirrors_end h hend ih

end Scanner

/-- The tokens of a source and those of the source with carriage returns go together, or both are
refused on the same line. -/
theorem tokenize_mirrors (source : Source) :
    Outcome.Alike RefusedAlike (List.Forall₂ (Token.Mirrors source)) (tokenize source)
      (tokenize source.withReturns) := by
  have hstart : (Scanner.start source).Mirrors source (Scanner.start source.withReturns) :=
    ⟨.nil, rfl, rfl, rfl⟩
  have hstop : Mirrored source (byteSize source) (byteSize source.withReturns) :=
    ⟨source, [], (List.append_nil source).symm, rfl, rfl⟩
  rw [tokenize_eq_scan, tokenize_eq_scan]
  refine (Scanner.scan_mirrors _ _ _ (Nat.lt_succ_self _) hstart
    (.inl ⟨rfl, [], rfl, rfl, rfl⟩)).bind ?_
  exact fun s s' h => .ok (h.finish hstop)

end Offside
