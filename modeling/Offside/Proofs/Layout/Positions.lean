import Offside.Proofs.Layout.Grammar

/-!
# Positions of the scanner

The scanner counts bytes.  Wherever it gets to, its position is one where the source can be cut,
and so are the ends of all that it cuts off there: what is left of the source, what stands behind
the indentation, a word, what stands between two quotes.  Its tokens cover texts of the source,
one behind the other.

Main definitions:

- `Scanner.Reaches`: the scanners that the scan of a source gets to.
- `Scanner.CutsText`: what a scanner cuts off is there.

Main results:

- Theorem `Scanner.Reaches.cutsText`: wherever the scan gets to, what is cut off is there.
- Theorem `refused_of_tokenize`: a source without tokens is refused.
- Theorem `tokenize_covers`: every token covers a text of the source.
- Theorem `tokenize_ordered`: every word stands behind the one before it.
-/

namespace Offside

namespace Scanner

variable {source text rest : Source} {role : Role} {s t : Scanner}

/-- The scanners that the scan of a source gets to, step by step. -/
inductive Reaches (source : Source) : Scanner → Prop where
  | start : Reaches source (start source)
  | step {s t : Scanner} (h : Reaches source s) (isMore : s.rest ≠ [])
      (goesOn : s.step source = .ok t) : Reaches source t

/-- What a scanner cuts off at its place is there: the rest of the source; what stands behind the
indentation; a word or mark; and what stands between the quotes of a string, which has two. -/
structure CutsText (source : Source) (s : Scanner) : Prop where
  remainder : Source.slice? source ⟨s.position, Source.byteSize source⟩ = some s.rest
  behindIndentation :
    Source.slice? s.rest ⟨(s.rest.takeWhile isIndentation).length, Source.byteSize s.rest⟩ =
      some (s.rest.dropWhile isIndentation)
  word : ∀ {role text rest}, Pattern.first? s.rest = some (role, text, rest) →
    Source.slice? s.rest ⟨0, Source.byteSize text⟩ = some text
  string : ∀ {text rest}, Pattern.first? s.rest = some (.string, text, rest) →
    2 ≤ Source.byteSize text ∧
      Source.slice? s.rest ⟨1, Source.byteSize text - 1⟩ = some text.tail.dropLast

/-! ## Cutting -/

/-- An aligned scanner is at a boundary. -/
theorem Aligned.cuts (h : s.Aligned source) : Cuts source s.position := by
  rcases h with ⟨before, hsource, hposition⟩
  exact ⟨before, s.rest, hsource, hposition⟩

/-- The source can be cut behind the indentation of a line. -/
theorem Aligned.covers_indentation (h : s.Aligned source) :
    Covers source ⟨s.position, s.position + (s.rest.takeWhile isIndentation).length⟩
      (s.rest.takeWhile isIndentation) := by
  rcases h with ⟨before, hsource, hposition⟩
  refine ⟨before, s.rest.dropWhile isIndentation, ?_, ?_⟩
  · rw [List.takeWhile_append_dropWhile, hsource]
  · rw [byteSize_indentation, hposition]

/-- A line can be cut behind its indentation. -/
theorem slice?_behindIndentation (line : Source) :
    Source.slice? line ⟨(line.takeWhile isIndentation).length, Source.byteSize line⟩ =
      some (line.dropWhile isIndentation) := by
  have hall : line.takeWhile isIndentation ++ line.dropWhile isIndentation = line :=
    List.takeWhile_append_dropWhile
  refine Covers.slice?_eq ⟨line.takeWhile isIndentation, [], by rw [List.append_nil, hall], ?_⟩
  rw [← Source.byteSize_append, hall, byteSize_indentation]

/-- A string is a text between two quotes. -/
theorem eq_of_first?_string (h : Pattern.first? s.rest = some (.string, text, rest)) :
    ∃ quote inside, (quote = '"' ∨ quote = '\'') ∧ text = quote :: inside ++ [quote] := by
  rcases exists_pattern h with ⟨⟨shape, role⟩, hmem, rfl, hsplit⟩
  have hquotation : ∀ pattern ∈ Pattern.table, pattern.role = .string →
      pattern.shape = .quotation := by
    decide
  cases hquotation _ hmem rfl
  cases hrest : s.rest with
  | nil =>
    rw [hrest] at hsplit
    cases hsplit
  | cons quote more =>
    rw [hrest] at hsplit
    simp only [Shape.split?] at hsplit
    split at hsplit
    · next hquote =>
      simp only [Shape.splitQuotation?] at hsplit
      split at hsplit
      · split at hsplit
        · cases hsplit
          exact ⟨quote, _, by simpa using hquote, rfl⟩
        · cases hsplit
      · cases hsplit
    · cases hsplit

/-- An aligned scanner cuts the source at boundaries. -/
theorem Aligned.cutsText (h : s.Aligned source) : s.CutsText source where
  remainder := by
    rcases h with ⟨before, hsource, hposition⟩
    refine Covers.slice?_eq ⟨before, [], by rw [List.append_nil, hsource], ?_⟩
    rw [hposition, ← Source.byteSize_append, ← hsource]
  behindIndentation := slice?_behindIndentation s.rest
  word {role text rest} hfirst := by
    refine Covers.slice?_eq ⟨[], rest, (first?_append hfirst).1, ?_⟩
    rw [Source.byteSize_nil, Nat.zero_add]
  string {text rest} hfirst := by
    obtain ⟨quote, inside, hquotes, htext⟩ := eq_of_first?_string hfirst
    have hquote : quote.utf8Size = 1 := by rcases hquotes with rfl | rfl <;> rfl
    have hsize : Source.byteSize text = Source.byteSize inside + 2 := by
      rw [htext, List.cons_append, Source.byteSize_cons, Source.byteSize_append,
        Source.byteSize_cons, Source.byteSize_nil, hquote]
      omega
    have hinside : text.tail.dropLast = inside := by simp [htext]
    refine ⟨by omega, ?_⟩
    rw [hinside]
    refine Covers.slice?_eq ⟨[quote], quote :: rest, ?_, ?_⟩
    · rw [(first?_append hfirst).1, htext]
      simp
    · rw [Source.byteSize_cons, Source.byteSize_nil, hquote, hsize]
      exact congrArg (Span.mk 1) (by omega)

/-- Wherever the scan of a source gets to, it is at its position. -/
theorem Reaches.aligned (h : Reaches source s) : s.Aligned source := by
  induction h with
  | start => exact ⟨[], rfl, rfl⟩
  | step _ _ goesOn ih =>
    exact step_keeps (P := Aligned source) (fun h _ => h.startLine) (fun h _ => aligned_read h) ih
      goesOn

/-- Wherever the scan of a source gets to, what it cuts off is there. -/
theorem Reaches.cutsText (h : Reaches source s) : s.CutsText source := h.aligned.cutsText

/-! ## Refusals -/

/-- What is refused at a place where the source can be cut is refused with a location. -/
theorem refused_of_refuseAt {α : Type} {position : Nat} {cause : Cause} {failure : Failure}
    (hcuts : Cuts source position)
    (h : (Outcome.refuseAt source position cause : Outcome α) = .error failure) :
    ∃ diagnostic, failure = .refused diagnostic := by
  obtain ⟨location, hrefused⟩ := refuseAt_of_cuts (α := α) hcuts cause
  rw [hrefused] at h
  cases h
  exact ⟨_, rfl⟩

/-- The start of a line fails by a refusal alone. -/
theorem refused_of_startLine (haligned : s.Aligned source) {failure : Failure}
    (h : s.startLine source = .error failure) : ∃ diagnostic, failure = .refused diagnostic := by
  simp only [startLine] at h
  split at h
  · cases h
  · split at h
    · cases h
    · refine refused_of_refuseAt ?_ h
      rw [indentTo_eq]
      rcases haligned.covers_indentation with ⟨before, after, hsource, hspan⟩
      refine ⟨before ++ s.rest.takeWhile isIndentation, after, by simp [hsource], ?_⟩
      rw [Source.byteSize_append]
      exact congrArg Span.stop hspan

/-- So does a reading. -/
theorem refused_of_readOne (haligned : s.Aligned source) {failure : Failure}
    (h : s.readOne source = .error failure) : ∃ diagnostic, failure = .refused diagnostic := by
  unfold readOne at h
  split at h
  · nomatch h
  · exact refused_of_refuseAt haligned.cuts h

/-- So does a step. -/
theorem refused_of_step (haligned : s.Aligned source) {failure : Failure}
    (h : s.step source = .error failure) : ∃ diagnostic, failure = .refused diagnostic := by
  unfold step at h
  split at h
  · cases hline : s.startLine source with
    | error other =>
      rw [hline] at h
      cases h
      exact refused_of_startLine haligned hline
    | ok middle =>
      rw [hline] at h
      exact refused_of_readOne (haligned.startLine hline) h
  · exact refused_of_readOne haligned h

/-- A scan that does not succeed is refused. -/
theorem refused_of_scan (haligned : s.Aligned source) {failure : Failure}
    (h : scan source s = .error failure) : ∃ diagnostic, failure = .refused diagnostic := by
  induction hlength : s.rest.length using Nat.strongRecOn generalizing s with
  | ind length ih =>
    subst hlength
    by_cases hne : s.rest = []
    · rw [scan_nil hne] at h
      nomatch h
    · rw [scan_step hne] at h
      cases hstep : s.step source with
      | error other =>
        rw [hstep] at h
        cases h
        exact refused_of_step haligned hstep
      | ok next =>
        rw [hstep] at h
        have haligned' : next.Aligned source := step_keeps (P := Aligned source)
          (fun h _ => h.startLine) (fun h _ => aligned_read h) haligned hstep
        exact ih _ (length_lt_of_step hstep) haligned' h rfl

/-! ## Spans -/

/-- The tokens so far cover texts of the source, and the words one behind the other, up to the
place of the scanner. -/
structure Spanned (source : Source) (s : Scanner) : Prop where
  aligned : s.Aligned source
  covers : ∀ token ∈ s.tokens, ∃ text, Covers source token.span text
  behind : ∀ token ∈ s.tokens, token.kind.isLayout = false → token.span.stop ≤ s.position
  ordered : (s.tokens.filter fun token => !token.kind.isLayout).Pairwise fun newer older =>
    older.span.stop ≤ newer.span.start

/-- A scanner starts without tokens. -/
theorem spanned_start (source : Source) : (Scanner.start source).Spanned source where
  aligned := ⟨[], rfl, rfl⟩
  covers := nofun
  behind := nofun
  ordered := .nil

/-- The start of a line adds only layout, which covers the indentation or nothing. -/
theorem tokens_of_startLine (haligned : s.Aligned source) (h : s.startLine source = .ok t) :
    ∃ added, t.tokens = added ++ s.tokens ∧ ∀ token ∈ added, token.kind.isLayout = true ∧
      ∃ text, Covers source token.span text := by
  rcases eq_indentTo_of_startLine h with rfl | ⟨-, rfl⟩
  · exact ⟨[], rfl, nofun⟩
  · have hcovers := haligned.covers_indentation
    generalize (s.rest.takeWhile isIndentation).length = width at hcovers ⊢
    obtain ⟨-, -, -, htokens⟩ | ⟨count, -, -, htokens⟩ := indentTo_cases s.inside width
    · exact ⟨[_], htokens, List.forall_mem_singleton.mpr ⟨rfl, _, hcovers⟩⟩
    · refine ⟨_, htokens, fun token htoken => ?_⟩
      rw [List.eq_of_mem_replicate htoken]
      exact ⟨rfl, _, hcovers.cuts_stop.covers_empty⟩

/-- The tokens that start a line have spans in the source. -/
theorem Spanned.startLine (h : s.Spanned source) (hline : s.startLine source = .ok t) :
    t.Spanned source := by
  obtain ⟨added, htokens, hadded⟩ := tokens_of_startLine h.aligned hline
  have hposition : t.position = s.position := by
    rcases eq_of_startLine hline with rfl | ⟨width, rfl⟩
    · rfl
    · rw [indentTo_eq]
  have hwords : (added.filter fun token => !token.kind.isLayout) = [] := by
    rw [List.filter_eq_nil_iff]
    intro token htoken
    simp [(hadded token htoken).1]
  refine ⟨h.aligned.startLine hline, ?_, ?_, ?_⟩
  · rw [htokens, List.forall_mem_append]
    exact ⟨fun token htoken => (hadded token htoken).2, h.covers⟩
  · rw [htokens, List.forall_mem_append, hposition]
    refine ⟨fun token htoken hword => ?_, h.behind⟩
    exact absurd (hword.symm.trans (hadded token htoken).1) nofun
  · rw [htokens, List.filter_append, hwords, List.nil_append]
    exact h.ordered

/-- So have those that are read. -/
theorem Spanned.read (h : s.Spanned source)
    (hfirst : Pattern.first? s.rest = some (role, text, rest)) :
    (s.read role text rest).Spanned source := by
  have haligned := aligned_read h.aligned hfirst
  have hposition : (s.read role text rest).position = s.position + Source.byteSize text := rfl
  have hbehind : ∀ token ∈ s.tokens, token.kind.isLayout = false →
      token.span.stop ≤ (s.read role text rest).position := fun token htoken hword =>
    Nat.le_add_right_of_le (h.behind token htoken hword)
  rcases tokens_of_read s role text rest with htokens | ⟨token, hspan, htokens⟩
  · exact ⟨haligned, htokens ▸ h.covers, htokens ▸ hbehind, htokens ▸ h.ordered⟩
  · refine ⟨haligned, ?_, ?_, ?_⟩
    · rw [htokens, List.forall_mem_cons, hspan]
      exact ⟨⟨_, covers_of_first? h.aligned hfirst⟩, h.covers⟩
    · rw [htokens, List.forall_mem_cons, hspan]
      exact ⟨fun _ => Nat.le_refl _, hbehind⟩
    · rw [htokens]
      cases hlayout : token.kind.isLayout with
      | true =>
        rw [List.filter_cons_of_neg (by simp [hlayout])]
        exact h.ordered
      | false =>
        rw [List.filter_cons_of_pos (by simp [hlayout])]
        refine .cons (fun older holder => ?_) h.ordered
        rw [List.mem_filter] at holder
        rw [hspan]
        exact h.behind older holder.1 (by simpa using holder.2)

end Scanner

/-! ## Token lists -/

/-- A source without tokens is refused. -/
theorem refused_of_tokenize {source : Source} {failure : Failure}
    (h : tokenize source = .error failure) : ∃ diagnostic, failure = .refused diagnostic := by
  rw [tokenize_eq_scan] at h
  cases hscan : Scanner.scan source (Scanner.start source) with
  | error other =>
    rw [hscan] at h
    cases h
    exact Scanner.refused_of_scan (Scanner.atLine_start source).aligned hscan
  | ok last =>
    rw [hscan] at h
    nomatch h

/-- The tokens of a source are those of a scanner whose tokens cover texts of it. -/
theorem exists_spanned_of_tokenize {source : Source} {tokens : List Token}
    (h : tokenize source = .ok tokens) :
    ∃ last : Scanner, last.Spanned source ∧ tokens = last.finish (Source.byteSize source) := by
  unfold tokenize at h
  cases hrun : Scanner.run source source.length (.start source) with
  | error failure =>
    rw [hrun] at h
    nomatch h
  | ok last =>
    rw [hrun] at h
    cases h
    exact ⟨last, Scanner.run_keeps (fun h _ => h.startLine) (fun h _ => h.read)
      (Scanner.spanned_start source) hrun, rfl⟩

/-- Every token of a source covers a text of it. -/
theorem tokenize_covers {source : Source} {tokens : List Token} (h : tokenize source = .ok tokens) :
    ∀ token ∈ tokens, ∃ text, Covers source token.span text := by
  obtain ⟨last, hlast, rfl⟩ := exists_spanned_of_tokenize h
  have hend : Covers source (.empty (Source.byteSize source)) [] :=
    Cuts.covers_empty ⟨source, [], (List.append_nil source).symm, rfl⟩
  rw [Scanner.finish_eq]
  intro token htoken
  simp only [List.mem_append, List.mem_reverse, List.mem_map, List.mem_singleton] at htoken
  rcases htoken with ((hread | hline) | ⟨-, -, rfl⟩) | rfl
  · exact hlast.covers token hread
  · split at hline
    · nomatch hline
    · exact List.mem_singleton.mp hline ▸ ⟨[], hend⟩
  · exact ⟨[], hend⟩
  · exact ⟨[], hend⟩

/-- Every word of a source stands behind the one before it. -/
theorem tokenize_ordered {source : Source} {tokens : List Token}
    (h : tokenize source = .ok tokens) :
    (wordsOf tokens).Pairwise fun earlier later => earlier.span.stop ≤ later.span.start := by
  rw [wordsOf_eq_filter h]
  obtain ⟨last, hlast, rfl⟩ := exists_spanned_of_tokenize h
  -- what is added at the end of the source is no word
  have hwords : ((last.finish (Source.byteSize source)).filter
      fun token => token.kind ≠ .eof && !token.kind.isLayout) =
      last.tokens.reverse.filter fun token => token.kind ≠ .eof && !token.kind.isLayout := by
    rw [Scanner.finish_eq]
    cases last.isClosed <;>
      simp [List.filter_append, Token.newline, Token.dedent, Token.eof, TokenKind.isLayout]
  rw [hwords, List.filter_reverse, List.pairwise_reverse, ← List.filter_filter]
  exact hlast.ordered.filter _

end Offside
