import Offside.Proofs.Layout.Scans
import Offside.Proofs.Syntax.Phrases

/-!
# Tokens as they are written

A token says what the source has at its place: its span covers its text, and the text is one
that its kind may have.

Main definitions:

- `TokenKind.lexeme?`: the text of the tokens of a kind, where all have the same.
- `Token.WrittenIn`: a token says what a source has at its place.

Main results:

- Theorem `tokenize_written`: the words of a source are written in it.
-/

namespace Offside

/-! ## Spelling -/

/-- The text of the tokens of a kind, where all have the same. -/
def TokenKind.lexeme? : TokenKind → Option String
  | .openBracket => some "["
  | .closeBracket => some "]"
  | .openCurly => some "\x7b"
  | .closeCurly => some "\x7d"
  | .openParen => some "("
  | .closeParen => some ")"
  | .assignment => some "="
  | .equals => some "=="
  | .notEquals => some "!="
  | .less => some "<"
  | .lessEquals => some "<="
  | .greater => some ">"
  | .greaterEquals => some ">="
  | .dot => some "."
  | .colon => some ":"
  | .comma => some ","
  | .arrow => some "->"
  | .plus => some "+"
  | .dash => some "-"
  | .star => some "*"
  | .doubleSlash => some "//"
  | .percent => some "%"
  | kind => (reservedWords.find? fun entry => entry.2 = kind).map Prod.fst

/-- A token says what a source has at its place.  The text of a string is without its quotes. -/
structure Token.WrittenIn (source : Source) (token : Token) : Prop where
  covers : token.kind ≠ .string → Covers source token.span token.text.toList
  lexeme : ∀ text, token.kind.lexeme? = some text → token.text = text
  name : token.kind = .identifier → ∀ c ∈ token.text.toList, Shape.continuesWord c = true
  notEnd : token.kind ≠ .eof

section Reading

variable {source text rest : Source} {role : Role} {kind : TokenKind}

/-- A mark is read where its text stands. -/
theorem lexeme?_of_first?_mark (h : Pattern.first? source = some (.mark kind, text, rest)) :
    kind.lexeme? = some (String.ofList text) := by
  rcases exists_pattern h with ⟨⟨shape, role⟩, hmem, rfl, hsplit⟩
  have hmarks : ∀ pattern ∈ Pattern.table, ∀ kind, pattern.role = .mark kind →
      ∃ text, pattern.shape = .exact text ∧ kind.lexeme? = some (String.ofList text) := by
    simp [Pattern.table, Pattern.ofMark, TokenKind.lexeme?]
  rcases hmarks _ hmem kind rfl with ⟨written, rfl, hlexeme⟩
  unfold Shape.split? at hsplit
  split at hsplit <;> simp_all

/-- The kind of a word says which word it is, if it is a reserved one. -/
theorem eq_of_lexeme?_ofWord {word text : String}
    (h : (TokenKind.ofWord word).lexeme? = some text) : word = text := by
  have hreserved : ∀ entry ∈ TokenKind.reservedWords, entry.2.lexeme? = some entry.1 := by decide
  rw [TokenKind.ofWord, TokenKind.ofReserved?] at h
  cases hlookup : TokenKind.reservedWords.lookup word with
  | none =>
    rw [hlookup] at h
    cases h
  | some kind =>
    rw [hlookup] at h
    rcases List.lookup_eq_some_iff.mp hlookup with ⟨before, after, hwords, -⟩
    have hmem : (word, kind) ∈ TokenKind.reservedWords := by simp [hwords]
    exact Option.some.inj ((hreserved _ hmem).symm.trans h)

/-- A word is of no kind but that of the identifiers and those of the reserved words. -/
theorem ofWord_ne {kind : TokenKind} (hname : .identifier ≠ kind)
    (hreserved : kind.isReserved = false) (word : String) : TokenKind.ofWord word ≠ kind := by
  rw [TokenKind.ofWord, TokenKind.ofReserved?]
  cases hlookup : TokenKind.reservedWords.lookup word with
  | none => exact hname
  | some found =>
    rcases List.lookup_eq_some_iff.mp hlookup with ⟨before, after, hwords, -⟩
    rw [TokenKind.isReserved, List.any_eq_false] at hreserved
    simpa using hreserved (word, found) (by simp [hwords])

/-- No word is the end of the file. -/
theorem ofWord_ne_eof (word : String) : TokenKind.ofWord word ≠ .eof :=
  ofWord_ne (by decide) (by decide) word

/-- A word is made of letters, digits and underscores. -/
theorem continuesWord_of_first? (h : Pattern.first? source = some (.word, text, rest)) :
    ∀ c ∈ text, Shape.continuesWord c = true := by
  rcases exists_pattern h with ⟨⟨shape, role⟩, hmem, rfl, hsplit⟩
  have hword : ∀ pattern ∈ Pattern.table, pattern.role = .word → pattern.shape = .word := by
    decide
  cases hword _ hmem rfl
  cases source with
  | nil => cases hsplit
  | cons first more =>
    simp only [Shape.split?] at hsplit
    split at hsplit
    · next hstarts =>
      cases hsplit
      intro c hc
      rcases List.mem_cons.mp hc with rfl | hmore
      · simp only [Shape.startsWord, Shape.continuesWord, Char.isAlphanum, Bool.or_eq_true] at *
        exact hstarts.imp_left .inl
      · exact List.all_eq_true.mp List.all_takeWhile c hmore
    · cases hsplit

end Reading

namespace Scanner

variable {source text rest : Source} {role : Role} {s t : Scanner}

/-! ## Steps -/

/-- All words so far are written in the source. -/
def Writes (source : Source) (s : Scanner) : Prop :=
  ∀ token ∈ s.tokens, token.kind.isLayout = false → token.WrittenIn source

theorem Writes.push {token : Token} (h : s.Writes source)
    (htoken : token.kind.isLayout = false → token.WrittenIn source) :
    (s.push token).Writes source := by
  intro other hother
  rcases List.mem_cons.mp hother with rfl | hmem
  · exact htoken
  · exact h other hmem

/-- The layout at the start of a line is no word. -/
theorem Writes.indentTo (h : s.Writes source) (width : Nat) :
    (s.indentTo width).Writes source := by
  by_cases hwidth : s.width < width
  · rw [Scanner.indentTo, if_pos hwidth]
    apply Writes.push (s := { s with blocks := width :: s.blocks }) h
    intro hword
    cases hword
  · rw [indentTo_of_le hwidth]
    intro token htoken
    rcases List.mem_append.mp htoken with hdedent | hmem
    · rw [List.eq_of_mem_replicate hdedent]
      intro hword
      cases hword
    · exact h token hmem

theorem Writes.startLine (h : s.Writes source) (hline : s.startLine source = .ok t) :
    t.Writes source := by
  rcases eq_of_startLine hline with rfl | ⟨width, rfl⟩
  · exact h
  · exact Writes.indentTo (s := { s with atLineStart := false }) h width

theorem Aligned.startLine (haligned : s.Aligned source) (hline : s.startLine source = .ok t) :
    t.Aligned source := by
  rcases eq_of_startLine hline with rfl | ⟨width, rfl⟩
  · exact haligned
  · rw [indentTo_eq]
    exact haligned

/-- What is read at a place of the source covers its text. -/
theorem covers_of_first? (haligned : s.Aligned source)
    (h : Pattern.first? s.rest = some (role, text, rest)) :
    Covers source ⟨s.position, s.position + Source.byteSize text⟩ text := by
  rcases haligned with ⟨before, hsource, hposition⟩
  refine ⟨before, rest, ?_, ?_⟩
  · rw [hsource, (first?_append h).1]
  · rw [hposition]

/-- One reading adds at most one word, which is written in the source. -/
theorem Writes.read (hwrites : s.Writes source) (haligned : s.Aligned source)
    (h : Pattern.first? s.rest = some (role, text, rest)) :
    (s.read role text rest).Writes source := by
  have hcovers := covers_of_first? haligned h
  have hlist : (String.ofList text).toList = text := String.toList_ofList
  cases role with
  | word =>
    apply Writes.push hwrites
    intro _
    refine ⟨fun _ => hlist.symm ▸ hcovers, fun _ => eq_of_lexeme?_ofWord, fun _ => ?_,
      ofWord_ne_eof _⟩
    rw [hlist]
    exact continuesWord_of_first? h
  | number =>
    apply Writes.push hwrites
    intro _
    exact ⟨fun _ => hlist.symm ▸ hcovers, by rintro _ ⟨⟩, by rintro ⟨⟩, by rintro ⟨⟩⟩
  | string =>
    apply Writes.push hwrites
    intro _
    exact ⟨fun hkind => absurd rfl hkind, by rintro _ ⟨⟩, by rintro ⟨⟩, by rintro ⟨⟩⟩
  | lineBreak =>
    intro token htoken
    simp only [Scanner.read, emit, endLine] at htoken
    split at htoken
    · split at htoken
      · exact hwrites token htoken
      · exact hwrites token htoken
      · refine Writes.push hwrites ?_ token htoken
        intro hword
        cases hword
    · exact hwrites token htoken
  | skipped => exact hwrites
  | mark kind =>
    have hlexeme := lexeme?_of_first?_mark h
    apply Writes.push hwrites
    intro _
    refine ⟨fun _ => hlist.symm ▸ hcovers, ?_, ?_, ?_⟩
    · intro written hwritten
      exact Option.some.inj (hlexeme.symm.trans hwritten)
    · rintro rfl
      cases hlexeme
    · rintro rfl
      cases hlexeme

/-- All words that a run has read are written in the source. -/
theorem Writes.run {fuel : Nat} (hwrites : s.Writes source) (haligned : s.Aligned source)
    (h : Scanner.run source fuel s = .ok t) : t.Writes source := by
  refine (run_keeps (P := fun s => s.Writes source ∧ s.Aligned source) ?_ ?_
    ⟨hwrites, haligned⟩ h).1
  · rintro s t ⟨hwrites, haligned⟩ - hline
    exact ⟨hwrites.startLine hline, haligned.startLine hline⟩
  · rintro s role text rest ⟨hwrites, haligned⟩ - hfirst
    exact ⟨hwrites.read haligned hfirst, aligned_read haligned hfirst⟩

end Scanner

/-! ## Sources -/

theorem mem_of_mem_wordsOf {tokens : List Token} {token : Token} (h : token ∈ wordsOf tokens) :
    token ∈ tokens ∧ token.kind ≠ .eof ∧ token.kind.isLayout = false := by
  rw [wordsOf, List.mem_filter] at h
  have hend := List.all_eq_true.mp List.all_takeWhile token h.1
  exact ⟨(List.takeWhile_prefix _).subset h.1, by simpa using hend, by simpa using h.2⟩

/-- The last token of a source is the end of the file, and the words before it are written in the
source. -/
theorem tokenize_ends {source : Source} {tokens : List Token} (h : tokenize source = .ok tokens) :
    ∃ front stop, tokens = front ++ [Token.eof stop] ∧
      ∀ token ∈ front, token.kind.isLayout = false → token.WrittenIn source := by
  unfold tokenize at h
  cases hrun : Scanner.run source source.length (.start source) with
  | error failure =>
    rw [hrun] at h
    cases h
  | ok last =>
    rw [hrun] at h
    cases h
    have hwrites : last.Writes source := Scanner.Writes.run (s := .start source) nofun
      ⟨[], rfl, rfl⟩ hrun
    rw [Scanner.finish_eq]
    refine ⟨_, _, rfl, fun token hmem hlayout => ?_⟩
    simp only [List.mem_append, List.mem_reverse, List.mem_map] at hmem
    rcases hmem with (hread | hline) | ⟨-, -, rfl⟩
    · exact hwrites token hread hlayout
    · split at hline
      · cases hline
      · rw [List.mem_singleton.mp hline] at hlayout
        cases hlayout
    · cases hlayout

/-- The words of a source are written in it. -/
theorem tokenize_written {source : Source} {tokens : List Token}
    (h : tokenize source = .ok tokens) : ∀ token ∈ wordsOf tokens, token.WrittenIn source := by
  intro token htoken
  obtain ⟨hmem, hend, hlayout⟩ := mem_of_mem_wordsOf htoken
  rcases tokenize_ends h with ⟨front, stop, rfl, hfront⟩
  rcases List.mem_append.mp hmem with hbefore | hlast
  · exact hfront token hbefore hlayout
  · rw [List.mem_singleton.mp hlast] at hend
    exact absurd rfl hend

/-- The words of a source are all its tokens but for layout and the end of the file. -/
theorem wordsOf_eq_filter {source : Source} {tokens : List Token}
    (h : tokenize source = .ok tokens) :
    wordsOf tokens = tokens.filter fun token => token.kind ≠ .eof && !token.kind.isLayout := by
  rcases tokenize_ends h with ⟨front, stop, rfl, hfront⟩
  have hall : ∀ token ∈ front, decide (token.kind ≠ .eof) = true := by
    intro token htoken
    cases hlayout : token.kind.isLayout with
    | false => exact decide_eq_true (hfront token htoken hlayout).notEnd
    | true =>
      refine decide_eq_true fun hend => ?_
      rw [hend] at hlayout
      cases hlayout
  have hlast : [Token.eof stop].takeWhile (fun token => decide (token.kind ≠ .eof)) = [] := rfl
  have hnone : [Token.eof stop].filter
      (fun token => token.kind ≠ .eof && !token.kind.isLayout) = [] := rfl
  rw [wordsOf, List.takeWhile_append_of_pos hall, hlast, List.append_nil, List.filter_append, hnone,
    List.append_nil]
  exact List.filter_congr fun token htoken => by rw [hall token htoken, Bool.true_and]

end Offside
