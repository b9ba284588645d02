import Offside.Proofs.Layout.Scans
import Offside.Proofs.Writing.Words
import Mathlib.Data.List.Forall2

/-!
# Scanning written words

In a text, words stand directly behind one another or with a blank between them.  If each of them
ends where the next one begins, the scanner reads one token for each word, and ends the line behind
them.

Main definitions:

- `TokenOf`: a token is that of a word in a source.
- `Renders`: a text is made up of words, each of which is read as such where it stands.

Main results:

- Theorem `tokenize_renders`: the tokens of a text that is made up of words.
- Theorem `tokenize_line`: the tokens of words on one line, with single blanks between them.
- Theorem `tokenize_stuck`: a source in which no token starts behind its first word is refused there.
-/

namespace Offside

/-- A token is that of a word in a source: it has the kind of the word and covers it. -/
def TokenOf (source : Source) (word : String) (token : Token) : Prop :=
  Readable word token.kind ∧ Covers source token.span word.toList

/-- The token of a readable word is of its kind. -/
theorem TokenOf.kind_eq {source : Source} {word : String} {token : Token} {kind : TokenKind}
    (h : TokenOf source word token) (hword : Readable word kind) : token.kind = kind :=
  h.1.kind_unique hword

/-! ## Texts -/

/-- A text is made up of words.  Each of them is read as such in front of what follows, and what
follows starts with a word, or with a blank and a word. -/
inductive Renders : List String → Source → Prop where
  | nil : Renders [] []
  | word {word : String} {kind : TokenKind} {words : List String} {text : Source}
      (isWord : Readable word kind) (reads : ReadsBefore word kind text)
      (more : Renders words text) : Renders (word :: words) (word.toList ++ text)
  | blank {words : List String} {text : Source}
      (starts : ∀ c ∈ text.head?, Shape.isSpace c = false) (more : Renders words text) :
      Renders words (' ' :: text)

/-- A line of one word is this word. -/
@[simp]
theorem line_singleton (word : String) : line [word] = word.toList := by
  simp [line]

/-- Between two words there is a blank. -/
@[simp]
theorem line_cons_cons (word next : String) (more : List String) :
    line (word :: next :: more) = word.toList ++ ' ' :: line (next :: more) := by
  simp [line, List.intercalate]

/-- The line of some words starts like its first word. -/
theorem line_starts {word : String} {kind : TokenKind} (h : Readable word kind)
    (more : List String) : ∃ first rest, line (word :: more) = first :: rest ∧
      first ∉ [' ', '\t', '\r', '\n', '#'] := by
  rcases h.starts with ⟨first, rest, hword, hfirst⟩
  cases more with
  | nil => exact ⟨first, rest, by rw [line_singleton, hword], hfirst⟩
  | cons next more =>
    refine ⟨first, rest ++ ' ' :: line (next :: more), ?_, hfirst⟩
    rw [line_cons_cons, hword, List.cons_append]

/-- What starts no word is no blank. -/
theorem isSpace_eq_false {c : Char} (h : c ∉ [' ', '\t', '\r', '\n', '#']) :
    Shape.isSpace c = false := by
  simp only [List.mem_cons, List.not_mem_nil, or_false, not_or] at h
  simp [Shape.isSpace, h]

/-- The line of words is made up of them. -/
theorem renders_line {words : List String} (hreadable : AllReadable words) :
    Renders words (line words) := by
  induction words with
  | nil => exact .nil
  | cons word more ih =>
    obtain ⟨kind, hword⟩ := hreadable word List.mem_cons_self
    have hmore := ih fun other hother => hreadable other (List.mem_cons_of_mem _ hother)
    cases more with
    | nil =>
      rw [line_singleton, ← List.append_nil word.toList]
      exact .word hword (hword.readsBefore ends_nil) .nil
    | cons next more =>
      obtain ⟨kind', hnext⟩ := hreadable next (List.mem_cons_of_mem _ List.mem_cons_self)
      obtain ⟨first, rest, hline, hfirst⟩ := line_starts hnext more
      rw [line_cons_cons]
      refine .word hword (hword.readsBefore (ends_cons (by decide) _)) (.blank ?_ hmore)
      rw [hline]
      rintro c ⟨rfl⟩
      exact isSpace_eq_false hfirst

/-! ## Steps -/

namespace Scanner

variable {source text rest : Source} {s : Scanner} {words : List String}

/-- The scanner behind a piece of the source. -/
def behind (s : Scanner) (text rest : Source) : Scanner :=
  { s with position := s.position + Source.byteSize text, rest := rest }

/-- What is read in two pieces may be read in one. -/
theorem behind_behind (s : Scanner) (text text' rest rest' : Source) :
    (s.behind text rest).behind text' rest' = s.behind (text ++ text') rest' := by
  simp [behind, Source.byteSize_append, Nat.add_assoc]

/-- Behind a text that is read the scanner is aligned. -/
theorem aligned_behind (haligned : s.Aligned source) (hrest : s.rest = text ++ rest) :
    (s.behind text rest).Aligned source := by
  obtain ⟨before, hsource, hposition⟩ := haligned
  refine ⟨before ++ text, ?_, ?_⟩
  · rw [hsource, hrest, List.append_assoc]
    rfl
  · rw [Source.byteSize_append, ← hposition]
    rfl

/-- What is passed over on a line leaves the tokens as they are. -/
theorem scan_skipped (hstart : s.atLineStart = false)
    (h : Pattern.first? s.rest = some (.skipped, text, rest)) :
    scan source s = scan source (s.behind text rest) :=
  scan_read hstart h

/-- Indentation is blank. -/
theorem isSpace_of_isIndentation {c : Char} (h : isIndentation c = true) :
    Shape.isSpace c = true := by
  simp only [isIndentation, Bool.or_eq_true, decide_eq_true_eq] at h
  rcases h with rfl | rfl <;> rfl

/-- Blanks and tabs in front of something else are passed over. -/
theorem scan_indentation {indentation : Source} (hstart : s.atLineStart = false)
    (hindents : ∀ c ∈ indentation, isIndentation c = true)
    (hends : ∀ c ∈ rest.head?, Shape.isSpace c = false) (hrest : s.rest = indentation ++ rest) :
    scan source s = scan source (s.behind indentation rest) := by
  cases indentation with
  | nil =>
    rw [List.nil_append] at hrest
    rw [behind, ← hrest]
    rfl
  | cons first more =>
    obtain ⟨hfirst, hmore⟩ := List.forall_mem_cons.mp hindents
    have hspaces : ∀ c ∈ more, Shape.isSpace c = true :=
      fun c hc => isSpace_of_isIndentation (hmore c hc)
    have hnone := splits_nothing hends
    have hblank : first = ' ' ∨ first = '\t' := by simpa [isIndentation] using hfirst
    have hreads : Pattern.first? (first :: (more ++ rest)) = some (.skipped,
        first :: (more ++ rest).takeWhile Shape.isSpace, (more ++ rest).dropWhile Shape.isSpace) :=
      first?_blanks hblank
    rw [List.takeWhile_append_of_pos hspaces, List.dropWhile_append_of_pos hspaces, hnone.1,
      hnone.2, List.append_nil] at hreads
    exact scan_skipped hstart (hrest ▸ hreads)

/-- Reading a word adds one token. -/
theorem read_word {role : Role} {word : String} {kind : TokenKind}
    (hkind : role.kind? word = some kind) (s : Scanner) (rest : Source) :
    ∃ text, s.read role word.toList rest = (s.push ⟨kind, text,
      ⟨s.position, s.position + Source.byteSize word.toList⟩⟩).behind word.toList rest := by
  cases role with
  | lineBreak | skipped => nomatch hkind
  | word =>
    simp only [Role.kind?, Option.some.injEq] at hkind
    refine ⟨word, ?_⟩
    simp only [read, emit, String.ofList_toList, hkind]
    rfl
  | number | string | mark other =>
    simp only [Role.kind?, Option.some.injEq] at hkind
    subst hkind
    exact ⟨_, rfl⟩

/-- A word gives one token. -/
theorem scan_word {word : String} {kind : TokenKind} (hword : Readable word kind)
    (haligned : s.Aligned source) (hstart : s.atLineStart = false)
    (hreads : ReadsBefore word kind rest) (hrest : s.rest = word.toList ++ rest) :
    ∃ token, TokenOf source word token ∧
      scan source s = scan source ((s.push token).behind word.toList rest) := by
  obtain ⟨role, hfirst, hkind⟩ := hreads
  obtain ⟨text, hread⟩ := read_word hkind s rest
  obtain ⟨before, hsource, hposition⟩ := haligned
  refine ⟨⟨kind, text, ⟨s.position, s.position + Source.byteSize word.toList⟩⟩,
    ⟨hword, before, rest, by rw [hsource, hrest], by rw [hposition]⟩, ?_⟩
  rw [scan_read hstart (hrest ▸ hfirst), hread]

/-! ## Runs -/

/-- A text that is made up of words gives one token for each of them. -/
theorem scan_renders (h : Renders words text) (haligned : s.Aligned source)
    (hstart : s.atLineStart = false) (hrest : s.rest = text) :
    ∃ tokens t, scan source s = .ok t ∧ t.tokens = tokens.reverse ++ s.tokens ∧
      t.blocks = s.blocks ∧ List.Forall₂ (TokenOf source) words tokens := by
  induction h generalizing s with
  | nil => exact ⟨[], s, scan_nil hrest, rfl, rfl, .nil⟩
  | @word word kind words text isWord reads more ih =>
    obtain ⟨token, htoken, hscan⟩ := scan_word isWord haligned hstart reads hrest
    have haligned' : ((s.push token).behind word.toList text).Aligned source :=
      aligned_behind haligned hrest
    obtain ⟨tokens, t, ht, htokens, hblocks, hall⟩ := ih haligned' hstart rfl
    refine ⟨token :: tokens, t, hscan.trans ht, ?_, hblocks, .cons htoken hall⟩
    rw [htokens, List.reverse_cons, List.append_assoc]
    rfl
  | @blank words text starts more ih =>
    have hskip : scan source s = scan source (s.behind [' '] text) :=
      scan_indentation hstart (List.forall_mem_singleton.mpr rfl) starts hrest
    have haligned' : (s.behind [' '] text).Aligned source := aligned_behind haligned hrest
    obtain ⟨tokens, t, ht, htokens, hblocks, hall⟩ := ih haligned' hstart rfl
    exact ⟨tokens, t, hskip.trans ht, htokens, hblocks, hall⟩

/-- A source that starts with a word opens no block. -/
theorem scan_start {first : Char} (hsource : source = first :: rest)
    (hfirst : first ∉ [' ', '\t', '\r', '\n', '#']) :
    scan source (start source) = scan source (start source).inside := by
  simp only [List.mem_cons, List.not_mem_nil, or_false, not_or] at hfirst
  obtain ⟨hblank, htab, hreturn, hbreak, hhash⟩ := hfirst
  have hindent : isIndentation first = false := by
    simp [isIndentation, hblank, htab]
  have hdrop : source.dropWhile isIndentation = source := by
    rw [hsource, List.dropWhile_cons_of_neg (by simp [hindent])]
  have htake : source.takeWhile isIndentation = [] := by
    rw [hsource, List.takeWhile_cons_of_neg (by simp [hindent])]
  have hnot : isBlankLine source = false := by
    simp [hsource, isBlankLine, hbreak, hreturn, hhash]
  have hline : (start source).startLine source = .ok (start source).inside := by
    simp [startLine, start, inside, hdrop, htake, hnot, indentTo, width]
  rw [scan_startLine rfl (by simp [start, hsource]), hline]
  rfl

/-- Behind words, no line is closed. -/
theorem isClosed_of_words {tokens before : List Token}
    (hwords : List.Forall₂ (TokenOf source) words tokens) (hne : words ≠ [])
    (htokens : s.tokens = tokens.reverse ++ before) : s.isClosed = false := by
  have hreverse := List.forall₂_reverse_iff.mpr hwords
  obtain ⟨token, more, hlast⟩ : ∃ token more, tokens.reverse = token :: more := by
    refine List.exists_cons_of_ne_nil fun hnil => hne ?_
    rw [hnil, List.forall₂_nil_right_iff, List.reverse_eq_nil_iff] at hreverse
    exact hreverse
  rw [hlast, List.forall₂_cons_right_iff] at hreverse
  obtain ⟨word, -, htoken, -, -⟩ := hreverse
  rw [isClosed, lastKind?, htokens, hlast]
  simpa using htoken.1.notNewline

end Scanner

/-! ## Token lists -/

/-- A text that is made up of words and starts with one gives one token for each of them, and then
the end of the line and of the file. -/
theorem tokenize_renders {words : List String} {text : Source} (h : Renders words text)
    (hwords : words ≠ []) {first : Char} {rest : Source} (htext : text = first :: rest)
    (hfirst : first ∉ [' ', '\t', '\r', '\n', '#']) :
    ∃ tokens lineEnd fileEnd, tokenize text = .ok (tokens ++ [lineEnd, fileEnd]) ∧
      lineEnd.kind = .newline ∧ fileEnd.kind = .eof ∧
      List.Forall₂ (TokenOf text) words tokens := by
  have haligned : (Scanner.start text).inside.Aligned text := ⟨[], rfl, rfl⟩
  obtain ⟨tokens, t, hscan, htokens, hblocks, hall⟩ := Scanner.scan_renders h haligned rfl rfl
  have hopen : t.isClosed = false := Scanner.isClosed_of_words hall hwords htokens
  refine ⟨tokens, .newline (.empty (Source.byteSize text)), .eof (Source.byteSize text), ?_, rfl,
    rfl, hall⟩
  rw [tokenize_eq_scan, Scanner.scan_start htext hfirst, hscan, Except.bind, Scanner.finish_eq,
    htokens, hblocks, hopen]
  simp [Scanner.start, Scanner.inside]

/-- Words on one line give one token each, and then the end of the line and of the file. -/
theorem tokenize_line {words : List String} (hwords : words ≠ [])
    (hreadable : AllReadable words) :
    ∃ tokens lineEnd fileEnd, tokenize (line words) = .ok (tokens ++ [lineEnd, fileEnd]) ∧
      lineEnd.kind = .newline ∧ fileEnd.kind = .eof ∧
      List.Forall₂ (TokenOf (line words)) words tokens := by
  obtain ⟨word, more, rfl⟩ := List.exists_cons_of_ne_nil hwords
  obtain ⟨kind, hword⟩ := hreadable word List.mem_cons_self
  obtain ⟨first, rest, hline, hfirst⟩ := line_starts hword more
  exact tokenize_renders (renders_line hreadable) hwords hline hfirst

/-- Behind a word of letters, digits and underscores at its start, a source goes on with a sign that
starts no token: it is refused at this sign. -/
theorem tokenize_stuck {word : String} {first : Char} {more : List Char} {sign : Char}
    {rest : Source} (hword : word.toList = first :: more)
    (hfirst : Shape.startsWord first = true) (hmore : ∀ c ∈ more, Shape.continuesWord c = true)
    (hsign : Shape.continuesWord sign = false) (hstuck : Pattern.first? (sign :: rest) = none) :
    tokenize (word.toList ++ sign :: rest) =
      .error (.refused ⟨.unrecognisedToken (String.ofList [sign]),
        Source.locationBetween word.toList (sign :: rest)⟩) := by
  have hplain : first ∉ [' ', '\t', '\r', '\n', '#'] := by
    intro hmem
    simp only [List.mem_cons, List.not_mem_nil, or_false] at hmem
    rcases hmem with rfl | rfl | rfl | rfl | rfl <;> exact absurd hfirst (by decide)
  have hstart : word.toList ++ sign :: rest = first :: (more ++ sign :: rest) := by
    rw [hword, List.cons_append]
  have hreads : Pattern.first? (Scanner.start (word.toList ++ sign :: rest)).inside.rest =
      some (.word, word.toList, sign :: rest) :=
    first?_word hword hfirst hmore (by simpa using hsign)
  let behind := (Scanner.start (word.toList ++ sign :: rest)).inside.read .word word.toList
    (sign :: rest)
  have hscan : Scanner.scan (word.toList ++ sign :: rest) behind =
      .error (.refused ⟨.unrecognisedToken (String.ofList [sign]),
        Source.locationBetween word.toList (sign :: rest)⟩) :=
    Scanner.scan_stuck rfl (Nat.zero_add _) rfl (List.cons_ne_nil _ _) hstuck
  rw [tokenize_eq_scan, Scanner.scan_start hstart hplain, Scanner.scan_read rfl hreads, hscan]
  rfl

end Offside
