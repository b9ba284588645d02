import Mathlib.Data.List.Forall2
import Offside.Proofs.Abreast
import Offside.Proofs.Layout.LineEnds
import Offside.Proofs.Text.Around

/-!
# The same lines in two sources

Two sources that begin with the same lines are scanned in step as far as these lines go: no piece
goes beyond the end of its line, so that what follows makes no difference.  The positions may
differ, and so may what has been read before; the scanners only have to be in the same state.

Main definitions:

- `Scanner.Echoes`: two scanners have read the same words and are in the same state.
- `Scanner.InStep`: two runs go on to scanners that go together, or are refused for the same cause.

Main results:

- Theorem `first?_append_line`: what the first lines of a source begin with does not depend on
  the others.
- Theorem `Scanner.Resembles.inStep_lines`: from scanners in the same state on, the runs through
  the same lines go in step.
-/

namespace Offside

open Source (byteSize)

variable {source source' text rest more more' : Source} {role : Role}

/-- A text is empty or ends with a line feed. -/
def WholeLines (text : Source) : Prop := text = [] ∨ ∃ lines, text = lines ++ ['\n']

/-! ## What is read from a line -/

/-- A word without a character begins a text up to this character, or not at all. -/
theorem isPrefixOf_append_cons {c : Char} {word : List Char} (hc : c ∉ word)
    (before after : List Char) :
    word.isPrefixOf (before ++ c :: after) = word.isPrefixOf before := by
  induction word generalizing before with
  | nil => rfl
  | cons first word ih =>
    rw [List.mem_cons, not_or] at hc
    cases before with
    | nil => simp [List.isPrefixOf, Ne.symm hc.1]
    | cons d before => simp only [List.cons_append, List.isPrefixOf, ih hc.2]

/-- What passes at the start of the first lines of a source does not depend on the others. -/
theorem cut_append_line {p : Char → Bool} (hfeed : p '\n' = false)
    (before after : Source) :
    (before ++ '\n' :: after).takeWhile p = (before ++ ['\n']).takeWhile p ∧
      (before ++ '\n' :: after).dropWhile p =
        (before ++ ['\n']).dropWhile p ++ after := by
  simp only [takeWhile_append_cons hfeed, dropWhile_append_cons hfeed, List.append_assoc,
    List.singleton_append, and_self]

/-- What passes without line feeds is split within a line. -/
theorem splitWhile?_append_line {passes : Char → Bool} (hfeed : passes '\n' = false)
    (before after : Source) :
    Shape.splitWhile? passes (before ++ '\n' :: after) =
      (Shape.splitWhile? passes (before ++ ['\n'])).map fun (text, rest) =>
        (text, rest ++ after) := by
  obtain ⟨htake, hdrop⟩ := cut_append_line hfeed before after
  unfold Shape.splitWhile?
  rw [htake, hdrop]
  split <;> rfl

/-- So is a quotation. -/
theorem splitQuotation?_append_line (quote : Char) (before after : Source) :
    Shape.splitQuotation? quote (before ++ '\n' :: after) =
      (Shape.splitQuotation? quote (before ++ ['\n'])).map fun (text, rest) =>
        (text, rest ++ after) := by
  obtain ⟨htake, hdrop⟩ := cut_append_line (p := fun c => c ≠ quote && c ≠ '\n') (by simp)
    before after
  simp only [Shape.splitQuotation?, htake, hdrop, dropWhile_append_cons
    (p := fun c => c ≠ quote && c ≠ '\n') (c := '\n') (by simp) before]
  cases before.dropWhile fun c => c ≠ quote && c ≠ '\n' with
  | nil =>
    simp only [List.nil_append, List.singleton_append]
    split <;> rfl
  | cons c rest =>
    simp only [List.cons_append]
    split
    · simp
    · rfl

/-- What a shape splits off from the first lines of a source does not depend on the others. -/
theorem split?_append_line {shape : Shape} (hshape : ∀ word, shape = .exact word → '\n' ∉ word)
    (before after : Source) :
    shape.split? (before ++ '\n' :: after) =
      (shape.split? (before ++ ['\n'])).map fun (text, rest) => (text, rest ++ after) := by
  cases shape with
  | digits => exact splitWhile?_append_line rfl before after
  | blanks => exact splitWhile?_append_line rfl before after
  | word =>
    cases before with
    | nil => rfl
    | cons c before =>
      obtain ⟨htake, hdrop⟩ := cut_append_line (p := Shape.continuesWord) rfl before after
      simp only [List.cons_append, Shape.split?, htake, hdrop]
      split <;> rfl
  | comment =>
    cases before with
    | nil => rfl
    | cons c before =>
      by_cases hc : c = '#'
      · subst hc
        obtain ⟨htake, hdrop⟩ := cut_append_line (p := fun c => c ≠ '\n') (by simp) before after
        simp only [List.cons_append, Shape.split?, htake, hdrop]
        rfl
      · simp [Shape.split?, hc]
  | quotation =>
    cases before with
    | nil => rfl
    | cons c before =>
      simp only [List.cons_append, Shape.split?]
      split
      · exact splitQuotation?_append_line c before after
      · rfl
  | lineBreak =>
    rcases before with _ | ⟨c, before⟩
    · rfl
    · by_cases hfeed : c = '\n'
      · subst hfeed
        simp [Shape.split?]
      · by_cases hreturn : c = '\r'
        · subst hreturn
          rcases before with _ | ⟨d, before⟩
          · rfl
          · by_cases hnext : d = '\n'
            · subst hnext
              simp [Shape.split?]
            · simp [Shape.split?, hnext]
        · simp [Shape.split?, hfeed, hreturn]
  | exact word =>
    have hword := hshape word rfl
    simp only [Shape.split?, isPrefixOf_append_cons hword]
    split
    · next hbegins =>
      obtain ⟨behind, rfl⟩ := List.isPrefixOf_iff_prefix.mp hbegins
      simp
    · rfl

/-- The marks are texts of one line. -/
theorem oneLine_marks :
    ∀ pattern ∈ Pattern.table, ∀ word, pattern.shape = .exact word → '\n' ∉ word := by
  simp [Pattern.table, Pattern.ofMark]

/-- What the first lines of a source begin with does not depend on the others. -/
theorem first?_append_line (before after : Source) :
    Pattern.first? (before ++ '\n' :: after) =
      (Pattern.first? (before ++ ['\n'])).map fun (role, text, rest) =>
        (role, text, rest ++ after) := by
  have hmarks := oneLine_marks
  unfold Pattern.first?
  generalize Pattern.table = table at hmarks ⊢
  induction table with
  | nil => rfl
  | cons pattern table ih =>
    obtain ⟨hpattern, htable⟩ := List.forall_mem_cons.mp hmarks
    rw [List.findSome?_cons, List.findSome?_cons, split?_append_line hpattern]
    cases pattern.shape.split? (before ++ ['\n']) with
    | none => exact ih htable
    | some piece => rfl

/-- What is split off within a line has no line feed. -/
theorem not_mem_of_split? {shape : Shape} (hshape : ∀ word, shape = .exact word → '\n' ∉ word)
    (hbreak : shape ≠ .lineBreak) (h : shape.split? source = some (text, rest)) : '\n' ∉ text := by
  have htake {p : Char → Bool} (hfeed : p '\n' = false) (line : Source) :
      '\n' ∉ line.takeWhile p := fun hmem => by
    simpa [hfeed] using List.mem_takeWhile_imp hmem
  have hwhile {passes : Char → Bool} (hfeed : passes '\n' = false)
      (hsplit : Shape.splitWhile? passes source = some (text, rest)) : '\n' ∉ text := by
    unfold Shape.splitWhile? at hsplit
    split at hsplit
    · cases hsplit
    · next hline =>
      cases hsplit
      exact hline ▸ htake hfeed source
  cases shape with
  | digits => exact hwhile rfl h
  | blanks => exact hwhile rfl h
  | lineBreak => exact absurd rfl hbreak
  | exact word =>
    simp only [Shape.split?] at h
    split at h
    · cases h
      exact hshape _ rfl
    · cases h
  | word =>
    cases source with
    | nil => cases h
    | cons c source =>
      simp only [Shape.split?] at h
      split at h
      · next hstarts =>
        cases h
        have hc : '\n' ≠ c := by
          rintro rfl
          cases hstarts
        simpa [hc] using htake (p := Shape.continuesWord) rfl source
      · cases h
  | comment =>
    cases source with
    | nil => cases h
    | cons c source =>
      by_cases hc : c = '#'
      · subst hc
        cases h
        simpa using htake (p := fun c => c ≠ '\n') (by simp) source
      · simp [Shape.split?, hc] at h
  | quotation =>
    cases source with
    | nil => cases h
    | cons quote source =>
      simp only [Shape.split?] at h
      split at h
      · next hquote =>
        have hne : '\n' ≠ quote := by
          rintro rfl
          cases hquote
        simp only [Shape.splitQuotation?] at h
        split at h
        · split at h
          · cases h
            have hinside := htake (p := fun c => c ≠ quote && c ≠ '\n') (by simp) source
            simpa [hne] using hinside
          · cases h
        · cases h
      · cases h

/-- Only the end of a line has a line feed. -/
theorem role_of_mem_lineFeed (h : Pattern.first? source = some (role, text, rest))
    (hfeed : '\n' ∈ text) : role = .lineBreak := by
  have hbreaks : ∀ pattern ∈ Pattern.table, pattern.shape = .lineBreak →
      pattern.role = .lineBreak := by
    decide
  obtain ⟨pattern, hmem, rfl, hsplit⟩ := exists_pattern h
  by_cases hbreak : pattern.shape = .lineBreak
  · exact hbreaks pattern hmem hbreak
  · exact absurd hfeed (not_mem_of_split? (oneLine_marks pattern hmem) hbreak hsplit)

/-! ## Tokens and scanners -/

/-- What a token says, apart from its place. -/
def Token.content (token : Token) : TokenKind × String := (token.kind, token.text)

/-- Two refusals have the same cause. -/
def SameCause (failure failure' : Failure) : Prop :=
  ∃ cause location location', failure = .refused ⟨cause, location⟩ ∧
    failure' = .refused ⟨cause, location'⟩

/-- Refusals at boundaries are for the same cause. -/
theorem refuseAt_sameCause {α β : Type} {rel : α → β → Prop} {position position' : Nat}
    (h : Cuts source position) (h' : Cuts source' position') (cause : Cause) :
    Outcome.Alike SameCause rel (.refuseAt source position cause)
      (.refuseAt source' position' cause) := by
  obtain ⟨location, hrefused⟩ := Scanner.refuseAt_of_cuts (α := α) h cause
  obtain ⟨location', hrefused'⟩ := Scanner.refuseAt_of_cuts (α := β) h' cause
  rw [hrefused, hrefused']
  exact .error ⟨cause, location, location', rfl, rfl⟩

namespace Scanner

variable {s s' t t' : Scanner}

/-- Two scanners have read the same words, have the same number of open brackets, and are both at
the start of a line or both inside one. -/
structure Echoes (s s' : Scanner) : Prop where
  contents : s.tokens.map Token.content = s'.tokens.map Token.content
  depth_eq : s.depth = s'.depth
  start_eq : s.atLineStart = s'.atLineStart

namespace Echoes

/-- Scanners with the same tokens are both in a closed line, or none is. -/
theorem isClosed_eq (h : s.Echoes s') : s.isClosed = s'.isClosed := by
  have hlast : s.lastKind? = s'.lastKind? := by
    have hcontents := congrArg (fun contents => contents.head?.map Prod.fst) h.contents
    simpa [lastKind?, List.head?_map, Option.map_map, Function.comp_def, Token.content]
      using hcontents
  rw [isClosed, isClosed, hlast]

/-- A token with the same content is added on both sides. -/
theorem push (h : s.Echoes s') {token token' : Token} (htoken : token.content = token'.content) :
    (s.push token).Echoes (s'.push token') := by
  have hkind : token.kind = token'.kind := congrArg Prod.fst htoken
  refine ⟨?_, ?_, h.start_eq⟩
  · simp [Scanner.push, htoken, h.contents]
  · simp [Scanner.push, hkind, h.depth_eq]

/-- The end of a line is the same on both sides. -/
theorem endLine (h : s.Echoes s') (span span' : Span) :
    (s.endLine span).Echoes (s'.endLine span') := by
  by_cases hdepth : s.depth = 0
  · rw [endLine_eq hdepth, endLine_eq (h.depth_eq ▸ hdepth), ← h.isClosed_eq]
    split
    · exact ⟨h.contents, h.depth_eq, rfl⟩
    · have hpush : (s.push (.newline span)).Echoes (s'.push (.newline span')) := h.push rfl
      exact ⟨hpush.contents, hpush.depth_eq, rfl⟩
  · rw [Scanner.endLine, if_neg hdepth, Scanner.endLine, if_neg (h.depth_eq ▸ hdepth)]
    exact h

/-- A piece is read in the same way. -/
theorem emit (h : s.Echoes s') (role : Role) (text : Source) :
    (s.emit role text).Echoes (s'.emit role text) := by
  cases role with
  | lineBreak => exact h.endLine _ _
  | skipped => exact h
  | word | number | string | mark kind => exact h.push rfl

/-- What is read on both sides is the same, whatever follows it. -/
theorem read (h : s.Echoes s') (role : Role) (text rest rest' : Source) :
    (s.read role text rest).Echoes (s'.read role text rest') :=
  have hemit := h.emit role text
  ⟨hemit.contents, hemit.depth_eq, hemit.start_eq⟩

end Echoes

/-- Reading leaves the blocks as they are. -/
theorem read_blocks (s : Scanner) (role : Role) (text rest : Source) :
    (s.read role text rest).blocks = s.blocks := by
  cases role with
  | lineBreak =>
    simp only [Scanner.read, emit, endLine]
    split
    · split <;> rfl
    · rfl
  | word | number | string | skipped | mark kind => rfl

/-! ## Blocks -/

/-- Two lines of the same width do the same to the same blocks. -/
theorem indentTo_echoes (h : s.Echoes s') (hblocks : s.blocks = s'.blocks) (width : Nat) :
    (s.indentTo width).Echoes (s'.indentTo width) ∧
      (s.indentTo width).blocks = (s'.indentTo width).blocks := by
  have hwidth : s.width = s'.width := congrArg (List.headD · 0) hblocks
  by_cases habove : s.width < width
  · rw [indentTo, if_pos habove, indentTo, if_pos (hwidth ▸ habove)]
    have hopen : ({ s with blocks := width :: s.blocks } : Scanner).Echoes
        { s' with blocks := width :: s'.blocks } := ⟨h.contents, h.depth_eq, h.start_eq⟩
    exact ⟨hopen.push rfl, congrArg (width :: ·) hblocks⟩
  · rw [indentTo_of_le habove, indentTo_of_le (hwidth ▸ habove), ← hblocks]
    refine ⟨⟨?_, h.depth_eq, h.start_eq⟩, rfl⟩
    simp only [List.map_append, List.map_replicate, h.contents]
    rfl

/-- The start of a line is passed over, indented or refused in the same way. -/
theorem startLine_echoes (h : s.Echoes s') (hblocks : s.blocks = s'.blocks)
    (haligned : s.Aligned source) (haligned' : s'.Aligned source')
    (hwidth : (s'.rest.takeWhile isIndentation).length = (s.rest.takeWhile isIndentation).length)
    (hblank : isBlankLine (s'.rest.dropWhile isIndentation) =
      isBlankLine (s.rest.dropWhile isIndentation)) :
    Outcome.Alike SameCause (fun t t' => t.Echoes t' ∧ t.blocks = t'.blocks)
      (s.startLine source) (s'.startLine source') := by
  have hin : s.inside.Echoes s'.inside := ⟨h.contents, h.depth_eq, rfl⟩
  rw [startLine_eq rfl, startLine_eq rfl, hblank, hwidth, ← h.depth_eq]
  split
  · exact .ok ⟨hin, hblocks⟩
  · obtain ⟨hechoes, hsame⟩ := indentTo_echoes hin hblocks (s.rest.takeWhile isIndentation).length
    have hfits : (s'.inside.indentTo (s.rest.takeWhile isIndentation).length).width =
        (s.inside.indentTo (s.rest.takeWhile isIndentation).length).width :=
      congrArg (List.headD · 0) hsame.symm
    rw [hfits]
    split
    · exact .ok ⟨hechoes, hsame⟩
    · refine refuseAt_sameCause (haligned.covers_indentation.cuts_stop) ?_ _
      have hcuts := haligned'.covers_indentation.cuts_stop
      rwa [hwidth] at hcuts

/-! ## Runs -/

/-- A scanner in front of a line: at its start, or inside brackets that are open. -/
def BetweenLines (s : Scanner) : Prop :=
  s.depth = 0 ∧ s.atLineStart = true ∧ s.isClosed = true ∨ 0 < s.depth ∧ s.atLineStart = false

/-- Two runs go on to scanners that go together, or they are refused for the same cause. -/
inductive InStep (source source' : Source) (s s' : Scanner) (post : Scanner → Scanner → Prop) :
    Prop where
  | refused {cause : Cause} {location location' : Location}
      (scan_eq : scan source s = .error (.refused ⟨cause, location⟩))
      (scan_eq' : scan source' s' = .error (.refused ⟨cause, location'⟩))
  | reaches {t t' : Scanner} (scan_eq : scan source s = scan source t)
      (scan_eq' : scan source' s' = scan source' t') (ends : post t t')

namespace InStep

variable {post post' : Scanner → Scanner → Prop}

/-- What the runs have gone through already may be put in front. -/
theorem prepend (h : InStep source source' t t' post) (hscan : scan source s = scan source t)
    (hscan' : scan source' s' = scan source' t') : InStep source source' s s' post := by
  cases h with
  | refused h h' => exact .refused (hscan.trans h) (hscan'.trans h')
  | reaches h h' ends => exact .reaches (hscan.trans h) (hscan'.trans h') ends

/-- The runs may go on from where they have got to. -/
theorem trans (h : InStep source source' s s' post)
    (hnext : ∀ t t', post t t' → InStep source source' t t' post') :
    InStep source source' s s' post' := by
  cases h with
  | refused h h' => exact .refused h h'
  | reaches h h' ends => exact (hnext _ _ ends).prepend h h'

/-- Runs go in step from the start of a line if its layout is done in the same way. -/
theorem of_startLine {rel : Scanner → Scanner → Prop} (hstart : s.atLineStart = true)
    (hstart' : s'.atLineStart = true) (hne : s.rest ≠ []) (hne' : s'.rest ≠ [])
    (hlines : Outcome.Alike SameCause rel (s.startLine source) (s'.startLine source'))
    (hnext : ∀ t t', s.startLine source = .ok t → s'.startLine source' = .ok t' → rel t t' →
      InStep source source' t t' post) : InStep source source' s s' post := by
  have hscan : scan source s = s.startLine source >>= scan source := scan_startLine hstart hne
  have hscan' : scan source' s' = s'.startLine source' >>= scan source' :=
    scan_startLine hstart' hne'
  generalize s.startLine source = line at hlines hnext hscan
  generalize s'.startLine source' = line' at hlines hnext hscan'
  cases hlines with
  | ok hrel => exact (hnext _ _ rfl rfl hrel).prepend hscan hscan'
  | error hcause =>
    obtain ⟨cause, location, location', rfl, rfl⟩ := hcause
    exact .refused hscan hscan'

/-- Runs go in step where they read pieces, and go on in step behind these. -/
theorem of_read {role role' : Role} {word word' rest rest' : Source}
    (hstart : s.atLineStart = false) (hstart' : s'.atLineStart = false)
    (hfirst : Pattern.first? s.rest = some (role, word, rest))
    (hfirst' : Pattern.first? s'.rest = some (role', word', rest'))
    (hnext : InStep source source' (s.read role word rest) (s'.read role' word' rest') post) :
    InStep source source' s s' post :=
  hnext.prepend (scan_read hstart hfirst) (scan_read hstart' hfirst')

/-- Where nothing starts, both runs are refused for the same character. -/
theorem of_stuck (haligned : s.Aligned source) (haligned' : s'.Aligned source')
    (hstart : s.atLineStart = false) (hstart' : s'.atLineStart = false)
    (hnone : Pattern.first? s.rest = none) (hnone' : Pattern.first? s'.rest = none)
    (hne : s.rest ≠ []) (hhead : s'.rest.take 1 = s.rest.take 1) :
    InStep source source' s s' post := by
  have hne' : s'.rest ≠ [] := by
    rintro hnil
    rw [hnil, List.take_nil, eq_comm, List.take_eq_nil_iff] at hhead
    exact hhead.elim nofun hne
  obtain ⟨location, hrefused⟩ := refuseAt_of_cuts (α := Scanner) haligned.cuts
    (.unrecognisedToken (String.ofList (s.rest.take 1)))
  obtain ⟨location', hrefused'⟩ := refuseAt_of_cuts (α := Scanner) haligned'.cuts
    (.unrecognisedToken (String.ofList (s.rest.take 1)))
  have hscan : scan source s =
      .error (.refused ⟨.unrecognisedToken (String.ofList (s.rest.take 1)), location⟩) := by
    rw [scan_step hne, step_inside hstart, readOne, hnone, hrefused]
    rfl
  have hscan' : scan source' s' =
      .error (.refused ⟨.unrecognisedToken (String.ofList (s.rest.take 1)), location'⟩) := by
    rw [scan_step hne', step_inside hstart', readOne, hnone', hhead, hrefused']
    rfl
  exact .refused hscan hscan'

end InStep

/-- What follows makes no difference to a text of whole lines, nor where nothing follows. -/
def Apart (text more : Source) : Prop := more = [] ∨ WholeLines text

/-- The first reading of a text does not depend on what stands apart behind it. -/
theorem first?_apart (h : Apart text more) (hne : text ≠ []) :
    Pattern.first? (text ++ more) =
      (Pattern.first? text).map fun (role, word, rest) => (role, word, rest ++ more) := by
  rcases h with rfl | rfl | ⟨lines, rfl⟩
  · simp
  · exact absurd rfl hne
  · rw [List.append_assoc, List.singleton_append, first?_append_line]

/-- The indentation of a line is the same with what follows. -/
theorem indentation_apart (h : Apart text more) (hne : text ≠ []) :
    ((text ++ more).takeWhile isIndentation).length = (text.takeWhile isIndentation).length ∧
      isBlankLine ((text ++ more).dropWhile isIndentation) =
        isBlankLine (text.dropWhile isIndentation) := by
  rcases h with rfl | rfl | ⟨lines, rfl⟩
  · simp
  · exact absurd rfl hne
  · rw [List.append_assoc, List.singleton_append]
    obtain ⟨htake, hdrop⟩ := cut_append_line (p := isIndentation) rfl lines more
    rw [htake, hdrop, dropWhile_append_cons (c := '\n') rfl]
    refine ⟨rfl, ?_⟩
    cases lines.dropWhile isIndentation <;> rfl

/-- The lines of a text that are left are whole, and the piece that was last read is the end of a
line. -/
theorem apart_of_append {word rest : Source} (h : Apart (word ++ rest) more) (hne : word ≠ []) :
    Apart rest more ∧ (rest = [] → more ≠ [] → '\n' ∈ word) := by
  rcases h with rfl | hnil | ⟨lines, hlines⟩
  · exact ⟨.inl rfl, fun _ hmore => absurd rfl hmore⟩
  · exact absurd (List.append_eq_nil_iff.mp hnil).1 hne
  · rcases List.eq_nil_or_concat rest with rfl | ⟨front, last, rfl⟩
    · rw [List.append_nil] at hlines
      exact ⟨.inr (.inl rfl), fun _ _ => by simp [hlines]⟩
    · rw [List.concat_eq_append, ← List.append_assoc] at hlines
      obtain ⟨-, hlast⟩ := List.append_inj' hlines rfl
      exact ⟨.inr (.inr ⟨front, by rw [List.concat_eq_append, hlast]⟩), fun hnil => by simp at hnil⟩

/-- Behind the end of a line, a scanner is in front of a line. -/
theorem betweenLines_of_lineBreak (s : Scanner) (hstart : s.atLineStart = false)
    (text rest : Source) :
    (s.read .lineBreak text rest).BetweenLines := by
  by_cases hdepth : s.depth = 0
  · obtain ⟨hkinds, hdepth', -, hline⟩ := read_lineBreak text rest hdepth
    exact .inl ⟨hdepth', hline, isClosed_of_closedKinds hkinds⟩
  · have hread : s.read .lineBreak text rest =
        { s with position := s.position + byteSize text, rest := rest } := by
      rw [Scanner.read, emit, endLine, if_neg hdepth]
    rw [hread]
    exact .inr ⟨Nat.pos_of_ne_zero hdepth, hstart⟩

/-- Two scanners in the same state, each in front of its own text. -/
structure Resembles (source source' more more' : Source) (s s' : Scanner) : Prop where
  echoes : s.Echoes s'
  blocks_eq : s.blocks = s'.blocks
  aligned : s.Aligned source
  aligned' : s'.Aligned source'
  rest_eq : s.rest = more
  rest_eq' : s'.rest = more'

namespace Resembles

/-- Scanners in the same text stay so when both read. -/
theorem read (h : Resembles source source' more more' s s')
    (hfirst : Pattern.first? s.rest = some (role, text, rest))
    {rest' : Source} (hfirst' : Pattern.first? s'.rest = some (role, text, rest')) :
    Resembles source source' rest rest' (s.read role text rest) (s'.read role text rest') where
  echoes := h.echoes.read role text rest rest'
  blocks_eq := by rw [read_blocks, read_blocks, h.blocks_eq]
  aligned := aligned_read h.aligned hfirst
  aligned' := aligned_read h.aligned' hfirst'
  rest_eq := rfl
  rest_eq' := rfl

/-- On a line, the runs read the same piece, or are stuck at the same character. -/
theorem inStep_piece {post : Scanner → Scanner → Prop} (hne : text ≠ [])
    (h : Resembles source source' (text ++ more) (text ++ more') s s')
    (hapart : Apart text more) (hapart' : Apart text more') (hstart : s.atLineStart = false)
    (hnext : ∀ role word rest, Pattern.first? text = some (role, word, rest) →
      Resembles source source' (rest ++ more) (rest ++ more')
        (s.read role word (rest ++ more)) (s'.read role word (rest ++ more')) →
      InStep source source' (s.read role word (rest ++ more)) (s'.read role word (rest ++ more'))
        post) :
    InStep source source' s s' post := by
  have hstart' : s'.atLineStart = false := h.echoes.start_eq ▸ hstart
  have hfirst := h.rest_eq ▸ first?_apart hapart hne
  have hfirst' := h.rest_eq' ▸ first?_apart hapart' hne
  cases hpiece : Pattern.first? text with
  | none =>
    rw [hpiece] at hfirst hfirst'
    obtain ⟨c, line, rfl⟩ := List.exists_cons_of_ne_nil hne
    refine .of_stuck h.aligned h.aligned' hstart hstart' hfirst hfirst' ?_ ?_
    · rw [h.rest_eq]
      exact List.cons_ne_nil _ _
    · rw [h.rest_eq, h.rest_eq']
      rfl
  | some piece =>
    obtain ⟨role, word, rest⟩ := piece
    rw [hpiece] at hfirst hfirst'
    exact .of_read hstart hstart' hfirst hfirst'
      (hnext role word rest hpiece (h.read hfirst hfirst'))

/-- From scanners in the same state on, the runs through the same lines go in step. -/
theorem inStep_lines (h : Resembles source source' (text ++ more) (text ++ more') s s')
    (hapart : Apart text more) (hapart' : Apart text more')
    (hbetween : text = [] → more ≠ [] ∨ more' ≠ [] → s.BetweenLines) :
    InStep source source' s s' fun t t' => Resembles source source' more more' t t' ∧
      (more ≠ [] ∨ more' ≠ [] → t.BetweenLines) := by
  -- On the length of the text: at the start of a line, the text stays.
  induction hlength : text.length using Nat.strongRecOn generalizing s s' text with
  | ind length ih =>
    subst hlength
    by_cases hne : text = []
    · subst hne
      exact .reaches rfl rfl ⟨h, hbetween rfl⟩
    have hread {s s' : Scanner} (h : Resembles source source' (text ++ more) (text ++ more') s s')
        (hstart : s.atLineStart = false) :
        InStep source source' s s' fun t t' => Resembles source source' more more' t t' ∧
          (more ≠ [] ∨ more' ≠ [] → t.BetweenLines) := by
      refine h.inStep_piece hne hapart hapart' hstart fun role word rest hpiece hbehind => ?_
      obtain ⟨rfl, hword⟩ := first?_append hpiece
      obtain ⟨hapartRest, hfeed⟩ := apart_of_append hapart hword
      obtain ⟨hapartRest', hfeed'⟩ := apart_of_append hapart' hword
      refine ih _ (length_lt_of_first? hpiece) hbehind hapartRest hapartRest' ?_ rfl
      intro hnil hgoesOn
      rw [role_of_mem_lineFeed hpiece (hgoesOn.elim (hfeed hnil) (hfeed' hnil))]
      exact betweenLines_of_lineBreak s hstart _ _
    cases hstart : s.atLineStart with
    | false => exact hread h hstart
    | true =>
      obtain ⟨hindent, hblank⟩ := indentation_apart hapart hne
      obtain ⟨hindent', hblank'⟩ := indentation_apart hapart' hne
      have hwidth : (s'.rest.takeWhile isIndentation).length =
          (s.rest.takeWhile isIndentation).length := by
        rw [h.rest_eq, h.rest_eq', hindent, hindent']
      refine .of_startLine hstart (h.echoes.start_eq ▸ hstart) (by simp [h.rest_eq, hne])
        (by simp [h.rest_eq', hne])
        (startLine_echoes h.echoes h.blocks_eq h.aligned h.aligned' hwidth
          (by rw [h.rest_eq, h.rest_eq', hblank, hblank'])) ?_
      rintro t t' hline hline' ⟨hechoes, hblocks⟩
      obtain ⟨hrest, hinside⟩ := rest_of_startLine hline
      refine hread ⟨hechoes, hblocks, h.aligned.startLine hline,
        h.aligned'.startLine hline', hrest.trans h.rest_eq, ?_⟩ hinside
      exact (rest_of_startLine hline').1.trans h.rest_eq'

end Resembles

end Scanner

end Offside
