import Offside.Proofs.Layout.Written
import Mathlib.Data.List.DropRight

/-!
# The grammar of layout

Where the three kinds of layout may stand in the tokens of a source.  What a scanner remembers
(the newest token, the open brackets and blocks, whether a line starts) says what may stand next,
and blank lines, comments and stray carriage returns leave it as it is.

Main definitions:

- `bracketDepth`: the number of brackets that a row of tokens leaves open.
- `WellLaidOut`: the grammar that layout obeys in a token list.
- `LayoutOutsideBrackets`: layout stands where no bracket is open.
- `Scanner.Regular`: the same of what a scanner has read so far.

Main results:

- Theorem `Regular.startLine` and `Regular.read`: each step of the scanner keeps to the grammar.
- Theorem `tokenize_wellLaidOut`: the tokens of a source are well laid out.
-/

namespace Offside

/-! ## The grammar -/

/-- The number of open brackets behind a row of tokens; a closing bracket too many is not
counted. -/
def bracketDepth (kinds : List TokenKind) : Nat := kinds.foldl Scanner.depthAfter 0

/-- The layout of a token list, by the kinds of its tokens. -/
structure WellLaidOut (kinds : List TokenKind) : Prop where
  /-- The end of the file stands at the end, and nowhere else. -/
  fileEnd : ∃ front, kinds = front ++ [.eof] ∧ .eof ∉ front
  /-- No block is closed that is not open. -/
  opened : ∀ before, before <+: kinds → before.count .dedent ≤ before.count .indent
  /-- All blocks are closed. -/
  closed : kinds.count .dedent = kinds.count .indent
  /-- The end of a line stands behind a word. -/
  newline : ∀ before after, kinds = before ++ .newline :: after →
    ∃ word ∈ before.getLast?, word.isLayout = false
  /-- A block is opened where a line starts, by the word that the line starts with. -/
  indent : ∀ before after, kinds = before ++ .indent :: after →
    (before = [] ∨ before.getLast? = some .newline) ∧
      ∃ word ∈ after.head?, word.isLayout = false ∧ word ≠ .eof
  /-- Blocks are closed where a line starts or ends the source. -/
  dedent : ∀ before after, kinds = before ++ .dedent :: after →
    before.getLast? = some .newline ∨ before.getLast? = some .dedent
  /-- The last line is ended, if there is one. -/
  lastLine : kinds = [.eof] ∨
    ∃ front count, kinds = front ++ [.newline] ++ List.replicate count .dedent ++ [.eof]

/-- Layout stands where no bracket is open, but for what is added at the end of a source of
`stop` bytes: the end of the last line, the ends of the blocks and the end of the file. -/
def LayoutOutsideBrackets (stop : Nat) (tokens : List Token) : Prop :=
  ∃ read lineEnd count,
    tokens = read ++ lineEnd ++ List.replicate count (.dedent stop) ++ [.eof stop] ∧
      (lineEnd = [] ∨ lineEnd = [.newline (.empty stop)]) ∧
      (∀ token ∈ read, token.span.start < stop) ∧
      ∀ before token after, read = before ++ token :: after → token.kind.isLayout = true →
        bracketDepth (before.map Token.kind) = 0

/-- One more kind of token may open or close a bracket. -/
@[simp]
theorem bracketDepth_concat (kinds : List TokenKind) (kind : TokenKind) :
    bracketDepth (kinds ++ [kind]) = Scanner.depthAfter (bracketDepth kinds) kind := by
  rw [bracketDepth, List.foldl_append]
  rfl

/-! ## Rows of kinds, the newest first -/

/-- A kind of layout may stand behind the kinds before it, of which `previous` is the newest. -/
def MayFollow (previous : Option TokenKind) : TokenKind → Prop
  | .newline => ∃ word, previous = some word ∧ word.isLayout = false
  | .indent => previous = none ∨ previous = some .newline
  | .dedent => previous = some .newline ∨ previous = some .dedent
  | _ => True

/-- A kind may stand on top of a row: it is not the end of the file, layout follows what it may
follow, and no block is closed that is not open. -/
structure Fits (older : List TokenKind) (kind : TokenKind) : Prop where
  notEnd : kind ≠ .eof
  follows : MayFollow older.head? kind
  opened : kind = .dedent → older.count .dedent < older.count .indent

/-- Each kind of a row may stand on top of those below it. -/
def EachFits (fits : List TokenKind → TokenKind → Prop) : List TokenKind → Prop
  | [] => True
  | kind :: older => fits older kind ∧ EachFits fits older

section Rows

variable {fits : List TokenKind → TokenKind → Prop} {kinds older before after : List TokenKind}
  {kind : TokenKind}

/-- What is below a part of a row is below it in the row. -/
theorem EachFits.of_append (h : EachFits fits (kinds ++ older)) : EachFits fits older := by
  induction kinds with
  | nil => exact h
  | cons kind kinds ih => exact ih h.2

/-- In the order of the source, each kind may stand behind those before it. -/
theorem EachFits.at_split (h : EachFits fits kinds)
    (hkinds : kinds.reverse = before ++ kind :: after) : fits before.reverse kind := by
  have hsplit : kinds = after.reverse ++ kind :: before.reverse := by
    rw [← List.reverse_reverse kinds, hkinds]
    simp
  rw [hsplit] at h
  exact h.of_append.1

/-- What is asked of each kind may be weakened. -/
theorem EachFits.mono {fits' : List TokenKind → TokenKind → Prop}
    (himp : ∀ older kind, fits older kind → fits' older kind) (h : EachFits fits kinds) :
    EachFits fits' kinds := by
  induction kinds with
  | nil => trivial
  | cons kind older ih => exact ⟨himp older kind h.1, ih h.2⟩

/-- Behind the opening of a block stands no more layout. -/
theorem isLayout_of_indent (h : MayFollow (some .indent) kind) : kind.isLayout = false := by
  cases kind <;> simp_all [MayFollow, TokenKind.isLayout]

/-- A word may stand on top of every row. -/
theorem fits_of_word (hlayout : kind.isLayout = false) (hend : kind ≠ .eof) :
    Fits older kind where
  notEnd := hend
  follows := by cases kind <;> trivial
  opened := by
    rintro rfl
    nomatch hlayout

/-- A block that is open may be closed behind the end of a line, or where another one is. -/
theorem fits_dedent (hhead : kinds.head? = some .newline) {count : Nat}
    (hopen : kinds.count .dedent + count < kinds.count .indent) :
    Fits (List.replicate count .dedent ++ kinds) .dedent where
  notEnd := nofun
  follows := by
    cases count with
    | zero => exact .inl hhead
    | succ count => exact .inr rfl
  opened _ := by
    simp only [List.count_append, List.count_replicate]
    simpa [Nat.add_comm] using hopen

/-- A row with more of a kind on top, each of which may stand there. -/
theorem eachFits_replicate (h : EachFits fits kinds) {count : Nat}
    (hkind : ∀ n < count, fits (List.replicate n kind ++ kinds) kind) :
    EachFits fits (List.replicate count kind ++ kinds) := by
  induction count with
  | zero => exact h
  | succ count ih =>
    exact ⟨hkind count (Nat.lt_succ_self _), ih fun n hn => hkind n (Nat.lt_succ_of_lt hn)⟩

/-- The ends of blocks are no brackets. -/
@[simp]
theorem bracketDepth_dedents (count : Nat) (kinds : List TokenKind) :
    bracketDepth (List.replicate count TokenKind.dedent ++ kinds).reverse =
      bracketDepth kinds.reverse := by
  induction count with
  | zero => rfl
  | succ count ih =>
    rw [List.replicate_succ, List.cons_append, List.reverse_cons, bracketDepth_concat, ih]
    rfl

end Rows

/-! ## Runs -/

/-- A kind may stand on top of a row, and layout stands outside brackets. -/
structure Placed (older : List TokenKind) (kind : TokenKind) : Prop extends Fits older kind where
  outside : kind.isLayout = true → bracketDepth older.reverse = 0

namespace Scanner

variable {source text rest more : Source} {role : Role} {s t : Scanner}

/-- The tokens so far keep to the grammar, and the scanner remembers what counts for the next one:
the brackets and the blocks that are open, that a line starts only behind the end of a line, and
that a line whose layout is done has a word. -/
structure Regular (source : Source) (s : Scanner) : Prop where
  aligned : s.Aligned source
  placed : EachFits Placed s.kinds
  depth_eq : s.depth = bracketDepth s.kinds.reverse
  blocks_eq : s.kinds.count .indent = s.kinds.count .dedent + s.blocks.length
  inside : ∀ token ∈ s.tokens, token.span.start < Source.byteSize source
  start : s.atLineStart = true → s.depth = 0 ∧ s.isClosed = true
  owed : s.kinds.head? = some .indent ∨ s.kinds.head? = some .dedent →
    isBlankLine (s.rest.dropWhile isIndentation) = false

/-- A scanner starts regular. -/
theorem regular_start (source : Source) : (Scanner.start source).Regular source where
  aligned := ⟨[], rfl, rfl⟩
  placed := trivial
  depth_eq := rfl
  blocks_eq := rfl
  inside := nofun
  start _ := ⟨rfl, rfl⟩
  owed := by rintro (hhead | hhead) <;> nomatch hhead

/-- A scanner with something left is before the end of the source. -/
theorem Aligned.position_lt (h : s.Aligned source) {before after : Source}
    (hrest : s.rest = before ++ after) (hafter : after ≠ []) :
    s.position + Source.byteSize before < Source.byteSize source := by
  rcases h with ⟨front, rfl, hposition⟩
  have hpos := Source.byteSize_pos hafter
  rw [Source.byteSize_append, hrest, Source.byteSize_append, hposition]
  omega

/-! ### The start of a line -/

/-- At the start of a line, nothing happens, or there is a word and the line is indented. -/
theorem eq_indentTo_of_startLine (h : s.startLine source = .ok t) :
    t = s.inside ∨ isBlankLine (s.rest.dropWhile isIndentation) = false ∧
      t = s.inside.indentTo (s.rest.takeWhile isIndentation).length := by
  simp only [Scanner.startLine] at h
  split at h
  · cases h
    exact .inl rfl
  · next hfull =>
    split at h
    · cases h
      rw [Bool.or_eq_true, not_or] at hfull
      exact .inr ⟨Bool.eq_false_iff.mpr hfull.2, rfl⟩
    · unfold Outcome.refuseAt at h
      split at h <;> cases h

/-- A line that is not blank goes on behind its indentation. -/
theorem ne_nil_of_isBlankLine (h : isBlankLine (s.rest.dropWhile isIndentation) = false) :
    s.rest.dropWhile isIndentation ≠ [] := by
  intro hnil
  rw [hnil] at h
  nomatch h

/-- What the width of a line adds: a block that is opened, or those that are closed. -/
theorem indentTo_cases (s : Scanner) (width : Nat) :
    (0 < width ∧ (s.indentTo width).kinds = .indent :: s.kinds ∧
      (s.indentTo width).blocks.length = s.blocks.length + 1 ∧
      (s.indentTo width).tokens = .indent ⟨s.position, s.position + width⟩ :: s.tokens) ∨
    ∃ count, (s.indentTo width).kinds = List.replicate count .dedent ++ s.kinds ∧
      (s.indentTo width).blocks.length + count = s.blocks.length ∧
      (s.indentTo width).tokens =
        List.replicate count (.dedent (s.position + width)) ++ s.tokens := by
  by_cases hwidth : s.width < width
  · rw [indentTo, if_pos hwidth]
    exact .inl ⟨Nat.zero_lt_of_lt hwidth, rfl, rfl, rfl⟩
  · rw [indentTo_of_le hwidth]
    refine .inr ⟨(s.blocks.takeWhile (width < ·)).length, ?_, ?_, rfl⟩
    · simp [kinds, Token.dedent]
    · have hlength := congrArg List.length
        (List.takeWhile_append_dropWhile (p := (width < ·)) (l := s.blocks))
      rw [List.length_append] at hlength
      simp only
      omega

/-- The layout at the start of a line with a word keeps to the grammar. -/
theorem Regular.indentTo (h : s.Regular source) (hstart : s.atLineStart = true)
    (hfull : isBlankLine (s.rest.dropWhile isIndentation) = false) :
    (s.inside.indentTo (s.rest.takeWhile isIndentation).length).Regular source := by
  obtain ⟨hdepth, hclosed⟩ := h.start hstart
  have hhead : s.kinds.head? = none ∨ s.kinds.head? = some .newline := by
    simpa [isClosed, lastKind?_eq] using hclosed
  have hzero : bracketDepth s.kinds.reverse = 0 := h.depth_eq ▸ hdepth
  have hrest : s.rest = s.rest.takeWhile isIndentation ++ s.rest.dropWhile isIndentation :=
    List.takeWhile_append_dropWhile.symm
  have hposition := h.aligned.position_lt hrest (ne_nil_of_isBlankLine hfull)
  rw [byteSize_indentation] at hposition
  generalize (s.rest.takeWhile isIndentation).length = width at hposition ⊢
  have hkinds : s.inside.kinds = s.kinds := rfl
  obtain ⟨-, hadded, hblocks, htokens⟩ | ⟨count, hadded, hblocks, htokens⟩ :=
    indentTo_cases s.inside width
  · refine ⟨?_, ?_, ?_, ?_, ?_, ?_, ?_⟩
    · rw [indentTo_eq]
      exact h.aligned
    · rw [hadded, hkinds]
      exact ⟨⟨⟨by decide, hhead, by simp⟩, fun _ => hzero⟩, h.placed⟩
    · rw [hadded, hkinds, List.reverse_cons, bracketDepth_concat, ← h.depth_eq, indentTo_eq]
      rfl
    · rw [hadded, hblocks, hkinds, List.count_cons_self, List.count_cons_of_ne (by decide),
        h.blocks_eq]
      rfl
    · rw [htokens]
      intro token htoken
      rcases List.mem_cons.mp htoken with rfl | hmem
      · exact Nat.lt_of_le_of_lt (Nat.le_add_right _ _) hposition
      · exact h.inside token hmem
    · rw [indentTo_eq]
      exact fun hline => (Bool.false_ne_true hline).elim
    · rw [indentTo_eq]
      exact fun _ => hfull
  -- A block that is closed was opened, so some line has been ended.
  · have hnewline (hcount : 0 < count) : s.kinds.head? = some .newline := by
      rcases hhead with hnone | hnewline
      · have hequal := h.blocks_eq
        rw [List.head?_eq_none_iff.mp hnone, List.count_nil, List.count_nil] at hequal
        have hall : s.inside.blocks.length = s.blocks.length := rfl
        omega
      · exact hnewline
    have hcounts : s.kinds.count .dedent + count ≤ s.kinds.count .indent := by
      rw [h.blocks_eq]
      exact Nat.add_le_add_left (hblocks ▸ Nat.le_add_left _ _) _
    refine ⟨?_, ?_, ?_, ?_, ?_, ?_, ?_⟩
    · rw [indentTo_eq]
      exact h.aligned
    · rw [hadded, hkinds]
      refine eachFits_replicate h.placed fun n hn => ⟨?_, fun _ => ?_⟩
      · exact fits_dedent (hnewline (Nat.zero_lt_of_lt hn)) (by omega)
      · rw [bracketDepth_dedents, hzero]
    · rw [hadded, hkinds, bracketDepth_dedents, ← h.depth_eq, indentTo_eq]
      rfl
    · have hequal := h.blocks_eq
      have hall : s.inside.blocks.length = s.blocks.length := rfl
      rw [hadded, hkinds, List.count_append, List.count_append, List.count_replicate_self,
        List.count_replicate]
      simp only [show (TokenKind.dedent == .indent) = false from rfl, Bool.false_eq_true, if_false]
      omega
    · rw [htokens]
      intro token htoken
      rcases List.mem_append.mp htoken with hdedent | hmem
      · rw [List.eq_of_mem_replicate hdedent]
        exact hposition
      · exact h.inside token hmem
    · rw [indentTo_eq]
      exact fun hline => (Bool.false_ne_true hline).elim
    · rw [indentTo_eq]
      exact fun _ => hfull

/-- The start of a line keeps a scanner regular. -/
theorem Regular.startLine (h : s.Regular source) (hstart : s.atLineStart = true)
    (hline : s.startLine source = .ok t) : t.Regular source := by
  rcases eq_indentTo_of_startLine hline with rfl | ⟨hfull, rfl⟩
  · exact { h with start := nofun }
  · exact h.indentTo hstart hfull

/-! ### Readings -/

/-- Nothing that is read is the end of the file. -/
theorem ne_eof_of_first? {word : String} {kind : TokenKind}
    (h : Pattern.first? rest = some (role, text, more)) (hkind : role.kind? word = some kind) :
    kind ≠ .eof := by
  rintro rfl
  cases role with
  | word => exact ofWord_ne_eof word (Option.some.inj hkind)
  | mark kind =>
    cases hkind
    cases lexeme?_of_first?_mark h
  | number | string | lineBreak | skipped => cases hkind

/-- Before a word, the blanks of a line are its indentation. -/
theorem dropWhile_isSpace (h : isBlankLine (rest.dropWhile isIndentation) = false) :
    rest.dropWhile Shape.isSpace = rest.dropWhile isIndentation := by
  induction rest with
  | nil => rfl
  | cons c rest ih =>
    by_cases hc : isIndentation c = true
    · have hspace : Shape.isSpace c = true := by
        simp only [isIndentation, Bool.or_eq_true] at hc
        simp only [Shape.isSpace, Bool.or_eq_true]
        exact .inl hc
      rw [List.dropWhile_cons_of_pos hc] at h ⊢
      rw [List.dropWhile_cons_of_pos hspace, ih h]
    · have hreturn : Shape.isSpace c = false := by
        rw [List.dropWhile_cons_of_neg hc] at h
        simp only [isBlankLine, Bool.or_eq_false_iff] at h
        simp only [isIndentation, Bool.not_eq_true] at hc
        simp only [Shape.isSpace, hc, h.1.2, Bool.false_or]
      rw [List.dropWhile_cons_of_neg hc, List.dropWhile_cons_of_neg (by simp [hreturn])]

/-- A word that a line is to have is still to come behind the blanks before it, and nothing else
that is no word stands before it. -/
theorem isBlankLine_of_first? {source : Source} {word : String}
    (hfull : isBlankLine (source.dropWhile isIndentation) = false)
    (hfirst : Pattern.first? source = some (role, text, rest)) (hkind : role.kind? word = none) :
    role = .skipped ∧ isBlankLine (rest.dropWhile isIndentation) = false := by
  cases source with
  | nil => nomatch hfull
  | cons c after =>
    have hblanks (hc : c = ' ' ∨ c = '\t') :
        role = .skipped ∧ isBlankLine (rest.dropWhile isIndentation) = false := by
      have hindent : isIndentation c = true := by rcases hc with rfl | rfl <;> rfl
      cases hfirst.symm.trans (first?_blanks hc)
      rw [List.dropWhile_cons_of_pos hindent] at hfull
      rw [dropWhile_isSpace hfull, List.dropWhile_idempotent]
      exact ⟨rfl, hfull⟩
    rcases first_of_kind?_none hfirst hkind with hc | hc | rfl | rfl | rfl
    · exact hblanks (.inl hc)
    · exact hblanks (.inr hc)
    all_goals exact absurd hfull (by simp [isIndentation, isBlankLine])

/-- A reading adds at most one token, which covers what is read. -/
theorem tokens_of_read (s : Scanner) (role : Role) (text rest : Source) :
    (s.read role text rest).tokens = s.tokens ∨ ∃ token,
      token.span = ⟨s.position, s.position + Source.byteSize text⟩ ∧
        (s.read role text rest).tokens = token :: s.tokens := by
  cases role with
  | word | number | string | mark kind => exact .inr ⟨_, rfl, rfl⟩
  | skipped => exact .inl rfl
  | lineBreak =>
    simp only [Scanner.read, emit, endLine]
    split
    · split
      · exact .inl rfl
      · exact .inl rfl
      · exact .inr ⟨.newline _, rfl, rfl⟩
    · exact .inl rfl

/-- The tokens that a reading adds start where it does. -/
theorem start_of_mem_read {token : Token} (h : token ∈ (s.read role text rest).tokens) :
    token ∈ s.tokens ∨ token.span.start = s.position := by
  rcases tokens_of_read s role text rest with htokens | ⟨new, hspan, htokens⟩
  · exact .inl (htokens ▸ h)
  · rw [htokens] at h
    rcases List.mem_cons.mp h with rfl | hmem
    · exact .inr (congrArg Span.start hspan)
    · exact .inl hmem

/-- The tokens read so far start in the source. -/
theorem Regular.inside_read (h : s.Regular source)
    (hfirst : Pattern.first? s.rest = some (role, text, rest)) :
    ∀ token ∈ (s.read role text rest).tokens, token.span.start < Source.byteSize source := by
  intro token htoken
  rcases start_of_mem_read htoken with hmem | hposition
  · exact h.inside token hmem
  · have hne : s.rest ≠ [] := fun hnil => absurd (hnil ▸ length_lt_of_first? hfirst) nofun
    have hless := h.aligned.position_lt (List.nil_append s.rest).symm hne
    exact hposition ▸ hless

/-- A word keeps to the grammar. -/
theorem Regular.readWord {kind : TokenKind} (h : s.Regular source) (hstart : s.atLineStart = false)
    (hfirst : Pattern.first? s.rest = some (role, text, rest))
    (hkind : role.kind? (String.ofList text) = some kind) :
    (s.read role text rest).Regular source := by
  have hlayout := isLayout_of_first? hfirst hkind
  have hlexeme : Lexeme.kind? ⟨some role, text⟩ = some kind := hkind
  have hbreak : ¬(role = .lineBreak ∧ s.depth = 0) := by
    rintro ⟨rfl, -⟩
    cases hkind
  obtain ⟨hkinds, hdepth, hblocks, hline⟩ := read_inside text rest hbreak
  rw [hlexeme] at hkinds
  rw [Lexeme.depthAfter, hlexeme] at hdepth
  have hne {other : TokenKind} (hother : other.isLayout = true) : kind ≠ other := by
    rintro rfl
    exact Bool.false_ne_true (hlayout.symm.trans hother)
  refine ⟨aligned_read h.aligned hfirst, ?_, ?_, ?_, h.inside_read hfirst, ?_, ?_⟩
  · rw [hkinds]
    refine ⟨⟨fits_of_word hlayout (ne_eof_of_first? hfirst hkind), fun hword => ?_⟩, h.placed⟩
    exact (Bool.false_ne_true (hlayout.symm.trans hword)).elim
  · rw [hdepth, hkinds, Option.toList_some, List.singleton_append, List.reverse_cons,
      bracketDepth_concat, h.depth_eq]
  · rw [hkinds, hblocks, Option.toList_some, List.singleton_append,
      List.count_cons_of_ne (hne rfl), List.count_cons_of_ne (hne rfl), h.blocks_eq]
  · rw [hline, hstart]
    simp
  · rw [hkinds]
    rintro (hhead | hhead) <;> exact absurd (Option.some.inj hhead) (hne rfl)

/-- A line that goes on in a place where no word may come ends with a word. -/
theorem Regular.ends_with_word (h : s.Regular source) (hopen : s.isClosed = false)
    (hblank : isBlankLine (s.rest.dropWhile isIndentation) = true) :
    MayFollow s.kinds.head? .newline := by
  cases hhead : s.kinds.head? with
  | none => simp [isClosed, lastKind?_eq, hhead] at hopen
  | some kind =>
    refine ⟨kind, rfl, Bool.eq_false_iff.mpr fun hlayout => ?_⟩
    have hkinds : kind = .newline ∨ kind = .indent ∨ kind = .dedent := by
      cases kind <;> simp_all [TokenKind.isLayout]
    rcases hkinds with rfl | hblock
    · simp [isClosed, lastKind?_eq, hhead] at hopen
    · have hfull := h.owed (hblock.imp (fun hindent => hhead.trans (congrArg some hindent))
        fun hdedent => hhead.trans (congrArg some hdedent))
      exact Bool.false_ne_true (hfull.symm.trans hblank)

/-- The end of a line outside brackets keeps to the grammar. -/
theorem Regular.readLineBreak (h : s.Regular source) (hdepth : s.depth = 0)
    (hfirst : Pattern.first? s.rest = some (.lineBreak, text, rest)) :
    (s.read .lineBreak text rest).Regular source := by
  obtain ⟨hkinds, hdepth', hblocks, -⟩ := read_lineBreak text rest hdepth
  have hclosed := isClosed_of_closedKinds hkinds
  have hhead : ∀ kind, (s.read .lineBreak text rest).kinds.head? = some kind → kind = .newline := by
    intro kind hhead
    rw [isClosed, lastKind?_eq, hhead] at hclosed
    simpa using hclosed
  have hzero : bracketDepth s.kinds.reverse = 0 := h.depth_eq ▸ hdepth
  have hblank : isBlankLine (s.rest.dropWhile isIndentation) = true := by
    refine eq_true_of_ne_false fun hfull => ?_
    have hkind : Role.lineBreak.kind? "" = none := rfl
    cases (isBlankLine_of_first? hfull hfirst hkind).1
  refine ⟨aligned_read h.aligned hfirst, ?_, ?_, ?_, h.inside_read hfirst, ?_, ?_⟩
  · rw [hkinds, closedKinds]
    split
    · exact h.placed
    · next hopen =>
      have hword := h.ends_with_word (Bool.eq_false_iff.mpr hopen) hblank
      exact ⟨⟨⟨by decide, hword, by simp⟩, fun _ => hzero⟩, h.placed⟩
  · rw [hdepth', hkinds, closedKinds]
    split
    · rw [hzero]
    · rw [List.reverse_cons, bracketDepth_concat, hzero]
      rfl
  · rw [hkinds, hblocks, closedKinds]
    split
    · exact h.blocks_eq
    · rw [List.count_cons_of_ne (by decide), List.count_cons_of_ne (by decide), h.blocks_eq]
  · exact fun _ => ⟨hdepth', hclosed⟩
  · rintro (hindent | hdedent)
    · cases hhead _ hindent
    · cases hhead _ hdedent

/-- Every reading keeps to the grammar. -/
theorem Regular.read (h : s.Regular source) (hstart : s.atLineStart = false)
    (hfirst : Pattern.first? s.rest = some (role, text, rest)) :
    (s.read role text rest).Regular source := by
  by_cases hbreak : role = .lineBreak ∧ s.depth = 0
  · rcases hbreak with ⟨rfl, hdepth⟩
    exact h.readLineBreak hdepth hfirst
  · cases hkind : role.kind? (String.ofList text) with
    | some kind => exact h.readWord hstart hfirst hkind
    | none =>
      have hlexeme : Lexeme.kind? ⟨some role, text⟩ = none := hkind
      obtain ⟨hkinds, hdepth, hblocks, hline⟩ := read_inside text rest hbreak
      rw [hlexeme, Option.toList_none, List.nil_append] at hkinds
      rw [Lexeme.depthAfter, hlexeme] at hdepth
      refine ⟨aligned_read h.aligned hfirst, ?_, ?_, ?_, h.inside_read hfirst, ?_, ?_⟩
      · rw [hkinds]
        exact h.placed
      · rw [hdepth, hkinds, h.depth_eq]
      · rw [hkinds, hblocks, h.blocks_eq]
      · rw [hline, hstart]
        simp
      · rw [hkinds]
        exact fun hhead => (isBlankLine_of_first? (h.owed hhead) hfirst hkind).2

/-- A run keeps a scanner regular. -/
theorem Regular.run {fuel : Nat} (h : s.Regular source) (hrun : Scanner.run source fuel s = .ok t) :
    t.Regular source :=
  run_keeps Regular.startLine Regular.read h hrun

/-- At the end of a source, its last line ends with a word. -/
theorem Regular.fits_closedKinds (h : s.Regular source) (hrest : s.rest = []) :
    EachFits Fits s.closedKinds := by
  have hfits : EachFits Fits s.kinds := h.placed.mono fun _ _ hplaced => hplaced.toFits
  rw [closedKinds]
  split
  · exact hfits
  · next hopen =>
    have hword := h.ends_with_word (Bool.eq_false_iff.mpr hopen) (by rw [hrest]; rfl)
    exact ⟨⟨by decide, hword, by simp⟩, hfits⟩

end Scanner

/-! ## Token lists -/

section Closed

variable {kinds before after : List TokenKind} {kind : TokenKind}

/-- Among fitting kinds there is no end of the file. -/
theorem EachFits.eof_not_mem (h : EachFits Fits kinds) : .eof ∉ kinds := by
  induction kinds with
  | nil => exact List.not_mem_nil
  | cons kind older ih =>
    rintro (_ | hmem)
    · exact h.1.notEnd rfl
    · exact ih h.2 ‹_›

/-- No more blocks are closed than are opened. -/
theorem EachFits.count_le (h : EachFits Fits kinds) :
    kinds.count .dedent ≤ kinds.count .indent := by
  induction kinds with
  | nil => exact Nat.le_refl _
  | cons kind older ih =>
    have hopened := h.1.opened
    have hbelow := ih h.2
    rw [List.count_cons, List.count_cons]
    cases kind <;> simp_all
    all_goals omega

/-- What is behind a kind other than the end of the file closes with the end of the file. -/
theorem split_of_eof (h : kinds ++ [.eof] = before ++ kind :: after) (hkind : kind ≠ .eof) :
    ∃ between, after = between ++ [.eof] ∧ kinds = before ++ kind :: between := by
  rcases List.eq_nil_or_concat after with rfl | ⟨between, last, rfl⟩
  · exact absurd (List.append_inj_right' h rfl).symm (by simpa using hkind)
  · have hsplit : kinds ++ [.eof] = (before ++ kind :: between) ++ [last] := by simpa using h
    obtain ⟨hkinds, hlast⟩ := List.append_inj' hsplit rfl
    exact ⟨between, by rw [List.concat_eq_append, ← hlast], hkinds⟩

/-- The last line of a row is ended, but for the ends of the blocks, if there is one. -/
def IsEnded (kinds : List TokenKind) : Prop :=
  kinds = [] ∨ ∃ older count, kinds = List.replicate count .dedent ++ .newline :: older

/-- What is ended does not end with the start of a block. -/
theorem IsEnded.ne_indent (h : IsEnded kinds) (older : List TokenKind) :
    kinds ≠ .indent :: older := by
  rcases h with rfl | ⟨older', count, rfl⟩
  · exact nofun
  · cases count <;> exact nofun

/-- A row in which each kind fits, closed by the end of the file, is well laid out if all blocks
are closed and its last line is ended. -/
theorem EachFits.wellLaidOut (h : EachFits Fits kinds)
    (hclosed : kinds.count .dedent = kinds.count .indent) (hlast : IsEnded kinds) :
    WellLaidOut (kinds.reverse ++ [.eof]) := by
  have hfits {before after : List TokenKind} {kind : TokenKind}
      (hsplit : kinds.reverse ++ [.eof] = before ++ kind :: after) (hkind : kind ≠ .eof) :
      Fits before.reverse kind := by
    rcases split_of_eof hsplit hkind with ⟨between, -, hkinds⟩
    exact h.at_split hkinds
  refine ⟨⟨_, rfl, ?_⟩, ?_, ?_, ?_, ?_, ?_, ?_⟩
  · rw [List.mem_reverse]
    exact h.eof_not_mem
  · rintro before ⟨after, hsplit⟩
    rcases List.eq_nil_or_concat after with rfl | ⟨between, last, rfl⟩
    · rw [List.append_nil] at hsplit
      simp [hsplit, List.count_append, hclosed]
    · have hkinds : before ++ between = kinds.reverse := by
        rw [List.concat_eq_append, ← List.append_assoc] at hsplit
        exact (List.append_inj' hsplit rfl).1
      have hbelow : EachFits Fits (between.reverse ++ before.reverse) := by
        rwa [← List.reverse_append, hkinds, List.reverse_reverse]
      simpa using hbelow.of_append.count_le
  · simp [List.count_append, hclosed]
  · intro before after hsplit
    simpa [MayFollow, and_comm] using (hfits hsplit nofun).follows
  · intro before after hsplit
    refine ⟨by simpa [MayFollow] using (hfits hsplit nofun).follows, ?_⟩
    rcases split_of_eof hsplit nofun with ⟨between, rfl, hkinds⟩
    cases between with
    | nil =>
      have htop : kinds = .indent :: before.reverse := by
        rw [← List.reverse_reverse kinds, hkinds]
        simp
      exact absurd htop (hlast.ne_indent before.reverse)
    | cons word between =>
      have hsplit' : kinds.reverse = (before ++ [TokenKind.indent]) ++ word :: between := by
        simpa using hkinds
      have hword : Fits (before ++ [TokenKind.indent]).reverse word := h.at_split hsplit'
      refine ⟨word, rfl, isLayout_of_indent ?_, hword.notEnd⟩
      simpa using hword.follows
  · intro before after hsplit
    simpa [MayFollow] using (hfits hsplit nofun).follows
  · rcases hlast with rfl | ⟨older, count, rfl⟩
    · exact .inl rfl
    · exact .inr ⟨older.reverse, count, by simp⟩

end Closed

/-- A run that succeeds has read everything. -/
theorem rest_of_run {source : Source} {fuel : Nat} {s t : Scanner}
    (h : Scanner.run source fuel s = .ok t) : t.rest = [] := by
  induction fuel generalizing s with
  | zero =>
    unfold Scanner.run at h
    split at h
    · next hnil =>
      cases h
      exact List.isEmpty_iff.mp hnil
    · cases h
  | succ fuel ih =>
    unfold Scanner.run at h
    split at h
    · next hnil =>
      cases h
      exact List.isEmpty_iff.mp hnil
    · cases hnext : s.step source with
      | error failure =>
        rw [hnext] at h
        cases h
      | ok next =>
        rw [hnext] at h
        exact ih h

/-- The open blocks are closed behind the end of the last line. -/
theorem Scanner.Regular.wellLaidOut {source : Source} {s : Scanner} (h : s.Regular source)
    (hrest : s.rest = []) (stop : Nat) : WellLaidOut ((s.finish stop).map Token.kind) := by
  have hcounts : s.closedKinds.count .indent = s.closedKinds.count .dedent + s.blocks.length := by
    rw [closedKinds]
    split
    · exact h.blocks_eq
    · rw [List.count_cons_of_ne (by decide), List.count_cons_of_ne (by decide), h.blocks_eq]
  have hhead : s.closedKinds = [] ∨ s.closedKinds.head? = some .newline := by
    rw [closedKinds]
    split
    · next hclosed => simpa [isClosed, lastKind?_eq] using hclosed
    · exact .inr rfl
  have hkinds : (s.finish stop).map Token.kind =
      (List.replicate s.blocks.length TokenKind.dedent ++ s.closedKinds).reverse ++ [.eof] := by
    rw [finish_kinds, List.reverse_append, List.reverse_replicate]
  rw [hkinds]
  refine EachFits.wellLaidOut (eachFits_replicate (h.fits_closedKinds hrest) fun n hn => ?_) ?_ ?_
  · refine fits_dedent (hhead.resolve_left fun hnil => ?_) (by omega)
    simp [hnil] at hcounts
    omega
  · simp [List.count_append, List.count_replicate, hcounts, Nat.add_comm]
  · rcases hhead with hnil | hnewline
    · simp only [hnil, List.count_nil] at hcounts ⊢
      have hnone : s.blocks.length = 0 := by omega
      exact .inl (by rw [hnone]; rfl)
    · rcases List.head?_eq_some_iff.mp hnewline with ⟨older, holder⟩
      exact .inr ⟨older, s.blocks.length, by rw [holder]⟩

/-- What a scanner adds at the end of a source is all that may stand inside brackets. -/
theorem Scanner.Regular.layoutOutsideBrackets {source : Source} {s : Scanner}
    (h : s.Regular source) :
    LayoutOutsideBrackets (Source.byteSize source) (s.finish (Source.byteSize source)) := by
  refine ⟨s.tokens.reverse,
    if s.isClosed then [] else [.newline (.empty (Source.byteSize source))],
    s.blocks.length, ?_, ?_, ?_, ?_⟩
  · rw [finish_eq, List.map_const']
  · split
    · exact .inl rfl
    · exact .inr rfl
  · intro token htoken
    exact h.inside token (List.mem_reverse.mp htoken)
  · intro before token after hsplit hlayout
    have hkinds : s.kinds.reverse =
        before.map Token.kind ++ token.kind :: after.map Token.kind := by
      rw [kinds, ← List.map_reverse, hsplit, List.map_append, List.map_cons]
    have houtside := (h.placed.at_split hkinds).outside hlayout
    rwa [List.reverse_reverse] at houtside

/-- The tokens of every source that has some obey the grammar of layout: the end of the file stands
at the end only; no block is closed that is not open, and in the end all are closed; the end of a
line follows a word; a block is opened at the start of a line, before a word; blocks are closed at
the start of a line; the last line is ended; and but for what is added at the end of the source, no
layout stands where a bracket is open. -/
theorem tokenize_wellLaidOut {source : Source} {tokens : List Token}
    (h : tokenize source = .ok tokens) :
    WellLaidOut (tokens.map Token.kind) ∧
      LayoutOutsideBrackets (Source.byteSize source) tokens := by
  unfold tokenize at h
  cases hrun : Scanner.run source source.length (.start source) with
  | error failure =>
    rw [hrun] at h
    nomatch h
  | ok last =>
    rw [hrun] at h
    cases h
    have hregular := (Scanner.regular_start source).run hrun
    exact ⟨hregular.wellLaidOut (rest_of_run hrun) _, hregular.layoutOutsideBrackets⟩

/-- Two blocks that end with the source, inside a bracket; with a bracket over two lines, a comment,
blank lines and carriage returns on their own before them. -/
theorem tokenize_wellLaidOut_openBracket :
    ∃ tokens, tokenize "if (\na):\n\n  \r# b\n  if c:\r\r\n \r\n   d[".toList = .ok tokens ∧
      WellLaidOut (tokens.map Token.kind) ∧ LayoutOutsideBrackets 35 tokens := by
  have hok : (tokenize "if (\na):\n\n  \r# b\n  if c:\r\r\n \r\n   d[".toList).isOk = true := by
    decide +kernel
  cases htokens : tokenize "if (\na):\n\n  \r# b\n  if c:\r\r\n \r\n   d[".toList with
  | error failure =>
    rw [htokens] at hok
    nomatch hok
  | ok tokens => exact ⟨tokens, rfl, tokenize_wellLaidOut htokens⟩

end Offside
