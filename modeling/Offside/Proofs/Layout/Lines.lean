import Offside.Proofs.Layout.Lexemes
import Offside.Token.Scanner

/-!
# Logical lines

The layout of a source as an algorithm on its lines: the lexemes are cut into lines where a
line feed stands outside brackets, and the widths of the lines that are neither blank nor only
a comment are folded over a stack.

Main definitions:

- `splitLines` and `logicalLines`: the lines of a source.
- `Line.width` and `Line.words`: the indentation of a line, and the kinds of its tokens.
- `indent?`: what the width of a line does to the stack of widths.
- `layout?`: the kinds of all tokens of some lines, and the widths that are left at the end.

Main results:

- Theorem `exists_line`: the first line is all there is, or it ends at a line feed.
- Theorem `Line.words_ne_nil`: a line that is not blank has tokens.
- Theorem `LineOf.layout`: the characters behind the indentation tell whether a line is blank,
  and those before them how wide it is.
-/

namespace Offside

/-! ## Lines -/

/-- The number of open brackets behind a lexeme. -/
def Lexeme.depthAfter (depth : Nat) (lexeme : Lexeme) : Nat :=
  match lexeme.kind? with
  | some kind => Scanner.depthAfter depth kind
  | none => depth

/-- The lexemes of a line, without its end. -/
abbrev Line := List Lexeme

namespace Line

/-- Whether a line holds nothing but blanks and a comment. -/
def isBlank (line : Line) : Bool := line.all Lexeme.isSkipped

/-- The text of a line. -/
def text (line : Line) : Source := line.flatMap Lexeme.text

/-- The number of blanks and tabs that a line starts with. -/
def width (line : Line) : Nat := (line.text.takeWhile Scanner.isIndentation).length

/-- The kinds of the tokens of a line. -/
def words (line : Line) : List TokenKind := line.filterMap Lexeme.kind?

/-- The number of open brackets behind a line. -/
def depthAfter (depth : Nat) (line : Line) : Nat := line.foldl Lexeme.depthAfter depth

end Line

/-- Adds a lexeme to the first of some lines. -/
def consLine (lexeme : Lexeme) : List Line → List Line
  | [] => [[lexeme]]
  | line :: lines => (lexeme :: line) :: lines

/-- Cuts lexemes into lines, where a line ends outside brackets. -/
def splitLines (depth : Nat) : List Lexeme → List Line
  | [] => [[]]
  | lexeme :: more =>
    if lexeme.isBreak && depth = 0 then [] :: splitLines 0 more
    else consLine lexeme (splitLines (lexeme.depthAfter depth) more)

/-- The lines that are neither blank nor only a comment. -/
def fullLines (all : List Lexeme) : List Line :=
  (splitLines 0 all).filter fun line => !line.isBlank

/-- The logical lines of a source, up to the first character that nothing starts with. -/
def logicalLines (source : Source) : List Line := fullLines (lexemes source)

/-! ## The stack of widths -/

/-- What the width of a line does to the widths of the open blocks, the innermost first: the
kinds of the tokens that it yields, and the widths then.  A width above the top opens a block;
one below it closes the blocks with a larger width, and then has to be that of a block. -/
def indent? (stack : List Nat) (width : Nat) : Option (List TokenKind × List Nat) :=
  if stack.headD 0 < width then some ([.indent], width :: stack)
  else if width = stack.headD 0 then some ([], stack)
  else
    let closed := stack.takeWhile (width < ·)
    let left := stack.dropWhile (width < ·)
    if left.headD 0 = width then some (List.replicate closed.length .dedent, left) else none

/-- The kinds of the tokens of some lines, each with its layout before and a line end behind,
and the widths that are left; or that some width is none of a block. -/
def layout? (stack : List Nat) : List Line → Option (List TokenKind × List Nat)
  | [] => some ([], stack)
  | line :: lines => do
    let (marks, stack) ← indent? stack line.width
    let (more, stack) ← layout? stack lines
    return (marks ++ line.words ++ [.newline] ++ more, stack)

/-! ## Where lines end -/

/-- No lexeme of a line ends it: all line feeds stand inside brackets. -/
def Line.Whole (depth : Nat) : Line → Prop
  | [] => True
  | lexeme :: more => ¬(lexeme.isBreak = true ∧ depth = 0) ∧
    Line.Whole (lexeme.depthAfter depth) more

/-- A line is the first of some lexemes: it is all there is, or it ends at a line feed outside
brackets. -/
structure Line.IsFirst (depth : Nat) (line : Line) (all : List Lexeme) : Prop where
  whole : line.Whole depth
  ends : all = line ∨ ∃ lineEnd more, lineEnd.isBreak = true ∧ all = line ++ lineEnd :: more ∧
    line.depthAfter depth = 0

/-- Lexemes begin with a line. -/
theorem exists_line (depth : Nat) (all : List Lexeme) :
    ∃ line : Line, line.IsFirst depth all := by
  induction all generalizing depth with
  | nil => exact ⟨[], trivial, .inl rfl⟩
  | cons lexeme all ih =>
    by_cases hend : lexeme.isBreak = true ∧ depth = 0
    · exact ⟨[], trivial, .inr ⟨lexeme, all, hend.1, rfl, hend.2⟩⟩
    · rcases ih (lexeme.depthAfter depth) with
        ⟨line, hwhole, hall | ⟨lineEnd, more, hbreak, rfl, hdepth⟩⟩
      · exact ⟨lexeme :: line, ⟨hend, hwhole⟩, .inl (by rw [hall])⟩
      · exact ⟨lexeme :: line, ⟨hend, hwhole⟩, .inr ⟨lineEnd, more, hbreak, rfl, hdepth⟩⟩

/-- A lexeme that ends no line belongs to the first one. -/
theorem splitLines_cons {depth : Nat} {lexeme : Lexeme}
    (h : ¬(lexeme.isBreak = true ∧ depth = 0)) (more : List Lexeme) :
    splitLines depth (lexeme :: more) =
      consLine lexeme (splitLines (lexeme.depthAfter depth) more) := by
  simp only [splitLines, Bool.and_eq_true, decide_eq_true_eq, if_neg h]

/-- A whole line is the only one. -/
theorem splitLines_whole {depth : Nat} {line : Line} (h : line.Whole depth) :
    splitLines depth line = [line] := by
  induction line generalizing depth with
  | nil => rfl
  | cons lexeme line ih => rw [splitLines_cons h.1, ih h.2, consLine]

/-- A whole line and its end are followed by the other lines. -/
theorem splitLines_append {depth : Nat} {line : Line} {lineEnd : Lexeme} {more : List Lexeme}
    (h : line.Whole depth) (hbreak : lineEnd.isBreak = true) (hdepth : line.depthAfter depth = 0) :
    splitLines depth (line ++ lineEnd :: more) = line :: splitLines 0 more := by
  induction line generalizing depth with
  | nil =>
    have hzero : depth = 0 := hdepth
    subst hzero
    simp [splitLines, hbreak]
  | cons lexeme line ih => rw [List.cons_append, splitLines_cons h.1, ih h.2 hdepth, consLine]

/-- Without lexemes there is no full line. -/
theorem fullLines_nil : fullLines [] = [] := rfl

/-- A whole line is full unless it is blank. -/
theorem fullLines_whole {line : Line} (h : line.Whole 0) :
    fullLines line = if line.isBlank then [] else [line] := by
  rw [fullLines, splitLines_whole h]
  cases hblank : line.isBlank <;> simp [hblank]

/-- A whole line and its end are followed by the other full lines. -/
theorem fullLines_append {line : Line} {lineEnd : Lexeme} {more : List Lexeme} (h : line.Whole 0)
    (hbreak : lineEnd.isBreak = true) (hdepth : line.depthAfter 0 = 0) :
    fullLines (line ++ lineEnd :: more) =
      if line.isBlank then fullLines more else line :: fullLines more := by
  rw [fullLines, splitLines_append h hbreak hdepth]
  cases hblank : line.isBlank <;> simp [hblank, fullLines]

/-- A line that is not blank is the first of the full lines. -/
theorem Line.IsFirst.fullLines_eq {line : Line} {all : List Lexeme} (h : line.IsFirst 0 all)
    (hblank : line.isBlank = false) : ∃ lines, fullLines all = line :: lines := by
  rcases h.ends with rfl | ⟨lineEnd, more, hbreak, rfl, hdepth⟩
  · exact ⟨[], by rw [fullLines_whole h.whole, hblank, if_neg Bool.false_ne_true]⟩
  · exact ⟨_, by rw [fullLines_append h.whole hbreak hdepth, hblank, if_neg Bool.false_ne_true]⟩

/-- A full line is not blank, all its line feeds stand inside brackets, and it is made of the
lexemes. -/
theorem full_of_mem_fullLines {line : Line} {all : List Lexeme} (h : line ∈ fullLines all) :
    line.isBlank = false ∧ line.Whole 0 ∧ ∀ lexeme ∈ line, lexeme ∈ all := by
  induction hlength : all.length using Nat.strongRecOn generalizing all with
  | ind length ih =>
    subst hlength
    rcases exists_line 0 all with ⟨first, hwhole, hall | ⟨lineEnd, more, hbreak, rfl, hdepth⟩⟩
    · rw [hall, fullLines_whole hwhole] at h
      cases hblank : first.isBlank with
      | true => simp [hblank] at h
      | false =>
        have hline : line = first := by simpa [hblank] using h
        subst hline
        exact ⟨hblank, hwhole, fun _ hmem => hall ▸ hmem⟩
    · have hmore (hmem : line ∈ fullLines more) : line.isBlank = false ∧ line.Whole 0 ∧
          ∀ lexeme ∈ line, lexeme ∈ first ++ lineEnd :: more := by
        obtain ⟨hfull, hline, hlexemes⟩ := ih _ (by simp; omega) hmem rfl
        exact ⟨hfull, hline, fun lexeme hlexeme =>
          List.mem_append_right _ (List.mem_cons_of_mem _ (hlexemes lexeme hlexeme))⟩
      rw [fullLines_append hwhole hbreak hdepth] at h
      cases hblank : first.isBlank with
      | true => exact hmore (by simpa [hblank] using h)
      | false =>
        rw [hblank, if_neg Bool.false_ne_true] at h
        rcases List.mem_cons.mp h with rfl | hmem
        · exact ⟨hblank, hwhole, fun _ hlexeme => List.mem_append_left _ hlexeme⟩
        · exact hmore hmem

/-- A line is made of the first lexemes. -/
theorem Line.IsFirst.mem {depth : Nat} {line : Line} {all : List Lexeme}
    (h : line.IsFirst depth all) {lexeme : Lexeme} (hmem : lexeme ∈ line) : lexeme ∈ all := by
  rcases h.ends with rfl | ⟨lineEnd, more, -, rfl, -⟩
  · exact hmem
  · exact List.mem_append_left _ hmem

/-- The beginning of a whole line is whole. -/
theorem Line.Whole.of_append {depth : Nat} {line more : Line}
    (h : Line.Whole depth (line ++ more)) : line.Whole depth := by
  induction line generalizing depth with
  | nil => trivial
  | cons lexeme line ih => exact ⟨h.1, ih h.2⟩

/-- A blank line has no tokens. -/
theorem Line.words_of_isBlank {line : Line} (h : line.isBlank = true) :
    line.words = [] ∧ line.depthAfter 0 = 0 ∧ ∀ lexeme ∈ line, lexeme.role ≠ none := by
  induction line with
  | nil => simp [Line.words, Line.depthAfter]
  | cons lexeme line ih =>
    rw [Line.isBlank, List.all_cons, Bool.and_eq_true] at h
    have hrole : lexeme.role = some .skipped := of_decide_eq_true h.1
    have hkind : lexeme.kind? = none := by simp [Lexeme.kind?, hrole, Role.kind?]
    obtain ⟨hwords, hdepth, hroles⟩ := ih h.2
    refine ⟨?_, ?_, ?_⟩
    · rw [Line.words, List.filterMap_cons_none hkind]
      exact hwords
    · rw [Line.depthAfter, List.foldl_cons, Lexeme.depthAfter, hkind]
      exact hdepth
    · intro other hother
      rcases List.mem_cons.mp hother with rfl | hmem
      · simp [hrole]
      · exact hroles other hmem

/-- A line that is not blank has tokens: its first line feed, if there is one, stands inside
brackets. -/
theorem Line.words_ne_nil {line : Line} (h : line.isBlank = false) (hwhole : line.Whole 0)
    (hroles : ∀ lexeme ∈ line, lexeme.role ≠ none) : line.words ≠ [] := by
  induction line with
  | nil => cases h
  | cons lexeme line ih =>
    cases hkind : lexeme.kind? with
    | some kind =>
      rw [Line.words, List.filterMap_cons_some hkind]
      exact List.cons_ne_nil _ _
    | none =>
      have hskipped : lexeme.isSkipped = true := by
        cases hrole : lexeme.role with
        | none => exact absurd hrole (hroles lexeme List.mem_cons_self)
        | some role =>
          cases role with
          | skipped => simp [Lexeme.isSkipped, hrole]
          | lineBreak =>
            have hbreak : lexeme.isBreak = true := by simp [Lexeme.isBreak, hrole]
            exact absurd ⟨hbreak, rfl⟩ hwhole.1
          | word | number | string | mark kind => simp [Lexeme.kind?, hrole, Role.kind?] at hkind
      have hdepth : lexeme.depthAfter 0 = 0 := by rw [Lexeme.depthAfter, hkind]
      rw [Line.isBlank, List.all_cons, hskipped, Bool.true_and] at h
      rw [Line.words, List.filterMap_cons_none hkind]
      exact ih h (hdepth ▸ hwhole.2)
        fun other hother => hroles other (List.mem_cons_of_mem _ hother)

/-- The words of lexemes of a source are no layout. -/
theorem Line.isLayout_of_mem_words {line : Line} {source : Source}
    (hline : ∀ lexeme ∈ line, lexeme ∈ lexemes source) :
    ∀ kind ∈ line.words, kind.isLayout = false := by
  intro kind hmem
  rcases List.mem_filterMap.mp hmem with ⟨lexeme, hlexeme, hkind⟩
  exact isLayout_of_mem_lexemes (hline lexeme hlexeme) hkind

/-- If all characters of a source are part of something, each of its logical lines has tokens,
and none of them is layout. -/
theorem words_of_mem_logicalLines {line : Line} {source : Source}
    (hroles : ∀ lexeme ∈ lexemes source, lexeme.role ≠ none) (h : line ∈ logicalLines source) :
    line.words ≠ [] ∧ ∀ kind ∈ line.words, kind.isLayout = false := by
  obtain ⟨hfull, hwhole, hlexemes⟩ := full_of_mem_fullLines h
  refine ⟨?_, Line.isLayout_of_mem_words hlexemes⟩
  exact Line.words_ne_nil hfull hwhole fun lexeme hmem => hroles lexeme (hlexemes lexeme hmem)

/-! ## Where lines start -/

/-- Whether carriage returns stand only right before line feeds. -/
def returnsEndLines : Source → Bool
  | [] => true
  | c :: rest => (c ≠ '\r' || rest.head? = some '\n') && returnsEndLines rest

/-- Behind any text the carriage returns still end lines. -/
theorem returnsEndLines_append {text rest : Source} (h : returnsEndLines (text ++ rest) = true) :
    returnsEndLines rest = true := by
  induction text with
  | nil => exact h
  | cons c text ih =>
    rw [List.cons_append, returnsEndLines, Bool.and_eq_true] at h
    exact ih h.2

/-- A carriage return is followed by a line feed. -/
theorem returnsEndLines_return {rest : Source} (h : returnsEndLines ('\r' :: rest) = true) :
    ∃ more, rest = '\n' :: more := by
  rw [returnsEndLines, Bool.and_eq_true] at h
  have hhead : rest.head? = some '\n' := by simpa using h.1
  rcases List.head?_eq_some_iff.mp hhead with ⟨more, hmore⟩
  exact ⟨more, hmore⟩

/-- The blanks that are read at once are the indentation, or the carriage return behind it is
read with them. -/
theorem spaces_cases {source : Source} (h : returnsEndLines source = true) :
    (source.takeWhile Shape.isSpace = source.takeWhile Scanner.isIndentation ∧
      source.dropWhile Shape.isSpace = source.dropWhile Scanner.isIndentation) ∨
    ∃ more, source.dropWhile Scanner.isIndentation = '\r' :: '\n' :: more ∧
      source.dropWhile Shape.isSpace = '\n' :: more := by
  induction source with
  | nil => exact .inl ⟨rfl, rfl⟩
  | cons c source ih =>
    by_cases hindentation : Scanner.isIndentation c = true
    · have hspace : Shape.isSpace c = true := by
        rw [Shape.isSpace, Bool.or_eq_true]
        exact .inl hindentation
      rw [returnsEndLines, Bool.and_eq_true] at h
      simpa [hindentation, hspace] using ih h.2
    · by_cases hreturn : c = '\r'
      · subst hreturn
        rcases returnsEndLines_return h with ⟨more, rfl⟩
        exact .inr ⟨more, rfl, rfl⟩
      · have hspace : Shape.isSpace c = false := by
          rw [Shape.isSpace, Bool.or_eq_false_iff]
          exact ⟨Bool.eq_false_iff.mpr hindentation, decide_eq_false hreturn⟩
        simp [hindentation, hspace]

/-- They do so behind what is dropped, too. -/
theorem returnsEndLines_dropWhile {source : Source} {passes : Char → Bool}
    (h : returnsEndLines source = true) : returnsEndLines (source.dropWhile passes) = true := by
  have hsplit : source.takeWhile passes ++ source.dropWhile passes = source :=
    List.takeWhile_append_dropWhile
  exact returnsEndLines_append (hsplit.symm ▸ h)

/-- Behind the indentation there is none. -/
theorem head?_dropWhile (source : Source) :
    ∀ c ∈ (source.dropWhile Scanner.isIndentation).head?, Scanner.isIndentation c = false := by
  intro c hc
  have hnot := List.head?_dropWhile_not Scanner.isIndentation source
  rw [hc] at hnot
  simpa using hnot

/-- What does not start with indentation has none. -/
theorem split_of_unindented {source : Source}
    (h : ∀ c ∈ source.head?, Scanner.isIndentation c = false) :
    source.takeWhile Scanner.isIndentation = [] ∧
      source.dropWhile Scanner.isIndentation = source := by
  cases source with
  | nil => exact ⟨rfl, rfl⟩
  | cons c rest => simp [h c rfl]

/-- Skipped text leaves a blank line blank. -/
theorem Line.isBlank_skipped (word : Source) (line : Line) :
    Line.isBlank (⟨some .skipped, word⟩ :: line) = line.isBlank := rfl

/-- A line is as wide as the blanks before its first word. -/
theorem Line.width_skipped {blanks : Source} {line : Line}
    (hblanks : ∀ c ∈ blanks, Scanner.isIndentation c = true)
    (hline : line.text.takeWhile Scanner.isIndentation = []) :
    Line.width (⟨some .skipped, blanks⟩ :: line) = blanks.length := by
  have htext : Line.text (⟨some .skipped, blanks⟩ :: line) = blanks ++ line.text := rfl
  rw [Line.width, htext, List.takeWhile_append_of_pos hblanks, hline, List.append_nil]

/-- The first line of a source. -/
abbrev LineOf (source : Source) (line : Line) : Prop := line.IsFirst 0 (lexemes source)

namespace LineOf

variable {source text rest : Source} {line : Line} {role : Role}

/-- A line starts with what is read first, unless that is a line feed. -/
theorem eq_cons (h : LineOf source line) {lexeme : Lexeme} {more : List Lexeme}
    (hlexemes : lexemes source = lexeme :: more) (hbreak : lexeme.isBreak = false) :
    ∃ behind, line = lexeme :: behind := by
  rcases h.ends with hall | ⟨lineEnd, after, hend, hall, -⟩
  · exact ⟨more, hall.symm.trans hlexemes⟩
  · rw [hlexemes] at hall
    cases line with
    | nil =>
      rw [List.nil_append, List.cons.injEq] at hall
      rw [hall.1, hend] at hbreak
      cases hbreak
    | cons first behind =>
      rw [List.cons_append, List.cons.injEq] at hall
      exact ⟨behind, by rw [hall.1]⟩

/-- A line whose first lexeme is a line break is empty. -/
theorem eq_nil (h : LineOf source line) (hlexemes : ∀ lexeme ∈ (lexemes source).head?,
    lexeme.isBreak = true) : line = [] := by
  cases line with
  | nil => rfl
  | cons first behind =>
    have hhead : (lexemes source).head? = some first := by
      rcases h.ends with hall | ⟨lineEnd, more, -, hall, -⟩ <;> rw [hall] <;> rfl
    exact absurd ⟨hlexemes first hhead, rfl⟩ h.whole.1

/-- Behind a piece without a token the line goes on as one of the rest. -/
theorem tail {behind : Line} {word : Source} (h : LineOf source (⟨some .skipped, word⟩ :: behind))
    (hfirst : Pattern.first? source = some (.skipped, text, rest)) : LineOf rest behind := by
  have hlexemes := lexemes_of_first? hfirst
  rcases h.ends with hall | ⟨lineEnd, more, hbreak, hall, hdepth⟩
  · rw [hlexemes, List.cons.injEq] at hall
    exact ⟨h.whole.2, .inl hall.2⟩
  · rw [hlexemes, List.cons_append, List.cons.injEq] at hall
    exact ⟨h.whole.2, .inr ⟨lineEnd, more, hbreak, hall.2, hdepth⟩⟩

/-- At the end of the source there is the empty line. -/
theorem nil (h : LineOf [] line) : line = [] := h.eq_nil nofun

/-- A line that starts with its end is empty. -/
theorem lineFeed (h : LineOf ('\n' :: rest) line) : line = [] := by
  apply h.eq_nil
  rw [lexemes_of_first? first?_lineFeed]
  rintro _ ⟨rfl⟩
  rfl

/-- So it is in front of a carriage return and a line feed. -/
theorem returnLineFeed (h : LineOf ('\r' :: '\n' :: rest) line) : line = [] := by
  apply h.eq_nil
  rw [lexemes_of_first? first?_returnLineFeed]
  rintro _ ⟨rfl⟩
  rfl

/-- A line that starts with a comment is nothing else. -/
theorem comment (h : LineOf ('#' :: rest) line) : line.isBlank = true := by
  rcases h.eq_cons (lexemes_of_first? first?_comment) rfl with ⟨behind, rfl⟩
  have hbehind := h.tail first?_comment
  have hnil : behind = [] := by
    cases hrest : rest.dropWhile (· ≠ '\n') with
    | nil =>
      rw [hrest] at hbehind
      exact hbehind.nil
    | cons c more =>
      have hc : c = '\n' := by
        have hhead := List.head?_dropWhile_not (fun c => decide (c ≠ '\n')) rest
        rw [hrest] at hhead
        simpa using hhead
      rw [hrest, hc] at hbehind
      exact hbehind.lineFeed
  rw [hnil]
  rfl

/-- What starts neither with a blank nor with a comment nor with the end of the line is a word,
a mark or nothing, which is not blank. -/
theorem word {c : Char} (h : LineOf (c :: rest) line)
    (hc : c ≠ ' ' ∧ c ≠ '\t' ∧ c ≠ '\r' ∧ c ≠ '\n' ∧ c ≠ '#') :
    line.isBlank = false ∧ ∃ more, line.text = c :: more := by
  have hlexemes : ∃ lexeme more, lexemes (c :: rest) = lexeme :: more ∧
      lexeme.isBreak = false ∧ lexeme.isSkipped = false ∧ ∃ chars, lexeme.text = c :: chars := by
    cases hfirst : Pattern.first? (c :: rest) with
    | none => exact ⟨_, _, lexemes_of_first?_none hfirst, rfl, rfl, [], rfl⟩
    | some entry =>
      rcases entry with ⟨role, text, behind⟩
      have hkind : role.kind? (String.ofList text) ≠ none := by
        intro hnone
        have hplain := first_of_kind?_none hfirst hnone
        simp_all
      obtain ⟨happend, hne⟩ := first?_append hfirst
      rcases List.exists_cons_of_ne_nil hne with ⟨d, chars, rfl⟩
      rw [List.cons_append, List.cons.injEq] at happend
      refine ⟨_, _, lexemes_of_first? hfirst, ?_, ?_, chars, by rw [happend.1]⟩
      · cases role <;> first | rfl | exact absurd rfl hkind
      · cases role <;> first | rfl | exact absurd rfl hkind
  rcases hlexemes with ⟨lexeme, more, hcons, hbreak, hskipped, chars, htext⟩
  rcases h.eq_cons hcons hbreak with ⟨behind, rfl⟩
  refine ⟨by simp [Line.isBlank, hskipped], chars ++ Line.text behind, ?_⟩
  simp [Line.text, htext]

/-- Without indentation, the first character tells whether a line is blank. -/
theorem unindented (h : LineOf source line) (hreturns : returnsEndLines source = true)
    (hstart : ∀ c ∈ source.head?, Scanner.isIndentation c = false) :
    line.isBlank = Scanner.isBlankLine source ∧
      (line.isBlank = false → line.text.takeWhile Scanner.isIndentation = []) := by
  cases source with
  | nil => simp [h.nil, Line.isBlank, Scanner.isBlankLine]
  | cons c rest =>
    have hindentation : Scanner.isIndentation c = false := hstart c rfl
    by_cases hfeed : c = '\n'
    · subst hfeed
      simp [h.lineFeed, Line.isBlank, Scanner.isBlankLine]
    · by_cases hreturn : c = '\r'
      · subst hreturn
        rcases returnsEndLines_return hreturns with ⟨more, rfl⟩
        simp [h.returnLineFeed, Line.isBlank, Scanner.isBlankLine]
      · by_cases hcomment : c = '#'
        · subst hcomment
          simp [h.comment, Scanner.isBlankLine]
        · have hblank : c ≠ ' ' ∧ c ≠ '\t' := by
            simpa [Scanner.isIndentation, not_or] using hindentation
          obtain ⟨hline, more, htext⟩ :=
            h.word ⟨hblank.1, hblank.2, hreturn, hfeed, hcomment⟩
          rw [htext, List.takeWhile_cons_of_neg (by simp [hindentation])]
          simp [hline, Scanner.isBlankLine, hfeed, hreturn, hcomment]

/-- An indented line starts with its blanks. -/
theorem indented {c : Char} (h : LineOf (c :: rest) line)
    (hc : Scanner.isIndentation c = true) :
    ∃ behind, line = ⟨some .skipped, c :: rest.takeWhile Shape.isSpace⟩ :: behind ∧
      LineOf (rest.dropWhile Shape.isSpace) behind := by
  have hspace : c = ' ' ∨ c = '\t' := by simpa [Scanner.isIndentation] using hc
  have hfirst : Pattern.first? (c :: rest) = some (.skipped, c :: rest.takeWhile Shape.isSpace,
      rest.dropWhile Shape.isSpace) := first?_blanks hspace
  rcases h.eq_cons (lexemes_of_first? hfirst) rfl with ⟨behind, rfl⟩
  exact ⟨behind, rfl, h.tail hfirst⟩

/-- The indentation of a line, and whether there is anything behind it. -/
theorem layout (h : LineOf source line) (hreturns : returnsEndLines source = true) :
    line.isBlank = Scanner.isBlankLine (source.dropWhile Scanner.isIndentation) ∧
      (line.isBlank = false →
        line.width = (source.takeWhile Scanner.isIndentation).length) := by
  by_cases hstart : ∀ c ∈ source.head?, Scanner.isIndentation c = false
  · obtain ⟨hblank, hwidth⟩ := h.unindented hreturns hstart
    obtain ⟨htake, hdrop⟩ := split_of_unindented hstart
    rw [hdrop, htake]
    exact ⟨hblank, fun hline => by rw [Line.width, hwidth hline]⟩
  · cases source with
    | nil => exact absurd nofun hstart
    | cons c rest =>
      have hc : Scanner.isIndentation c = true := by simpa using hstart
      have hrest : returnsEndLines rest = true :=
        returnsEndLines_append (show returnsEndLines ([c] ++ rest) = true from hreturns)
      rcases h.indented hc with ⟨behind, rfl, hbehind⟩
      rw [Line.isBlank_skipped, List.dropWhile_cons_of_pos hc, List.takeWhile_cons_of_pos hc]
      -- A carriage return belongs to the blanks that are read, but not to the indentation.
      rcases spaces_cases hrest with ⟨htake, hdrop⟩ | ⟨more, hreturn, hdrop⟩
      · rw [hdrop] at hbehind
        obtain ⟨hline, hwidth⟩ :=
          hbehind.unindented (returnsEndLines_dropWhile hrest) (head?_dropWhile rest)
        refine ⟨hline, fun hfull => ?_⟩
        rw [htake]
        apply Line.width_skipped ?_ (hwidth hfull)
        intro d hd
        rcases List.mem_cons.mp hd with rfl | hmem
        · exact hc
        · exact List.all_eq_true.mp List.all_takeWhile d hmem
      · rw [hdrop] at hbehind
        rw [hbehind.lineFeed, hreturn]
        exact ⟨rfl, nofun⟩

end LineOf

end Offside
