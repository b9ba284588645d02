import Offside.Proofs.Layout.Lines
import Offside.Proofs.Source.Places

/-!
# The scanner follows the lines

The scanner goes through a source character by character; its state says whether a logical
line starts, how many brackets are open and which blocks.  Here its run is cut into lines: what
happens at the start of a line, what on the line, and what at its end.

Main definitions:

- `Scanner.scan`: the run from a state to the end of the source.
- `Scanner.AtLine`: a scanner at the start of a logical line.
- `Scanner.LaysOut`: a run does what the layout of some lines asks for.

Main results:

- Theorem `scan_line`: on a line, the scanner adds the tokens of the line.
- Theorem `laysOut_fullLines`: from the start of a line, the run does what the lines ask for.
- Theorem `tokenize_layout`: the layout of a source is that of its lines.
-/

namespace Offside
namespace Scanner

variable {source text rest : Source} {role : Role} {s t : Scanner}

/-! ## States -/

/-- The kinds of the tokens so far, the newest first. -/
def kinds (s : Scanner) : List TokenKind := s.tokens.map Token.kind

/-- The last kind of token is the first of those kept. -/
theorem lastKind?_eq (s : Scanner) : s.lastKind? = s.kinds.head? := by
  rw [lastKind?, kinds, List.head?_map]

/-- The scanner behind a piece of the source that it has read. -/
def read (s : Scanner) (role : Role) (text rest : Source) : Scanner :=
  { s.emit role text with position := s.position + Source.byteSize text, rest := rest }

/-- One reading is that of the pattern that matches longest. -/
theorem readOne_of_first? (h : Pattern.first? s.rest = some (role, text, rest)) :
    s.readOne source = .ok (s.read role text rest) := by
  rw [readOne, h]
  rfl

/-! ## Indentation -/

/-- Closing blocks only adds tokens. -/
theorem foldl_dedent (width : Nat) (closed : List Nat) (s : Scanner) :
    closed.foldl (fun s _ => s.push (.dedent (s.position + width))) s =
      { s with
        tokens := List.replicate closed.length (.dedent (s.position + width)) ++ s.tokens } := by
  induction closed generalizing s with
  | nil => rfl
  | cons block closed ih =>
    have hpush : s.push (.dedent (s.position + width)) =
        { s with tokens := .dedent (s.position + width) :: s.tokens } := rfl
    rw [List.foldl_cons, hpush, ih, List.length_cons, List.replicate_succ', List.append_assoc]
    rfl

/-- A line that is not indented further closes all blocks above its width. -/
theorem indentTo_of_le {width : Nat} (h : ¬s.width < width) : s.indentTo width = { s with
    tokens := List.replicate (s.blocks.takeWhile (width < ·)).length
      (.dedent (s.position + width)) ++ s.tokens
    blocks := s.blocks.dropWhile (width < ·) } := by
  rw [indentTo, if_neg h, foldl_dedent]

/-- The layout at the start of a line changes only the tokens and the blocks. -/
theorem indentTo_eq (s : Scanner) (width : Nat) : s.indentTo width =
    { s with tokens := (s.indentTo width).tokens, blocks := (s.indentTo width).blocks } := by
  by_cases h : s.width < width
  · rw [indentTo, if_pos h]
    rfl
  · rw [indentTo_of_le h]

/-- Behind all blocks there is the margin. -/
theorem headD_append_zero (blocks : List Nat) : (blocks ++ [0]).headD 0 = blocks.headD 0 := by
  cases blocks <;> rfl

/-- The blocks that are closed are those of the stack with its bottom. -/
theorem dropWhile_blocks (blocks : List Nat) (width : Nat) :
    (blocks ++ [0]).dropWhile (width < ·) = blocks.dropWhile (width < ·) ++ [0] ∧
      (blocks ++ [0]).takeWhile (width < ·) = blocks.takeWhile (width < ·) := by
  induction blocks with
  | nil => simp
  | cons block blocks ih =>
    by_cases hlt : width < block
    · simpa [hlt] using ih
    · simp [hlt]

/-- A line as wide as the innermost block closes none. -/
theorem takeWhile_width (s : Scanner) :
    s.blocks.takeWhile (s.width < ·) = [] ∧ s.blocks.dropWhile (s.width < ·) = s.blocks := by
  cases hblocks : s.blocks <;> simp [width, hblocks]

/-- The layout at the start of a line is what its width does to the stack. -/
theorem indentTo_indent? (s : Scanner) (width : Nat) :
    match indent? (s.blocks ++ [0]) width with
    | none => (s.indentTo width).width ≠ width
    | some (marks, stack) => (s.indentTo width).width = width ∧
        (s.indentTo width).blocks ++ [0] = stack ∧
        (s.indentTo width).kinds = marks.reverse ++ s.kinds := by
  -- The stack of the algorithm ends with the width zero, which a scanner leaves out.
  obtain ⟨hdrop, htake⟩ := dropWhile_blocks s.blocks width
  have hwidth : (s.blocks ++ [0]).headD 0 = s.width := headD_append_zero s.blocks
  unfold indent?
  simp only [hwidth, hdrop, htake, headD_append_zero]
  by_cases habove : s.width < width
  · simp only [if_pos habove, indentTo]
    exact ⟨rfl, rfl, rfl⟩
  · rw [if_neg habove, indentTo_of_le habove]
    by_cases hequal : width = s.width
    · subst hequal
      obtain ⟨hnone, hall⟩ := takeWhile_width s
      rw [if_pos rfl, hnone, hall]
      exact ⟨rfl, rfl, rfl⟩
    · rw [if_neg hequal]
      by_cases hblock : (s.blocks.dropWhile (width < ·)).headD 0 = width
      · simp only [if_pos hblock]
        refine ⟨hblock, trivial, ?_⟩
        simp [kinds, Token.dedent]
      · simp only [if_neg hblock]
        exact hblock

/-! ## Steps -/

/-- The scanner is at its position in a source. -/
def Aligned (source : Source) (s : Scanner) : Prop :=
  ∃ before, source = before ++ s.rest ∧ s.position = Source.byteSize before

/-- A refusal at a place where the source can be cut has a location. -/
theorem refuseAt_of_cuts {α : Type} {position : Nat} (h : Cuts source position) (cause : Cause) :
    ∃ location, (Outcome.refuseAt source position cause : Outcome α) =
      .error (.refused ⟨cause, location⟩) := by
  rcases h.location with ⟨location, hlocate⟩
  refine ⟨location, ?_⟩
  unfold Outcome.locate at hlocate
  unfold Outcome.refuseAt
  cases hfound : Source.location? source position with
  | none =>
    rw [hfound] at hlocate
    cases hlocate
  | some found =>
    rw [hfound] at hlocate
    cases hlocate
    rfl

/-- A line that starts is passed over, or it is indented. -/
theorem eq_of_startLine (h : s.startLine source = .ok t) :
    t = { s with atLineStart := false } ∨
      ∃ width, t = ({ s with atLineStart := false } : Scanner).indentTo width := by
  simp only [startLine] at h
  split at h
  · cases h
    exact .inl rfl
  · split at h
    · cases h
      exact .inr ⟨_, rfl⟩
    · unfold Outcome.refuseAt at h
      split at h <;> cases h

/-- At the start of a line, layout leaves the place in the source. -/
theorem rest_of_startLine (h : s.startLine source = .ok t) :
    t.rest = s.rest ∧ t.atLineStart = false := by
  rcases eq_of_startLine h with rfl | ⟨width, rfl⟩
  · exact ⟨rfl, rfl⟩
  · rw [indentTo_eq]
    exact ⟨rfl, rfl⟩

/-- A reading that succeeds is that of a pattern. -/
theorem eq_of_readOne (h : s.readOne source = .ok t) :
    ∃ role text rest, Pattern.first? s.rest = some (role, text, rest) ∧
      t = s.read role text rest := by
  unfold readOne at h
  split at h
  · next hfirst =>
    cases h
    exact ⟨_, _, _, hfirst, rfl⟩
  · unfold Outcome.refuseAt at h
    split at h <;> cases h

/-- On a line, a step is one reading. -/
theorem step_inside (hstart : s.atLineStart = false) : s.step source = s.readOne source := by
  rw [step, hstart]
  rfl

/-- A step is the start of a line, where one starts, and then one reading. -/
theorem step_cases (h : s.step source = .ok t) :
    ∃ middle, (s.atLineStart = false ∧ middle = s ∨
        s.atLineStart = true ∧ s.startLine source = .ok middle) ∧
      ∃ role text rest, Pattern.first? middle.rest = some (role, text, rest) ∧
        t = middle.read role text rest := by
  unfold step at h
  split at h
  · next hstart =>
    cases hline : s.startLine source with
    | error failure =>
      rw [hline] at h
      cases h
    | ok middle =>
      rw [hline] at h
      exact ⟨middle, .inr ⟨hstart, rfl⟩, eq_of_readOne h⟩
  · next hstart => exact ⟨s, .inl ⟨Bool.eq_false_iff.mpr hstart, rfl⟩, eq_of_readOne h⟩

/-- A step reads what the source from there begins with. -/
theorem first?_of_step (h : s.step source = .ok t) :
    ∃ role text, Pattern.first? s.rest = some (role, text, t.rest) := by
  obtain ⟨middle, hmiddle, role, text, rest, hfirst, rfl⟩ := step_cases h
  have hrest : middle.rest = s.rest := by
    rcases hmiddle with ⟨-, rfl⟩ | ⟨-, hline⟩
    · rfl
    · exact (rest_of_startLine hline).1
  exact ⟨role, text, hrest ▸ hfirst⟩

/-- What the start of a line and a reading keep, a step keeps. -/
theorem step_keeps {P : Scanner → Prop}
    (hline : ∀ {s t}, P s → s.atLineStart = true → s.startLine source = .ok t → P t)
    (hread : ∀ {s role text rest}, P s → s.atLineStart = false →
      Pattern.first? s.rest = some (role, text, rest) → P (s.read role text rest))
    (hs : P s) (h : s.step source = .ok t) : P t := by
  obtain ⟨middle, hmiddle, role, text, rest, hfirst, rfl⟩ := step_cases h
  rcases hmiddle with ⟨hstart, rfl⟩ | ⟨hstart, hmiddle⟩
  · exact hread hs hstart hfirst
  · exact hread (hline hs hstart hmiddle) (rest_of_startLine hmiddle).2 hfirst

/-- What the start of a line and a reading keep, a run keeps. -/
theorem run_keeps {P : Scanner → Prop}
    (hline : ∀ {s t}, P s → s.atLineStart = true → s.startLine source = .ok t → P t)
    (hread : ∀ {s role text rest}, P s → s.atLineStart = false →
      Pattern.first? s.rest = some (role, text, rest) → P (s.read role text rest))
    {fuel : Nat} (hs : P s) (h : run source fuel s = .ok t) : P t := by
  induction fuel generalizing s with
  | zero =>
    unfold run at h
    split at h
    · cases h
      exact hs
    · cases h
  | succ fuel ih =>
    unfold run at h
    split at h
    · cases h
      exact hs
    · cases hnext : s.step source with
      | error failure =>
        rw [hnext] at h
        cases h
      | ok next =>
        rw [hnext] at h
        exact ih (step_keeps hline hread hs hnext) h

/-- Each step reads something. -/
theorem length_lt_of_step (h : s.step source = .ok t) : t.rest.length < s.rest.length := by
  rcases first?_of_step h with ⟨role, text, hfirst⟩
  exact length_lt_of_first? hfirst

/-- The run from a state to the end of the source. -/
def scan (source : Source) (s : Scanner) : Outcome Scanner := run source s.rest.length s

/-- More fuel than there are characters changes nothing. -/
theorem run_eq_scan {fuel : Nat} (h : s.rest.length ≤ fuel) :
    run source fuel s = scan source s := by
  suffices hboth : ∀ (fuel : Nat) {more : Nat} {s : Scanner}, s.rest.length ≤ fuel →
      s.rest.length ≤ more → run source fuel s = run source more s from
    hboth fuel h (Nat.le_refl _)
  intro fuel
  induction fuel with
  | zero =>
    intro more s hfuel _
    have hnil : s.rest = [] := List.length_eq_zero_iff.mp (Nat.le_zero.mp hfuel)
    unfold run
    simp [hnil]
  | succ fuel ih =>
    intro more s hfuel hmore
    cases hrest : s.rest with
    | nil =>
      unfold run
      simp [hrest]
    | cons c rest =>
      cases more with
      | zero =>
        rw [hrest] at hmore
        exact absurd hmore (Nat.not_succ_le_zero _)
      | succ more =>
        unfold run
        simp only [hrest, List.isEmpty_cons, Bool.false_eq_true, if_false]
        cases hstep : s.step source with
        | error failure => rfl
        | ok t =>
          have hlength := length_lt_of_step hstep
          exact ih (by omega) (by omega)

/-- At the end of the source the scan is over. -/
theorem scan_nil (h : s.rest = []) : scan source s = .ok s := by
  unfold scan run
  simp [h]

/-- A run is one step and the run from there. -/
theorem scan_step (h : s.rest ≠ []) : scan source s = s.step source >>= scan source := by
  cases hrest : s.rest with
  | nil => exact absurd hrest h
  | cons c rest =>
    have hlength : s.rest.length = rest.length + 1 := by rw [hrest, List.length_cons]
    rw [scan, hlength, run]
    simp only [hrest, List.isEmpty_cons, Bool.false_eq_true, if_false]
    cases hstep : s.step source with
    | error failure => rfl
    | ok t =>
      have hless := length_lt_of_step hstep
      exact run_eq_scan (by omega)

/-- At the start of a line, a run is its layout and the run from there. -/
theorem scan_startLine (hstart : s.atLineStart = true) (h : s.rest ≠ []) :
    scan source s = s.startLine source >>= scan source := by
  rw [scan_step h, step, if_pos hstart]
  cases hline : s.startLine source with
  | error failure => rfl
  | ok t =>
    obtain ⟨hrest, hstart'⟩ := rest_of_startLine hline
    have hne : t.rest ≠ [] := hrest ▸ h
    exact (congrArg (· >>= scan source) (step_inside hstart').symm).trans (scan_step hne).symm

/-- On a line, a run is one reading and the run from there. -/
theorem scan_read (hstart : s.atLineStart = false)
    (h : Pattern.first? s.rest = some (role, text, rest)) :
    scan source s = scan source (s.read role text rest) := by
  have hne : s.rest ≠ [] := by
    intro hnil
    have hlength := length_lt_of_first? h
    simp [hnil] at hlength
  rw [scan_step hne, step_inside hstart, readOne_of_first? h]
  rfl

/-- A character that nothing starts with is refused where it stands. -/
theorem scan_stuck {before : Source} (hsource : source = before ++ s.rest)
    (hposition : s.position = Source.byteSize before) (hstart : s.atLineStart = false)
    (hne : s.rest ≠ []) (h : Pattern.first? s.rest = none) :
    scan source s = .error (.refused ⟨.unrecognisedToken (String.ofList (s.rest.take 1)),
      Source.locationBetween before s.rest⟩) := by
  have hlocation : Source.location? source s.position =
      some (Source.locationBetween before s.rest) := by
    rw [hsource, hposition]
    exact Source.location?_append before s.rest
  rw [scan_step hne, step_inside hstart, readOne, h]
  simp only [Outcome.refuseAt, hlocation]
  rfl

/-- A run ends well only if all characters are part of something. -/
theorem roles_of_scan (h : scan source s = .ok t) :
    ∀ lexeme ∈ lexemes s.rest, lexeme.role ≠ none := by
  induction hlength : s.rest.length using Nat.strongRecOn generalizing s with
  | ind length ih =>
    subst hlength
    by_cases hne : s.rest = []
    · simp [hne]
    · rw [scan_step hne] at h
      cases hstep : s.step source with
      | error failure =>
        rw [hstep] at h
        cases h
      | ok next =>
        rw [hstep] at h
        rcases first?_of_step hstep with ⟨role, text, hfirst⟩
        rw [lexemes_of_first? hfirst]
        intro lexeme hmem
        rcases List.mem_cons.mp hmem with rfl | hmore
        · exact nofun
        · exact ih _ (length_lt_of_first? hfirst) h rfl lexeme hmore

/-! ## On a line -/

/-- What reading a piece does, unless it ends the line. -/
theorem read_inside (text rest : Source) (hbreak : ¬(role = .lineBreak ∧ s.depth = 0)) :
    (s.read role text rest).kinds = (Lexeme.kind? ⟨some role, text⟩).toList ++ s.kinds ∧
      (s.read role text rest).depth = Lexeme.depthAfter s.depth ⟨some role, text⟩ ∧
      (s.read role text rest).blocks = s.blocks ∧
      (s.read role text rest).atLineStart = s.atLineStart := by
  cases role with
  | lineBreak =>
    have hdepth : s.depth ≠ 0 := fun hzero => hbreak ⟨rfl, hzero⟩
    simp [read, emit, endLine, hdepth, kinds, Lexeme.depthAfter, Lexeme.kind?, Role.kind?]
  | word | number | string | skipped | mark kind => exact ⟨rfl, rfl, rfl, rfl⟩

/-- What is read from an aligned scanner leaves it aligned. -/
theorem aligned_read (haligned : s.Aligned source)
    (h : Pattern.first? s.rest = some (role, text, rest)) :
    (s.read role text rest).Aligned source := by
  rcases haligned with ⟨before, hsource, hposition⟩
  refine ⟨before ++ text, ?_, ?_⟩
  · rw [hsource, (first?_append h).1, List.append_assoc]
    rfl
  · rw [Source.byteSize_append, ← hposition]
    rfl

/-- A scanner has gone through the pieces of a line. -/
structure Passes (source : Source) (s : Scanner) (line : Line) (t : Scanner) : Prop where
  scan_eq : scan source s = scan source t
  kinds_eq : t.kinds = line.words.reverse ++ s.kinds
  depth_eq : t.depth = line.depthAfter s.depth
  blocks_eq : t.blocks = s.blocks
  start_eq : t.atLineStart = false
  aligned : t.Aligned source

/-- On a line, the scanner adds the tokens of the line. -/
theorem scan_line {line : Line} {back : List Lexeme} (haligned : s.Aligned source)
    (hstart : s.atLineStart = false) (hlexemes : lexemes s.rest = line ++ back)
    (hwhole : line.Whole s.depth) (hroles : ∀ lexeme ∈ line, lexeme.role ≠ none) :
    ∃ t, Passes source s line t ∧ lexemes t.rest = back := by
  induction line generalizing s with
  | nil => exact ⟨s, ⟨rfl, rfl, rfl, rfl, hstart, haligned⟩, hlexemes⟩
  | cons lexeme line ih =>
    rcases lexemes_eq hlexemes with ⟨role, rest, hrole, hfirst, hmore⟩ | ⟨c, rest, rfl, -⟩
    · have hlexeme : lexeme = ⟨some role, lexeme.text⟩ := by
        rw [← hrole]
      have hbreak : ¬(role = .lineBreak ∧ s.depth = 0) := by
        rintro ⟨rfl, hdepth⟩
        exact hwhole.1 ⟨by simp [Lexeme.isBreak, hrole], hdepth⟩
      obtain ⟨hkinds, hdepth, hblocks, hline⟩ := read_inside lexeme.text rest hbreak
      rw [← hlexeme] at hkinds hdepth
      rcases ih (aligned_read haligned hfirst) (hline.trans hstart) hmore
        (hdepth ▸ hwhole.2) (fun other hother => hroles other (List.mem_cons_of_mem _ hother))
        with ⟨t, ht, hback⟩
      refine ⟨t, ⟨?_, ?_, ?_, ?_, ht.start_eq, ht.aligned⟩, hback⟩
      · rw [scan_read hstart hfirst, ht.scan_eq]
      · rw [ht.kinds_eq, hkinds]
        cases hkind : lexeme.kind? <;> simp [Line.words, hkind]
      · rw [ht.depth_eq, hdepth]
        rfl
      · rw [ht.blocks_eq, hblocks]
    · exact absurd rfl (hroles _ List.mem_cons_self)

/-! ## The end of a line -/

/-- Whether there is no token yet, or the newest one ends a line. -/
def isClosed (s : Scanner) : Bool := s.lastKind? = none || s.lastKind? = some .newline

/-- The kinds of the tokens with the end of the last line, the newest first. -/
def closedKinds (s : Scanner) : List TokenKind :=
  if s.isClosed then s.kinds else .newline :: s.kinds

/-- Outside of brackets, a line that is not closed is closed by its end. -/
theorem endLine_eq (hdepth : s.depth = 0) (span : Span) : s.endLine span =
    if s.isClosed then { s with atLineStart := true }
    else { s.push (.newline span) with atLineStart := true } := by
  rw [endLine, if_pos hdepth, isClosed]
  split <;> simp_all

/-- At the end of the source a last line is closed, and so are all blocks. -/
theorem finish_eq (s : Scanner) (stop : Nat) : s.finish stop =
    s.tokens.reverse ++ (if s.isClosed then [] else [.newline (.empty stop)]) ++
      s.blocks.map (fun _ => .dedent stop) ++ [.eof stop] := by
  simp only [finish, isClosed]
  split <;> simp_all

/-- A line feed outside brackets closes the line. -/
theorem read_lineBreak (text rest : Source) (hdepth : s.depth = 0) :
    (s.read .lineBreak text rest).kinds = s.closedKinds ∧
      (s.read .lineBreak text rest).depth = 0 ∧
      (s.read .lineBreak text rest).blocks = s.blocks ∧
      (s.read .lineBreak text rest).atLineStart = true := by
  simp only [read, emit, endLine_eq hdepth, closedKinds]
  split
  · exact ⟨rfl, hdepth, rfl, rfl⟩
  · exact ⟨rfl, hdepth, rfl, rfl⟩

/-- At the end, the open blocks are closed. -/
theorem finish_kinds (s : Scanner) (stop : Nat) :
    (s.finish stop).map Token.kind =
      s.closedKinds.reverse ++ List.replicate s.blocks.length .dedent ++ [.eof] := by
  have hblocks : (s.blocks.map fun _ => Token.dedent stop).map Token.kind =
      List.replicate s.blocks.length .dedent := by
    rw [List.map_map]
    exact List.map_const'
  simp only [finish_eq, closedKinds, List.map_append, hblocks, List.map_reverse]
  split <;> simp [kinds, Token.newline, Token.eof]

/-- A scanner at the start of a logical line. -/
structure AtLine (source : Source) (s : Scanner) : Prop where
  start : s.atLineStart = true
  depth : s.depth = 0
  closed : s.isClosed = true
  aligned : s.Aligned source

/-- Whether a line is closed is told by the kinds of tokens. -/
theorem isClosed_congr (h : t.kinds = s.kinds) : t.isClosed = s.isClosed := by
  simp only [isClosed, lastKind?_eq, h]

/-- Behind the kinds of a closed line the line is closed. -/
theorem isClosed_of_closedKinds {t : Scanner} (h : t.kinds = s.closedKinds) :
    t.isClosed = true := by
  unfold closedKinds at h
  split at h
  · next hclosed => rwa [isClosed, lastKind?_eq, h, ← lastKind?_eq]
  · simp [isClosed, lastKind?_eq, h]

/-- Behind the end of a line, a new one starts. -/
theorem scan_lineBreak {lineEnd : Lexeme} {more : List Lexeme} (haligned : s.Aligned source)
    (hstart : s.atLineStart = false) (hdepth : s.depth = 0) (hbreak : lineEnd.isBreak = true)
    (hlexemes : lexemes s.rest = lineEnd :: more) :
    ∃ t, scan source s = scan source t ∧ t.AtLine source ∧ t.kinds = s.closedKinds ∧
      t.blocks = s.blocks ∧ lexemes t.rest = more := by
  rcases lexemes_eq hlexemes with ⟨role, rest, hrole, hfirst, hmore⟩ | ⟨c, rest, rfl, -⟩
  · have hlineBreak : role = .lineBreak := by simpa [Lexeme.isBreak, hrole] using hbreak
    subst hlineBreak
    obtain ⟨hkinds, hdepth', hblocks, hline⟩ := read_lineBreak lineEnd.text rest hdepth
    exact ⟨_, scan_read hstart hfirst, ⟨hline, hdepth', isClosed_of_closedKinds hkinds,
      aligned_read haligned hfirst⟩, hkinds, hblocks, hmore⟩
  · cases hbreak

/-! ## The start of a line -/

/-- The scanner when the start of a line is behind it. -/
def inside (s : Scanner) : Scanner := { s with atLineStart := false }

/-- A blank line starts without a change of indentation. -/
theorem startLine_blank (hdepth : s.depth = 0)
    (hblank : isBlankLine (s.rest.dropWhile isIndentation) = true) :
    s.startLine source = .ok s.inside := by
  simp [startLine, inside, hdepth, hblank]

/-- Another line is indented by its width, or refused if no block has this width. -/
theorem startLine_full (hdepth : s.depth = 0)
    (hblank : isBlankLine (s.rest.dropWhile isIndentation) = false) {width : Nat}
    (hwidth : width = (s.rest.takeWhile isIndentation).length) :
    s.startLine source =
      if (s.inside.indentTo width).width = width then .ok (s.inside.indentTo width)
      else .refuseAt source (s.position + width) .inconsistentIndentation := by
  have hposition : (s.inside.indentTo width).position = s.position := by
    rw [indentTo_eq]
    rfl
  rw [← hposition]
  simp [startLine, inside, hdepth, hblank, hwidth]

/-- Each character of indentation is one byte. -/
theorem byteSize_indentation (source : Source) :
    Source.byteSize (source.takeWhile isIndentation) =
      (source.takeWhile isIndentation).length := by
  induction source with
  | nil => rfl
  | cons c source ih =>
    by_cases hc : isIndentation c = true
    · have hsize : c.utf8Size = 1 := by
        simp only [isIndentation, Bool.or_eq_true, decide_eq_true_eq] at hc
        rcases hc with rfl | rfl <;> rfl
      rw [List.takeWhile_cons_of_pos hc, Source.byteSize_cons, ih, hsize, List.length_cons]
      omega
    · rw [List.takeWhile_cons_of_neg hc]
      rfl

/-- A line that is not blank starts with what its width does to the stack. -/
theorem startLine_indent (haligned : s.Aligned source) (hdepth : s.depth = 0)
    (hblank : isBlankLine (s.rest.dropWhile isIndentation) = false) {width : Nat}
    (hwidth : width = (s.rest.takeWhile isIndentation).length) :
    match indent? (s.blocks ++ [0]) width with
    | none => ∃ location, s.startLine source =
        .error (.refused ⟨.inconsistentIndentation, location⟩)
    | some (marks, stack) => ∃ t, s.startLine source = .ok t ∧ t.rest = s.rest ∧
        t.atLineStart = false ∧ t.depth = 0 ∧ t.Aligned source ∧
        t.blocks ++ [0] = stack ∧ t.kinds = marks.reverse ++ s.kinds := by
  have hindent := indentTo_indent? s.inside width
  have hblocks : s.inside.blocks = s.blocks := rfl
  rw [hblocks] at hindent
  rw [startLine_full hdepth hblank hwidth]
  rcases haligned with ⟨before, hsource, hposition⟩
  cases hstack : indent? (s.blocks ++ [0]) width with
  | none =>
    rw [hstack] at hindent
    simp only [if_neg hindent]
    apply refuseAt_of_cuts
    refine ⟨before ++ s.rest.takeWhile isIndentation, s.rest.dropWhile isIndentation, ?_, ?_⟩
    · rw [List.append_assoc, List.takeWhile_append_dropWhile, hsource]
    · rw [Source.byteSize_append, byteSize_indentation, hposition, hwidth]
  | some entry =>
    rw [hstack] at hindent
    obtain ⟨hopen, hleft, hkinds⟩ := hindent
    simp only [if_pos hopen]
    refine ⟨_, rfl, ?_, ?_, ?_, ⟨before, ?_, ?_⟩, hleft, hkinds⟩ <;> rw [indentTo_eq]
    · rfl
    · rfl
    · exact hdepth
    · exact hsource
    · exact hposition

/-! ## All lines -/

/-- From a scanner at the start of a line, the run is what the lines ask for: it refuses the
indentation exactly if some width is none of a block; and if it succeeds, it adds the tokens of
the lines with their layout, and leaves the blocks open that the lines leave. -/
def LaysOut (source : Source) (s : Scanner) (lines : List Line) : Prop :=
  match layout? (s.blocks ++ [0]) lines with
  | none => ∃ location, scan source s = .error (.refused ⟨.inconsistentIndentation, location⟩)
  | some (kinds, stack) =>
    (∃ text location, scan source s = .error (.refused ⟨.unrecognisedToken text, location⟩)) ∨
      ∃ t, scan source s = .ok t ∧ t.closedKinds.reverse = s.kinds.reverse ++ kinds ∧
        t.blocks ++ [0] = stack

/-- A closed line needs no further token. -/
theorem closedKinds_of_isClosed (h : s.isClosed = true) : s.closedKinds = s.kinds := by
  rw [closedKinds, if_pos h]

/-- A scanner on a line that starts here. -/
structure OnLine (source : Source) (s : Scanner) : Prop where
  start : s.atLineStart = false
  depth : s.depth = 0
  aligned : s.Aligned source

/-- The first line is all there is, and the run is at its end; or a new line starts behind its
end.  In both cases the tokens of the line have been added, and the blocks are as they were. -/
theorem scan_firstLine {line : Line} (honLine : s.OnLine source) (hfirst : LineOf s.rest line)
    (hroles : ∀ lexeme ∈ line, lexeme.role ≠ none) :
    ∃ t, t.kinds = line.words.reverse ++ s.kinds ∧ t.blocks = s.blocks ∧
      (fullLines (lexemes s.rest) = (if line.isBlank then [] else [line]) ∧
          scan source s = .ok t ∨
        ∃ u, u.AtLine source ∧ scan source s = scan source u ∧ u.kinds = t.closedKinds ∧
          u.blocks = s.blocks ∧ (lexemes u.rest).length < (lexemes s.rest).length ∧
          fullLines (lexemes s.rest) = if line.isBlank then fullLines (lexemes u.rest)
            else line :: fullLines (lexemes u.rest)) := by
  have hwhole' : line.Whole s.depth := honLine.depth.symm ▸ hfirst.whole
  rcases hfirst.ends with hall | ⟨lineEnd, more, hbreak, hall, hdepth⟩
  · rcases scan_line honLine.aligned honLine.start (hall.trans (List.append_nil line).symm)
      hwhole' hroles with ⟨t, ht, hback⟩
    have hend : scan source t = .ok t := scan_nil (eq_nil_of_lexemes hback)
    refine ⟨t, ht.kinds_eq, ht.blocks_eq, .inl ⟨?_, ht.scan_eq.trans hend⟩⟩
    rw [hall, fullLines_whole hfirst.whole]
  · rcases scan_line honLine.aligned honLine.start hall hwhole' hroles with ⟨t, ht, hback⟩
    have htdepth : t.depth = 0 := by rw [ht.depth_eq, honLine.depth, hdepth]
    rcases scan_lineBreak ht.aligned ht.start_eq htdepth hbreak hback with
      ⟨u, huscan, huline, hukinds, hublocks, rfl⟩
    refine ⟨t, ht.kinds_eq, ht.blocks_eq, .inr ⟨u, huline, ht.scan_eq.trans huscan, hukinds,
      hublocks.trans ht.blocks_eq, ?_, ?_⟩⟩
    · rw [hall, List.length_append, List.length_cons]
      omega
    · rw [hall, fullLines_append hfirst.whole hbreak hdepth]

/-- A line with a character that nothing starts with is the last, and is refused. -/
theorem scan_unrecognised {line : Line} {lexeme : Lexeme} (honLine : s.OnLine source)
    (hfirst : LineOf s.rest line) (hmem : lexeme ∈ line) (hrole : lexeme.role = none) :
    lexemes s.rest = line ∧
      ∃ text location, scan source s = .error (.refused ⟨.unrecognisedToken text, location⟩) := by
  have hall : lexemes s.rest = line := by
    rcases hfirst.ends with hall | ⟨lineEnd, more, -, hall, -⟩
    · exact hall
    · exact absurd hrole (role_ne_none_of_append hall (List.cons_ne_nil _ _) lexeme hmem)
  refine ⟨hall, ?_⟩
  rcases exists_stuck (hall.symm ▸ hmem) hrole with ⟨front, hsplit, hroles⟩
  have hwhole : Line.Whole 0 (front ++ [lexeme]) := by
    rw [← hsplit, hall]
    exact hfirst.whole
  rcases scan_line honLine.aligned honLine.start hsplit
    (honLine.depth.symm ▸ hwhole.of_append) hroles with ⟨t, ht, hback⟩
  rcases lexemes_eq hback with ⟨role, rest, hsome, -⟩ | ⟨c, rest, -, -, hrest, hnone⟩
  · rw [hrole] at hsome
    cases hsome
  · rw [ht.scan_eq]
    obtain ⟨before, hsource, hposition⟩ := ht.aligned
    exact ⟨_, _, scan_stuck hsource hposition ht.start_eq (by simp [hrest]) hnone⟩

/-- Behind a line with words, the end of the line is one more token. -/
theorem closedKinds_of_words {words before : List TokenKind}
    (hkinds : s.kinds = words.reverse ++ before) (hne : words ≠ [])
    (hnewline : .newline ∉ words) : s.closedKinds = .newline :: s.kinds := by
  rcases List.eq_nil_or_concat words with hnil | ⟨front, last, rfl⟩
  · exact absurd hnil hne
  · have hlast : last ≠ .newline := by
      rintro rfl
      exact hnewline (by simp)
    have hopen : s.isClosed = false := by
      simp [isClosed, lastKind?_eq, hkinds, hlast]
    rw [closedKinds, if_neg (by simp [hopen])]

/-- The words of a line do not end it. -/
theorem newline_not_mem_words {line : Line} (h : LineOf rest line) : .newline ∉ line.words := by
  intro hmem
  have hlayout := Line.isLayout_of_mem_words (fun _ hlexeme => h.mem hlexeme) _ hmem
  cases hlayout

namespace LaysOut

variable {lines : List Line} {line : Line}

/-- Without any more lines, the run is at its end. -/
theorem nil (hscan : scan source s = .ok t) (hkinds : t.kinds = s.kinds)
    (hblocks : t.blocks = s.blocks) (hclosed : s.isClosed = true) : LaysOut source s [] := by
  have hclosed' : t.isClosed = true := (isClosed_congr hkinds).trans hclosed
  refine .inr ⟨t, hscan, ?_, by rw [hblocks]⟩
  rw [closedKinds_of_isClosed hclosed', hkinds, List.append_nil]

/-- A blank line adds nothing. -/
theorem blank (h : LaysOut source t lines) (hscan : scan source s = scan source t)
    (hkinds : t.kinds = s.kinds) (hblocks : t.blocks = s.blocks) : LaysOut source s lines := by
  unfold LaysOut at h ⊢
  rw [hscan, ← hkinds, ← hblocks]
  exact h

/-- A line whose width is none of a block is refused. -/
theorem inconsistent (h : indent? (s.blocks ++ [0]) line.width = none)
    (hscan : ∃ location, scan source s =
      .error (.refused ⟨.inconsistentIndentation, location⟩)) :
    LaysOut source s (line :: lines) := by
  unfold LaysOut
  rw [layout?, h]
  exact hscan

/-- A line adds its layout, its words and its end. -/
theorem cons {marks : List TokenKind}
    (h : indent? (s.blocks ++ [0]) line.width = some (marks, t.blocks ++ [0]))
    (hscan : scan source s = scan source t)
    (hkinds : t.kinds.reverse = s.kinds.reverse ++ (marks ++ line.words ++ [.newline]))
    (hlines : LaysOut source t lines) : LaysOut source s (line :: lines) := by
  unfold LaysOut at hlines ⊢
  rw [layout?, h, hscan]
  simp only [Option.bind_eq_bind, Option.bind_some]
  cases hmore : layout? (t.blocks ++ [0]) lines with
  | none =>
    rw [hmore] at hlines
    exact hlines
  | some entry =>
    rw [hmore] at hlines
    rcases hlines with hrefused | ⟨u, hu, hukinds, hublocks⟩
    · exact .inl hrefused
    · exact .inr ⟨u, hu, by rw [hukinds, hkinds, List.append_assoc], hublocks⟩

/-- The last line adds its layout, its words and its end, or is refused. -/
theorem last {marks : List TokenKind} {stack : List Nat}
    (h : indent? (s.blocks ++ [0]) line.width = some (marks, stack))
    (hscan : (∃ text location, scan source s =
        .error (.refused ⟨.unrecognisedToken text, location⟩)) ∨
      ∃ t, scan source s = .ok t ∧ t.blocks ++ [0] = stack ∧
        t.closedKinds.reverse = s.kinds.reverse ++ (marks ++ line.words ++ [.newline])) :
    LaysOut source s [line] := by
  unfold LaysOut
  rw [layout?, h]
  rcases hscan with hrefused | ⟨t, ht, hblocks, hkinds⟩
  · exact .inl hrefused
  · exact .inr ⟨t, ht, by rw [hkinds, List.append_nil], hblocks⟩

end LaysOut

section Lines

variable {line : Line}

/-- A blank line adds nothing, and the lines behind it follow. -/
theorem laysOut_blank (hline : s.AtLine source) (hne : s.rest ≠ []) (hfirst : LineOf s.rest line)
    (hblank : isBlankLine (s.rest.dropWhile isIndentation) = true) (hisBlank : line.isBlank = true)
    (ih : ∀ t : Scanner, t.AtLine source → (lexemes t.rest).length < (lexemes s.rest).length →
      LaysOut source t (fullLines (lexemes t.rest))) :
    LaysOut source s (fullLines (lexemes s.rest)) := by
  obtain ⟨hwords, -, hroles⟩ := Line.words_of_isBlank hisBlank
  have hscan : scan source s = scan source s.inside := by
    rw [scan_startLine hline.start hne, startLine_blank hline.depth hblank]
    rfl
  have honLine : s.inside.OnLine source := ⟨rfl, hline.depth, hline.aligned⟩
  rcases scan_firstLine honLine hfirst hroles with ⟨t, hkinds, hblocks, hends⟩
  rw [hwords] at hkinds
  rcases hends with ⟨hlines, hend⟩ | ⟨u, huline, huscan, hukinds, hublocks, hless, hlines⟩
  · have hlines' : fullLines (lexemes s.rest) = [] := hlines.trans (if_pos hisBlank)
    rw [hlines']
    exact .nil (hscan.trans hend) hkinds hblocks hline.closed
  · have hlines' : fullLines (lexemes s.rest) = fullLines (lexemes u.rest) :=
      hlines.trans (if_pos hisBlank)
    have hclosed : t.isClosed = true := (isClosed_congr hkinds).trans hline.closed
    rw [hlines']
    apply (ih u huline hless).blank (hscan.trans huscan) ?_ hublocks
    rw [hukinds, closedKinds_of_isClosed hclosed, hkinds]
    rfl

/-- A line whose layout is done adds its words and its end, and the lines behind it follow. -/
theorem laysOut_indented {o : Scanner} {marks : List TokenKind} (honLine : o.OnLine source)
    (hfirst : LineOf o.rest line) (hisBlank : line.isBlank = false)
    (hscan : scan source s = scan source o) (hkinds : o.kinds = marks.reverse ++ s.kinds)
    (hstack : indent? (s.blocks ++ [0]) line.width = some (marks, o.blocks ++ [0]))
    (ih : ∀ t : Scanner, t.AtLine source → (lexemes t.rest).length < (lexemes o.rest).length →
      LaysOut source t (fullLines (lexemes t.rest))) :
    LaysOut source s (fullLines (lexemes o.rest)) := by
  by_cases hstuck : ∃ lexeme ∈ line, lexeme.role = none
  -- Such a line is the last, and its layout was done before the character is refused.
  · rcases hstuck with ⟨lexeme, hmem, hrole⟩
    obtain ⟨hall, text, location, hrefused⟩ := scan_unrecognised honLine hfirst hmem hrole
    rw [hall, fullLines_whole hfirst.whole, hisBlank]
    exact .last hstack (.inl ⟨text, location, hscan.trans hrefused⟩)
  · have hroles : ∀ lexeme ∈ line, lexeme.role ≠ none :=
      fun lexeme hmem hrole => hstuck ⟨lexeme, hmem, hrole⟩
    rcases scan_firstLine honLine hfirst hroles with ⟨t, htkinds, htblocks, hends⟩
    have hadded : t.closedKinds.reverse =
        s.kinds.reverse ++ (marks ++ line.words ++ [.newline]) := by
      rw [closedKinds_of_words htkinds (Line.words_ne_nil hisBlank hfirst.whole hroles)
        (newline_not_mem_words hfirst), htkinds, hkinds]
      simp
    rcases hends with ⟨hlines, hend⟩ | ⟨u, huline, huscan, hukinds, hublocks, hless, hlines⟩
    · rw [hlines, hisBlank]
      exact .last hstack (.inr ⟨t, hscan.trans hend, by rw [htblocks], hadded⟩)
    · rw [← hublocks] at hstack
      rw [hlines, hisBlank]
      apply LaysOut.cons hstack (hscan.trans huscan) ?_ (ih u huline hless)
      rw [hukinds, hadded]

/-- A line that is not blank starts with its layout, or is refused. -/
theorem laysOut_full (hline : s.AtLine source) (hne : s.rest ≠ []) (hfirst : LineOf s.rest line)
    (hblank : isBlankLine (s.rest.dropWhile isIndentation) = false)
    (hisBlank : line.isBlank = false)
    (hwidth : line.width = (s.rest.takeWhile isIndentation).length)
    (ih : ∀ t : Scanner, t.AtLine source → (lexemes t.rest).length < (lexemes s.rest).length →
      LaysOut source t (fullLines (lexemes t.rest))) :
    LaysOut source s (fullLines (lexemes s.rest)) := by
  have hlayout := startLine_indent hline.aligned hline.depth hblank hwidth
  have hscan : scan source s = s.startLine source >>= scan source :=
    scan_startLine hline.start hne
  cases hstack : indent? (s.blocks ++ [0]) line.width with
  | none =>
    rw [hstack] at hlayout
    rcases hlayout with ⟨location, hrefuse⟩
    rcases hfirst.fullLines_eq hisBlank with ⟨lines, hlines⟩
    rw [hlines]
    exact .inconsistent hstack ⟨location, by rw [hscan, hrefuse]; rfl⟩
  | some entry =>
    rcases entry with ⟨marks, stack⟩
    rw [hstack] at hlayout
    obtain ⟨o, hstartLine, hrest, hstart, hdepth, haligned, rfl, hkinds⟩ := hlayout
    have hscan' : scan source s = scan source o := by
      rw [hscan, hstartLine]
      rfl
    rw [← hrest] at hfirst ih ⊢
    exact laysOut_indented ⟨hstart, hdepth, haligned⟩ hfirst hisBlank hscan' hkinds hstack ih

end Lines

/-- The run from the start of a line is what the lines from there ask for. -/
theorem laysOut_fullLines (hreturns : returnsEndLines source = true) (hline : s.AtLine source) :
    LaysOut source s (fullLines (lexemes s.rest)) := by
  -- On the lexemes that are left: a line that is not the last one takes at least its end.
  induction hlength : (lexemes s.rest).length using Nat.strongRecOn generalizing s with
  | ind length ih =>
    subst hlength
    by_cases hne : s.rest = []
    · rw [hne, lexemes_nil, fullLines_nil]
      exact .nil (scan_nil hne) rfl rfl hline.closed
    · have hreturns' : returnsEndLines s.rest = true := by
        rcases hline.aligned with ⟨before, hsource, -⟩
        exact returnsEndLines_append (hsource ▸ hreturns)
      rcases exists_line 0 (lexemes s.rest) with ⟨line, hfirst⟩
      obtain ⟨hblank, hwidth⟩ := LineOf.layout hfirst hreturns'
      have hmore (t : Scanner) (ht : t.AtLine source)
          (hless : (lexemes t.rest).length < (lexemes s.rest).length) :
          LaysOut source t (fullLines (lexemes t.rest)) := ih _ hless ht rfl
      cases hisBlank : line.isBlank with
      | true => exact laysOut_blank hline hne hfirst (hblank ▸ hisBlank) hisBlank hmore
      | false =>
        exact laysOut_full hline hne hfirst (hblank ▸ hisBlank) hisBlank (hwidth hisBlank) hmore

/-- A scanner before a source is at the start of a line. -/
theorem atLine_start (source : Source) : (start source).AtLine source :=
  ⟨rfl, rfl, rfl, [], rfl, rfl⟩

end Scanner

/-! ## Token lists -/

/-- The tokens of a source are those of the whole run. -/
theorem tokenize_eq_scan (source : Source) : tokenize source =
    (Scanner.scan source (Scanner.start source)).bind fun s =>
      .ok (s.finish (Source.byteSize source)) := rfl

/-- The tokens of a source, if its lines have a layout: those of the lines with their layout,
and the ends of the blocks that are left; or else a character is refused. -/
theorem tokenize_of_layout? {source : Source} (hreturns : returnsEndLines source = true)
    {kinds : List TokenKind} {stack : List Nat}
    (h : layout? [0] (logicalLines source) = some (kinds, stack)) :
    (∃ text location, tokenize source = .error (.refused ⟨.unrecognisedToken text, location⟩)) ∨
      ∃ tokens, tokenize source = .ok tokens ∧ tokens.map Token.kind =
        kinds ++ List.replicate (stack.length - 1) .dedent ++ [.eof] := by
  have hlines := Scanner.laysOut_fullLines hreturns (Scanner.atLine_start source)
  unfold Scanner.LaysOut at hlines
  rw [tokenize_eq_scan]
  have hlayout : layout? ((Scanner.start source).blocks ++ [0])
      (fullLines (lexemes (Scanner.start source).rest)) = some (kinds, stack) := h
  rw [hlayout] at hlines
  rcases hlines with ⟨text, location, hrefused⟩ | ⟨t, hscan, hkinds, rfl⟩
  · exact .inl ⟨text, location, by rw [hrefused]; rfl⟩
  · refine .inr ⟨_, by rw [hscan]; rfl, ?_⟩
    rw [Scanner.finish_kinds, hkinds]
    simp [Scanner.kinds, Scanner.start]

/-- The tokens of a source without a layout. -/
theorem tokenize_of_layout?_none {source : Source} (hreturns : returnsEndLines source = true)
    (h : layout? [0] (logicalLines source) = none) :
    ∃ location, tokenize source = .error (.refused ⟨.inconsistentIndentation, location⟩) := by
  have hlines := Scanner.laysOut_fullLines hreturns (Scanner.atLine_start source)
  unfold Scanner.LaysOut at hlines
  have hlayout : layout? ((Scanner.start source).blocks ++ [0])
      (fullLines (lexemes (Scanner.start source).rest)) = none := h
  rw [hlayout] at hlines
  rcases hlines with ⟨location, hrefused⟩
  refine ⟨location, ?_⟩
  rw [tokenize_eq_scan, hrefused]
  rfl

/-- The lines of a source that has tokens have tokens, and none of these is layout. -/
theorem words_of_tokenize {source : Source} {tokens : List Token}
    (h : tokenize source = .ok tokens) {line : Line} (hline : line ∈ logicalLines source) :
    line.words ≠ [] ∧ ∀ kind ∈ line.words, kind.isLayout = false := by
  apply words_of_mem_logicalLines ?_ hline
  cases hscan : Scanner.scan source (Scanner.start source) with
  | error failure =>
    have htokenize : tokenize source = .error failure := by
      rw [tokenize_eq_scan, hscan]
      rfl
    rw [htokenize] at h
    cases h
  | ok t => exact Scanner.roles_of_scan hscan

/-- Where carriage returns stand only before line feeds, the layout of a source is that of its
logical lines: the tokens have the kinds that the lines ask for, with the ends of the blocks
that are left and the end of the file, and the tokens of a line, of which there are some, are no
layout; the indentation is refused exactly if the width of some line is none of a block; and
nothing else is refused but a character that nothing starts with. -/
theorem tokenize_layout {source : Source} (hreturns : returnsEndLines source = true) :
    (∀ tokens, tokenize source = .ok tokens →
      (∃ kinds stack, layout? [0] (logicalLines source) = some (kinds, stack) ∧
        tokens.map Token.kind =
          kinds ++ List.replicate (stack.length - 1) .dedent ++ [.eof]) ∧
      ∀ line ∈ logicalLines source,
        line.words ≠ [] ∧ ∀ kind ∈ line.words, kind.isLayout = false) ∧
    ((∃ location, tokenize source = .error (.refused ⟨.inconsistentIndentation, location⟩)) ↔
      layout? [0] (logicalLines source) = none) ∧
    (layout? [0] (logicalLines source) ≠ none →
      (∃ tokens, tokenize source = .ok tokens) ∨ ∃ text location,
        tokenize source = .error (.refused ⟨.unrecognisedToken text, location⟩)) := by
  cases hlayout : layout? [0] (logicalLines source) with
  | none =>
    rcases tokenize_of_layout?_none hreturns hlayout with ⟨location, hrefused⟩
    rw [hrefused]
    exact ⟨nofun, ⟨fun _ => rfl, fun _ => ⟨location, rfl⟩⟩, fun hne => absurd rfl hne⟩
  | some entry =>
    rcases entry with ⟨kinds, stack⟩
    rcases tokenize_of_layout? hreturns hlayout with
      ⟨text, location, hrefused⟩ | ⟨tokens, htokens, hkinds⟩
    · rw [hrefused]
      exact ⟨nofun, ⟨nofun, nofun⟩, fun _ => .inr ⟨text, location, rfl⟩⟩
    · rw [htokens]
      refine ⟨?_, ⟨nofun, nofun⟩, fun _ => .inl ⟨tokens, rfl⟩⟩
      rintro _ ⟨rfl⟩
      exact ⟨⟨kinds, stack, rfl, hkinds⟩, fun line hline => words_of_tokenize htokens hline⟩

/-- A block behind a line with a bracket, with a comment and a carriage return in between; and
the same with a last line whose width is none of a block. -/
theorem tokenize_layout_block :
    (∃ tokens, tokenize "if (\r\na):\n\n  b\n #c".toList = .ok tokens ∧ tokens.map Token.kind =
      [.ifWord, .openParen, .identifier, .closeParen, .colon, .newline, .indent, .identifier,
        .newline, .dedent, .eof]) ∧
    ∃ location, tokenize "if (\r\na):\n\n  b\n c".toList =
      .error (.refused ⟨.inconsistentIndentation, location⟩) := by
  constructor
  · have hlayout : layout? [0] (logicalLines "if (\r\na):\n\n  b\n #c".toList) =
        some ([.ifWord, .openParen, .identifier, .closeParen, .colon, .newline, .indent,
          .identifier, .newline], [2, 0]) := by
      decide +kernel
    have hok : (tokenize "if (\r\na):\n\n  b\n #c".toList).isOk = true := by decide +kernel
    cases htokens : tokenize "if (\r\na):\n\n  b\n #c".toList with
    | error failure =>
      rw [htokens] at hok
      cases hok
    | ok tokens =>
      obtain ⟨⟨kinds, stack, hkinds, hall⟩, -⟩ :=
        (tokenize_layout (by decide)).1 tokens htokens
      rw [hlayout] at hkinds
      cases hkinds
      exact ⟨tokens, rfl, hall⟩
  · exact (tokenize_layout (by decide)).2.1.mpr (by decide +kernel)

end Offside
