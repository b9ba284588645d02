import Offside.Proofs.Writing.ReadingStatements
import Offside.Proofs.Writing.ScanningLines

/-!
# Reading back nested statements

However nested statements are laid out, the program of the source is these statements and nothing
else: whatever widths the blocks have, and whatever blank lines and comments stand between their
lines.  The scanner gives the tokens of the pieces of the lines, the parser trees that stand for
the statements, and the lowering of the trees the statements themselves.

Main results:

- Theorem `SpellsStmts.readsBack`: lines of statements have pieces that are read back.
- Theorem `parseProgram_laidOut`: the round trip.
-/

namespace Offside

open TokenStream (ahead)

/-! ## Written lines can be scanned -/

/-- A line that is made up of a reserved word, a balanced row of words and a colon. -/
theorem CodeLine.Sound.header {width : Nat} {word : String} {words : List String}
    (hword : word ∈ TokenKind.reservedWords.map Prod.fst) (hreadable : AllReadable words)
    (hbalanced : Balanced words) : CodeLine.Sound ⟨width, word :: (words ++ [":"])⟩ where
  nonempty := List.cons_ne_nil _ _
  readable := by
    have hfixed : word ∈ (marks ++ TokenKind.reservedWords).map Prod.fst := by
      rw [List.map_append]
      exact List.mem_append_right _ hword
    exact .fixed hfixed (.append hreadable (.fixed (by decide) .nil))
  balanced := by
    have hcolon : Balanced [":"] :=
      .cons (readable_mark (by decide : (":", .colon) ∈ marks)) rfl rfl .nil
    exact .reserved hword (hbalanced.append hcolon)

mutual

/-- The lines of a statement can be scanned. -/
theorem SpellsStmt.sound {width : Nat} {stmt : Stmt Unit} {lines : List CodeLine}
    (h : SpellsStmt width stmt lines) : ∀ line ∈ lines, line.Sound := by
  match h with
  | .pass =>
    have hpass : CodeLine.Sound ⟨width, ["pass"]⟩ :=
      ⟨List.cons_ne_nil _ _, .fixed (by decide) .nil, .reserved (by decide) .nil⟩
    exact List.forall_mem_singleton.mpr hpass
  | .while onCondition onBody =>
    exact List.forall_mem_cons.mpr
      ⟨.header (by decide) onCondition.readable onCondition.balanced, onBody.sound⟩
  | .cond onCondition onBody onTail =>
    exact List.forall_mem_cons.mpr ⟨.header (by decide) onCondition.readable onCondition.balanced,
      List.forall_mem_append.mpr ⟨onBody.sound, onTail.sound⟩⟩
  | @SpellsStmt.for _ item _ _ _ _ words _ _ named onIterable onBody onElse =>
    have hreadable : AllReadable (item :: "in" :: words) :=
      .cons (readable_name named) (.fixed (by decide) onIterable.readable)
    have hbalanced : Balanced (item :: "in" :: words) :=
      .name named (.reserved (by decide) onIterable.balanced)
    have hheader : CodeLine.Sound ⟨width, "for" :: (item :: "in" :: words ++ [":"])⟩ :=
      .header (by decide) hreadable hbalanced
    exact List.forall_mem_cons.mpr
      ⟨hheader, List.forall_mem_append.mpr ⟨onBody.sound, onElse.sound⟩⟩

theorem SpellsStmts.sound {width : Nat} {stmts : List (Stmt Unit)} {lines : List CodeLine}
    (h : SpellsStmts width stmts lines) : ∀ line ∈ lines, line.Sound := by
  match h with
  | .nil => exact nofun
  | .cons onFirst onMore => exact List.forall_mem_append.mpr ⟨onFirst.sound, onMore.sound⟩

theorem SpellsBlock.sound {width : Nat} {stmts : List (Stmt Unit)} {lines : List CodeLine}
    (h : SpellsBlock width stmts lines) : ∀ line ∈ lines, line.Sound := by
  match h with
  | .block _ onFirst onMore => exact List.forall_mem_append.mpr ⟨onFirst.sound, onMore.sound⟩

theorem SpellsElse.sound {width : Nat} {stmts : List (Stmt Unit)} {lines : List CodeLine}
    (h : SpellsElse width stmts lines) : ∀ line ∈ lines, line.Sound := by
  match h with
  | .nothing => exact nofun
  | .otherwise onBody =>
    exact List.forall_mem_cons.mpr ⟨.header (by decide) .nil .nil, onBody.sound⟩

theorem SpellsTail.sound {width : Nat} {stmts : List (Stmt Unit)} {lines : List CodeLine}
    (h : SpellsTail width stmts lines) : ∀ line ∈ lines, line.Sound := by
  match h with
  | .last onElse => exact onElse.sound
  | .elif onCondition onBody onTail =>
    exact List.forall_mem_cons.mpr ⟨.header (by decide) onCondition.readable onCondition.balanced,
      List.forall_mem_append.mpr ⟨onBody.sound, onTail.sound⟩⟩

end

/-! ## Written lines are read back -/

/-- A line of a width and a block behind it are not wider than the line. -/
theorem head_width_cons {width : Nat} {words : List String} (lines : List CodeLine) :
    ∀ line ∈ ((⟨width, words⟩ : CodeLine) :: lines).head?, line.width ≤ width := by
  rintro line ⟨rfl⟩
  exact Nat.le_refl _

/-- A line, its block and the lines of what goes on behind the block. -/
theorem Unfolds.header {width : Nat} {words : List String} {lines lines' : List CodeLine}
    {pieces pieces' : List Piece} (onBody : Unfolds width lines pieces)
    (onMore : Unfolds width lines' pieces') (hmore : ∀ line ∈ lines'.head?, line.width ≤ width) :
    Unfolds width (⟨width, words⟩ :: (lines ++ lines'))
      (wordPieces words ++ .layout .newline :: (pieces ++ pieces')) :=
  .cons words (onBody.append onMore hmore)

mutual

/-- The lines of a statement start at its width, and have pieces that are read back as the
statement. -/
theorem SpellsStmt.readsBack {width : Nat} {stmt : Stmt Unit} {lines : List CodeLine}
    (h : SpellsStmt width stmt lines) (source : Source) :
    StartsAt width lines ∧ ∃ pieces, Unfolds width lines pieces ∧ ReadsStmt source stmt pieces := by
  match h with
  | .pass => exact ⟨⟨_, _, rfl⟩, _, .cons _ .nil, .pass⟩
  | .while onCondition onBody =>
    obtain ⟨pieces, hunfolds, hbody⟩ := onBody.readsBack source
    exact ⟨⟨_, _, rfl⟩, _, .cons _ hunfolds, .while (onCondition.readsBack source) hbody⟩
  | .cond onCondition onBody onTail =>
    obtain ⟨pieces, hunfolds, hbody⟩ := onBody.readsBack source
    obtain ⟨hwidth, pieces', hunfolds', htail⟩ := onTail.readsBack source
    exact ⟨⟨_, _, rfl⟩, _, .header hunfolds hunfolds' hwidth,
      .cond (onCondition.readsBack source) hbody htail⟩
  | .for named onIterable onBody onElse =>
    obtain ⟨pieces, hunfolds, hbody⟩ := onBody.readsBack source
    obtain ⟨hwidth, pieces', hunfolds', helse, -⟩ := onElse.readsBack source
    exact ⟨⟨_, _, rfl⟩, _, .header hunfolds hunfolds' hwidth,
      .for named (onIterable.readsBack source) hbody helse⟩

/-- The lines of statements in a row have pieces that are read back as these statements. -/
theorem SpellsStmts.readsBack {width : Nat} {stmts : List (Stmt Unit)} {lines : List CodeLine}
    (h : SpellsStmts width stmts lines) (source : Source) :
    (∀ line ∈ lines.head?, line.width ≤ width) ∧
      ∃ pieces, Unfolds width lines pieces ∧ ReadsStmts source stmts pieces := by
  match h with
  | .nil => exact ⟨nofun, _, .nil, .nil⟩
  | .cons onFirst onMore =>
    obtain ⟨hstarts, pieces, hunfolds, hfirst⟩ := onFirst.readsBack source
    obtain ⟨hwidth, pieces', hunfolds', hmore⟩ := onMore.readsBack source
    exact ⟨(hstarts.append _).head_le, _, hunfolds.append hunfolds' hwidth, .cons hfirst hmore⟩

theorem SpellsBlock.readsBack {width : Nat} {stmts : List (Stmt Unit)} {lines : List CodeLine}
    (h : SpellsBlock width stmts lines) (source : Source) :
    ∃ pieces, Unfolds width lines pieces ∧ ReadsBlock source stmts pieces := by
  match h with
  | .block wider onFirst onMore =>
    obtain ⟨hstarts, pieces, hunfolds, hfirst⟩ := onFirst.readsBack source
    obtain ⟨hwidth, pieces', hunfolds', hmore⟩ := onMore.readsBack source
    exact ⟨_, .block wider (hstarts.append _) (hunfolds.append hunfolds' hwidth),
      .of_row (.cons hfirst hmore)⟩

/-- No piece of the last alternative is read as the start of a branch with a condition. -/
theorem SpellsElse.readsBack {width : Nat} {stmts : List (Stmt Unit)} {lines : List CodeLine}
    (h : SpellsElse width stmts lines) (source : Source) :
    (∀ line ∈ lines.head?, line.width ≤ width) ∧
      ∃ pieces, Unfolds width lines pieces ∧ ReadsElse source stmts pieces ∧
        ReadsTail source stmts pieces := by
  match h with
  | .nothing =>
    refine ⟨nofun, [], .nil, .nothing, .last .nothing ?_⟩
    intro tokens htokens
    cases htokens
    exact nofun
  | .otherwise onBody =>
    obtain ⟨pieces, hunfolds, hbody⟩ := onBody.readsBack source
    refine ⟨head_width_cons _, _, .cons _ hunfolds, .otherwise hbody, .last (.otherwise hbody) ?_⟩
    intro tokens htokens
    obtain ⟨elseWord, rest, rfl, helse, -⟩ := gives_cons htokens
    have hkind : elseWord.kind = .elseWord := TokenOf.kind_eq helse (readable_reserved (by decide))
    rintro token ⟨rfl⟩
    rw [hkind]
    decide

theorem SpellsTail.readsBack {width : Nat} {stmts : List (Stmt Unit)} {lines : List CodeLine}
    (h : SpellsTail width stmts lines) (source : Source) :
    (∀ line ∈ lines.head?, line.width ≤ width) ∧
      ∃ pieces, Unfolds width lines pieces ∧ ReadsTail source stmts pieces := by
  match h with
  | .last onElse =>
    obtain ⟨hwidth, pieces, hunfolds, -, htail⟩ := onElse.readsBack source
    exact ⟨hwidth, pieces, hunfolds, htail⟩
  | .elif onCondition onBody onTail =>
    obtain ⟨pieces, hunfolds, hbody⟩ := onBody.readsBack source
    obtain ⟨hwidth, pieces', hunfolds', htail⟩ := onTail.readsBack source
    exact ⟨head_width_cons _, _, .header hunfolds hunfolds' hwidth,
      .elif (onCondition.readsBack source) hbody htail⟩

end

/-! ## The round trip -/

/-- The tokens of statements and of the end of the file are parsed as a script of these
statements. -/
theorem parse_statements {source : Source} {stmts : List (Stmt Unit)} {pieces : List Piece}
    {tokens : List Token} {fileEnd : Token} (row : ReadsStmts source stmts pieces)
    (htokens : GivenBy source pieces tokens) (hfile : fileEnd.kind = .eof) :
    ∃ nodes, List.Forall₂ (StandsForStmt source) nodes stmts ∧
      parse (tokens ++ [fileEnd]) source = .ok (scriptTree source nodes) := by
  have hroom : ∀ (first : List Token) (behind : TokenStream), first.length ≤ tokens.length →
      ∃ fuel, 2 * first.length ≤ fuel ∧
        (parserOf source).read (.form .statement) (ahead first behind) =
          (parserOf source).readWithin fuel (.form .statement) (ahead first behind) := by
    intro first behind _
    obtain ⟨fuel, hfuel, henough⟩ := nesting_eq first behind
    exact ⟨fuel + 1, by omega, by rw [Parser.read, hfuel]⟩
  have hstop : decide (fileEnd.kind ≠ .eof) = false := by
    rw [hfile]
    rfl
  have hafter : fileEnd.kind.isBranch = false := by
    rw [hfile]
    rfl
  have hpasses : ∀ kind : TokenKind, kind.startsNested = true → decide (kind ≠ .eof) = true := by
    intro kind h
    cases kind <;> first | rfl | cases h
  have hlength := TokenStream.length_rest_ahead tokens ⟨fileEnd, []⟩
  obtain ⟨nodes, hnodes, hrounds⟩ := row.rounds ((parserOf source).read (.form .statement))
    (· ≠ .eof) ⟨fileEnd, []⟩ ((ahead tokens ⟨fileEnd, []⟩).rest.length + 1) hroom hpasses htokens
    hstop hafter (by omega)
  have hscript : Runs (parserOf source).script (ahead tokens ⟨fileEnd, []⟩)
      (scriptTree source nodes) ⟨fileEnd, []⟩ := .bind (.repeatWhile rfl hrounds) (.pure _ _)
  refine ⟨nodes, hnodes, ?_⟩
  rw [parse, TokenStream.ofTokens_eq hfile]
  exact congrArg (fun outcome => outcome.bind fun result => .ok result.1) hscript

/-- Nested statements can be written and laid out, and whatever lines spell them and however these
are laid out, they are read back as the statements of a program with nothing else in it. -/
theorem parseProgram_laidOut {α : Type} (stmts : List (Stmt α)) (h : Stmt.NestedAll stmts) :
    (∃ lines source, SpellsStmts 0 (Stmt.bareAll stmts) lines ∧ LaidOut lines source) ∧
      ∀ lines source, SpellsStmts 0 (Stmt.bareAll stmts) lines → LaidOut lines source →
        ∃ note stmts', parseProgram source = .ok ⟨note, [], [], [], stmts'⟩ ∧
          Stmt.bareAll stmts' = Stmt.bareAll stmts := by
  constructor
  · obtain ⟨lines, hlines⟩ := h.spells 0
    obtain ⟨source, hsource⟩ := exists_laidOut lines
    exact ⟨lines, source, hlines, hsource⟩
  · intro lines source hlines hsource
    obtain ⟨-, pieces, hunfolds, hrow⟩ := hlines.readsBack source
    obtain ⟨tokens, fileEnd, htokenize, hfile, htokens⟩ :=
      tokenize_lines hsource hlines.sound hunfolds.pieces?_eq
    obtain ⟨nodes, hnodes, hparse⟩ := parse_statements hrow htokens hfile
    obtain ⟨note, stmts', hlower, hbare⟩ := lower_script hnodes
    refine ⟨note, stmts', ?_, hbare⟩
    have hprogram : parseProgram source = (tokenize source).bind fun tokens =>
        (parse tokens source).bind fun tree => lower tree source := rfl
    rw [hprogram, htokenize]
    change (parse (tokens ++ [fileEnd]) source).bind _ = _
    rw [hparse]
    exact hlower

/-- A conditional with a branch and a loop inside, and a loop with an alternative, in blocks of
different widths and with a comment and a blank line between them. -/
theorem parseProgram_laidOut_branchAndLoop :
    ∃ note stmts', parseProgram
        ("if a:\n # first\n   pass\nelif b:\n\n\twhile c:\n\t  pass\n".toList ++
          "for x in d:\n    pass\nelse:\n pass".toList) =
        .ok ⟨note, [], [], [], stmts'⟩ ∧
      Stmt.bareAll stmts' =
        [.cond () (.id () "a") [.pass ()]
          [.cond () (.id () "b") [.while () (.id () "c") [.pass ()]] []],
        .for () "x" (.id () "d") [.pass ()] [.pass ()]] := by
  have onA : IsName "a" := (isName_iff rfl).mpr (by decide)
  have onB : IsName "b" := (isName_iff rfl).mpr (by decide)
  have onC : IsName "c" := (isName_iff rfl).mpr (by decide)
  have onD : IsName "d" := (isName_iff rfl).mpr (by decide)
  have onX : IsName "x" := (isName_iff rfl).mpr (by decide)
  have onBlock {width inner : Nat} (wider : width < inner) :
      SpellsBlock width [.pass ()] [⟨inner, ["pass"]⟩] := .block wider .pass .nil
  have onLoop : SpellsBlock 0 [.while () (.id () "c") [.pass ()]]
      ([⟨1, ["while", "c", ":"]⟩, ⟨3, ["pass"]⟩] ++ []) :=
    .block (by decide) (.while (.id onC) (onBlock (by decide))) .nil
  have onCond : SpellsStmt 0 (.cond () (.id () "a") [.pass ()]
      [.cond () (.id () "b") [.while () (.id () "c") [.pass ()]] []])
      (⟨0, ["if", "a", ":"]⟩ :: ([⟨3, ["pass"]⟩] ++ (⟨0, ["elif", "b", ":"]⟩ ::
        (([⟨1, ["while", "c", ":"]⟩, ⟨3, ["pass"]⟩] ++ []) ++ [])))) :=
    .cond (.id onA) (onBlock (by decide)) (.elif (.id onB) onLoop (.last .nothing))
  have onFor : SpellsStmt 0 (.for () "x" (.id () "d") [.pass ()] [.pass ()])
      (⟨0, ["for", "x", "in", "d", ":"]⟩ :: ([⟨4, ["pass"]⟩] ++
        [⟨0, ["else", ":"]⟩, ⟨1, ["pass"]⟩])) :=
    .for onX (.id onD) (onBlock (by decide)) (.otherwise (onBlock (by decide)))
  have isComment : IsGap " # first".toList :=
    ⟨[' '], "# first".toList, rfl, by simp [Scanner.isIndentation],
      .inr ⟨" first".toList, rfl, by decide⟩⟩
  have isBlank : IsGap [] := ⟨[], [], rfl, by simp, .inl rfl⟩
  have laidFor := @LaidOut.line [] _ ["for", "x", "in", "d", ":"] _ (by simp) <|
    @LaidOut.line [' ', ' ', ' ', ' '] _ ["pass"] _ (by simp [Scanner.isIndentation]) <|
    @LaidOut.line [] _ ["else", ":"] _ (by simp) <|
    @LaidOut.lastLine [' '] ["pass"] (by simp [Scanner.isIndentation])
  have laidAll := @LaidOut.line [] _ ["if", "a", ":"] _ (by simp) <| .gap isComment <|
    @LaidOut.line [' ', ' ', ' '] _ ["pass"] _ (by simp [Scanner.isIndentation]) <|
    @LaidOut.line [] _ ["elif", "b", ":"] _ (by simp) <| .gap isBlank <|
    @LaidOut.line ['\t'] _ ["while", "c", ":"] _ (by simp [Scanner.isIndentation]) <|
    @LaidOut.line ['\t', ' ', ' '] _ ["pass"] _ (by simp [Scanner.isIndentation]) laidFor
  have nested : Stmt.NestedAll (α := Unit) [.cond () (.id () "a") [.pass ()]
      [.cond () (.id () "b") [.while () (.id () "c") [.pass ()]] []],
      .for () "x" (.id () "d") [.pass ()] [.pass ()]] := by
    have plainC : Stmt.Nested (.while () (.id () "c") [.pass ()]) :=
      ⟨onC, List.cons_ne_nil _ _, trivial, trivial⟩
    have branch : Stmt.Nested
        (.cond () (.id () "b") [.while () (.id () "c") [.pass ()]] []) :=
      ⟨onB, List.cons_ne_nil _ _, ⟨plainC, trivial⟩, trivial⟩
    refine ⟨⟨onA, List.cons_ne_nil _ _, ⟨trivial, trivial⟩, ⟨branch, trivial⟩⟩, ?_, trivial⟩
    exact ⟨⟨onX, onD⟩, List.cons_ne_nil _ _, ⟨trivial, trivial⟩, ⟨trivial, trivial⟩⟩
  exact (parseProgram_laidOut _ nested).2 _ _ (.cons onCond (.cons onFor .nil)) laidAll

end Offside
