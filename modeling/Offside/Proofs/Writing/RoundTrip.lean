import Offside.Proofs.Writing.LoweredStatements
import Offside.Proofs.Writing.ReadingCalls

/-!
# Reading back what is written

However a plain expression is written on a line, the program of the line is this expression and
nothing else.  The scanner gives one token for each word, the parser a tree that stands for the
expression, and the lowering of the tree the expression itself.

Main definitions:

- `lineTree`: the syntax tree of a line with one expression.

Main results:

- Theorem `Spells.readsBack`: what spells an expression is read back as the expression.
- Theorems `parse_line` and `lower_line`: the stages behind the scanner.
- Theorem `parseProgram_line`: the round trip.
-/

namespace Offside

open TokenStream (ahead)

/-! ## Written expressions are read back -/

mutual

/-- The words that spell an expression are read back as the expression. -/
theorem Spells.readsBack {level : Level} {e : Expr Unit} {words : List String}
    (h : Spells level e words) (source : Source) : ReadsBack source level e words := by
  match h with
  | .num fits => exact .num fits
  | .true => exact .bool true
  | .false => exact .bool false
  | .none => exact .none
  | .typeVar quoted => exact .typeVar quoted
  | .id named => exact .id named
  | .binOp onLeft onRight atLeast above =>
    exact .binOp (onLeft.readsBack source) (onRight.readsBack source) atLeast above
  | .uniOp onOperand atLeast => exact .uniOp (onOperand.readsBack source) atLeast
  | .ternary onTrue onCondition onFalse above above' =>
    exact .ternary (onTrue.readsBack source) (onCondition.readsBack source)
      (onFalse.readsBack source) above above'
  | .call named ordinary onArguments => exact .call named ordinary (onArguments.row source)
  | .builtin1 builtin onArgument => exact .builtin1 builtin (onArgument.readsBack source)
  | .builtin2 builtin onLeft onRight =>
    exact .builtin2 builtin (onLeft.readsBack source) (onRight.readsBack source)
  | .methodCall onObject named onArguments =>
    exact .methodCall (onObject.readsBack source) named (onArguments.row source)
  | .lookup onObject named => exact .lookup (onObject.readsBack source) named
  | .index onObject onPosition =>
    exact .index (onObject.readsBack source) (onPosition.readsBack source)
  | .listLiteral onElements => exact .listLiteral (onElements.row source)
  | .comprehension onResult named onIterable above =>
    exact .comprehension (onResult.readsBack source) named (onIterable.readsBack source) above
      .none
  | .filtered onResult named onIterable onFilter above above' =>
    exact .comprehension (onResult.readsBack source) named (onIterable.readsBack source) above
      (.some (onFilter.readsBack source) above')
  | .parens inside => exact .parens (inside.readsBack source)

theorem SpellsAll.row {es : List (Expr Unit)} {words : List String} (h : SpellsAll es words)
    (source : Source) : Row source (StandsFor source) es words := by
  match h with
  | .nil => exact .nil
  | .cons onFirst onMore => exact .cons (onFirst.readsBack source) (onMore.row source)

theorem SpellsMore.row {es : List (Expr Unit)} {words : List String} (h : SpellsMore es words)
    (source : Source) : RowMore source (StandsFor source) es words := by
  match h with
  | .nil => exact .nil
  | .cons onNext onMore => exact .cons (onNext.readsBack source) (onMore.row source)

end

/-! ## Written words are readable -/

theorem mem_fixed_brackets (kind : ComprehensionKind) :
    kind.brackets.1 ∈ (marks ++ TokenKind.reservedWords).map Prod.fst ∧
      kind.brackets.2 ∈ (marks ++ TokenKind.reservedWords).map Prod.fst := by
  cases kind <;> decide

mutual

/-- The words that spell an expression are read as one token each. -/
theorem Spells.readable {level : Level} {e : Expr Unit} {words : List String}
    (h : Spells level e words) : AllReadable words := by
  match h with
  | .num (n := n) fits => exact .cons (readable_number n) .nil
  | .true => exact .fixed (by decide) .nil
  | .false => exact .fixed (by decide) .nil
  | .none => exact .fixed (by decide) .nil
  | .typeVar quoted =>
    refine .cons (readable_name (isName_of_mem_specialNames (by decide))) ?_
    exact .fixed (by decide) (.cons (readable_quotation quoted) (.fixed (by decide) .nil))
  | .id named => exact .cons (readable_name named) .nil
  | .binOp onLeft onRight atLeast above =>
    exact .append onLeft.readable (.cons (readable_binOp _) onRight.readable)
  | .uniOp onOperand atLeast => exact .cons (readable_uniOp _) onOperand.readable
  | .ternary onTrue onCondition onFalse above above' =>
    refine .append onTrue.readable (.fixed (by decide) ?_)
    exact .append onCondition.readable (.fixed (by decide) onFalse.readable)
  | .call named ordinary onArguments =>
    refine .cons (readable_name named) (.fixed (by decide) ?_)
    exact .append onArguments.readable (.fixed (by decide) .nil)
  | .builtin1 builtin onArgument =>
    refine .cons (readable_name (isName_of_mem_unaryBuiltins builtin)) (.fixed (by decide) ?_)
    exact .append onArgument.readable (.fixed (by decide) .nil)
  | .builtin2 builtin onLeft onRight =>
    refine .cons (readable_name (isName_of_mem_binaryBuiltins builtin)) (.fixed (by decide) ?_)
    refine .append onLeft.readable (.fixed (by decide) ?_)
    exact .append onRight.readable (.fixed (by decide) .nil)
  | .methodCall onObject named onArguments =>
    refine .append onObject.readable (.fixed (by decide) (.cons (readable_name named) ?_))
    exact .fixed (by decide) (.append onArguments.readable (.fixed (by decide) .nil))
  | .lookup onObject named =>
    exact .append onObject.readable (.fixed (by decide) (.cons (readable_name named) .nil))
  | .index onObject onPosition =>
    refine .append onObject.readable (.fixed (by decide) ?_)
    exact .append onPosition.readable (.fixed (by decide) .nil)
  | .listLiteral onElements =>
    exact .fixed (by decide) (.append onElements.readable (.fixed (by decide) .nil))
  | .comprehension onResult named onIterable above =>
    refine .fixed (mem_fixed_brackets _).1 (.append onResult.readable (.fixed (by decide) ?_))
    refine .cons (readable_name named) (.fixed (by decide) (.append onIterable.readable ?_))
    exact .fixed (mem_fixed_brackets _).2 .nil
  | .filtered onResult named onIterable onFilter above above' =>
    refine .fixed (mem_fixed_brackets _).1 (.append onResult.readable (.fixed (by decide) ?_))
    refine .cons (readable_name named) (.fixed (by decide) (.append onIterable.readable ?_))
    refine .fixed (by decide) (.append onFilter.readable ?_)
    exact .fixed (mem_fixed_brackets _).2 .nil
  | .parens inside =>
    exact .fixed (by decide) (.append inside.readable (.fixed (by decide) .nil))

theorem SpellsAll.readable {es : List (Expr Unit)} {words : List String}
    (h : SpellsAll es words) : AllReadable words := by
  match h with
  | .nil => exact .nil
  | .cons onFirst onMore => exact .append onFirst.readable onMore.readable

theorem SpellsMore.readable {es : List (Expr Unit)} {words : List String}
    (h : SpellsMore es words) : AllReadable words := by
  match h with
  | .nil => exact .nil
  | .cons onNext onMore => exact .fixed (by decide) (.append onNext.readable onMore.readable)

end

/-! ## Lines -/

/-- What starts an expression starts no statement of another form. -/
theorem statement_eq_none {kind : TokenKind} {form : Form}
    (h : Grammar.standard.expression kind = some form) :
    Grammar.standard.statement kind = none := by
  cases kind <;> first | rfl | nomatch h

/-- An expression in front of the end of the line is a statement. -/
theorem Runs.statement {source : Source} {fuel : Nat} {stream after : TokenStream}
    {node : SyntaxNode} {lineEnd : Token}
    (h : Runs ((parserOf source).readWithin fuel (.expression .lowest)) stream node
      (ahead [lineEnd] after))
    (hline : lineEnd.kind = .newline) :
    Runs ((parserOf source).readWithin (fuel + 1) (.form .statement)) stream
      (.branch .expressionStatement [node]) after := by
  rcases starts_of_read h with ⟨form, hform⟩
  have hsimple : Runs ((parserOf source).simpleStatement ((parserOf source).readWithin fuel))
      stream (.branch .expressionStatement [node]) after := by
    refine .bind h (.bind (.currentKind_eq hline) (.bind (.pure _ _) ?_))
    exact .bind (.expect hline) (.pure _ _)
  refine .bind .currentKind ?_
  have hnone : (parserOf source).grammar.statement stream.current.kind = none :=
    statement_eq_none hform
  rw [hnone]
  exact hsimple

/-- The tree of a line with one expression. -/
def lineTree (source : Source) (node : SyntaxNode) : SyntaxNode :=
  ⟨.script, ⟨0, Source.byteSize source⟩, [.branch .expressionStatement [node]]⟩

/-- A statement in front of the end of the file is all of a script. -/
theorem Runs.script {source : Source} {stream : TokenStream} {node : SyntaxNode} {fileEnd : Token}
    (h : Runs ((parserOf source).read (.form .statement)) stream node ⟨fileEnd, []⟩)
    (hfirst : stream.current.kind ≠ .eof) (hfile : fileEnd.kind = .eof) :
    Runs (parserOf source).script stream ⟨.script, ⟨0, Source.byteSize source⟩, [node]⟩
      ⟨fileEnd, []⟩ := by
  have hlast : decide (fileEnd.kind ≠ .eof) = false := by
    rw [hfile]
    decide
  have hnone : ∀ limit, Runs (Parse.rounds (· ≠ .eof)
      (do return [← (parserOf source).read (.form .statement)]) limit) ⟨fileEnd, []⟩ []
      ⟨fileEnd, []⟩ :=
    .rounds_nil hlast
  have hstatements := Runs.repeatWhile rfl
    (.rounds_cons (· ≠ .eof) (decide_eq_true hfirst) (.bind h (.pure [_] _)) (hnone _))
  exact .bind hstatements (.pure _ _)

/-- There is room for two phrases inside one another at each token. -/
theorem nesting_eq (tokens : List Token) (after : TokenStream) :
    ∃ fuel, Parser.nesting (ahead tokens after) = fuel + 1 ∧ 2 * tokens.length ≤ fuel := by
  have hlength := TokenStream.length_rest_ahead tokens after
  refine ⟨32 * ((ahead tokens after).rest.length + 1) + 31, ?_, by omega⟩
  rw [Parser.nesting]
  omega

/-- The tokens of an expression and of the end of the line and the file are parsed as one
statement. -/
theorem parse_line {source : Source} {level : Level} {e : Expr Unit} {words : List String}
    (h : ReadsBack source level e words) {tokens : List Token} {lineEnd fileEnd : Token}
    (htokens : List.Forall₂ (TokenOf source) words tokens) (hline : lineEnd.kind = .newline)
    (hfile : fileEnd.kind = .eof) :
    ∃ node, StandsFor source node e ∧
      parse (tokens ++ [lineEnd, fileEnd]) source = .ok (lineTree source node) := by
  have hstop : pull lineEnd.kind ≤ Power.lowest.rank := by
    rw [hline]
    decide
  rcases nesting_eq tokens (ahead [lineEnd] ⟨fileEnd, []⟩) with ⟨fuel, hfuel, henough⟩
  obtain ⟨node, hnode, hread⟩ := h.read (ahead [lineEnd] ⟨fileEnd, []⟩) .lowest fuel htokens
    level.above_lowest hstop henough
  refine ⟨node, hnode, ?_⟩
  have hstatement : Runs ((parserOf source).read (.form .statement))
      (ahead tokens (ahead [lineEnd] ⟨fileEnd, []⟩)) (.branch .expressionStatement [node])
      ⟨fileEnd, []⟩ := by
    rw [Runs, Parser.read, hfuel]
    exact Runs.statement hread hline
  have hfirst : (ahead tokens (ahead [lineEnd] ⟨fileEnd, []⟩)).current.kind ≠ .eof := by
    rcases starts_of_read hread with ⟨form, hform⟩
    intro heof
    rw [heof] at hform
    cases hform
  have hscript := Runs.script hstatement hfirst hfile
  have hstream : TokenStream.ofTokens (tokens ++ [lineEnd, fileEnd]) (Source.byteSize source) =
      ahead tokens (ahead [lineEnd] ⟨fileEnd, []⟩) := by
    rw [← TokenStream.ahead_append, ← TokenStream.ofTokens_eq hfile _ (Source.byteSize source),
      List.append_assoc]
    rfl
  rw [parse, hstream]
  exact congrArg (fun outcome => outcome.bind fun result => .ok result.1) hscript

/-- A statement that is an expression without its note is an expression. -/
theorem Stmt.eq_expr_of_bare {α : Type} {stmt : Stmt α} {e : Expr Unit}
    (h : stmt.bare = .expr () e) : ∃ a e', stmt = .expr a e' ∧ e'.bare = e := by
  cases stmt with
  | expr a e' =>
    simp only [Stmt.bare, Stmt.map, Stmt.expr.injEq, true_and] at h
    exact ⟨a, e', rfl, h⟩
  | _ => simp [Stmt.bare, Stmt.map] at h

/-- The tree of a line is lowered to a program with the expression as its only statement. -/
theorem lower_line {source : Source} {node : SyntaxNode} {e : Expr Unit}
    (h : StandsFor source node e) :
    ∃ note stmtNote e', lower (lineTree source node) source =
      .ok ⟨note, [], [], [], [.expr stmtNote e']⟩ ∧ Expr.bare e' = e := by
  obtain ⟨note, stmts', hlower, hbare⟩ := lower_script (.cons (.expr h) .nil)
  rcases stmts' with _ | ⟨stmt, _ | ⟨next, more⟩⟩
  · cases hbare
  · obtain ⟨stmtNote, e', rfl, rfl⟩ := Stmt.eq_expr_of_bare (List.cons.inj hbare).1
    exact ⟨note, stmtNote, e', hlower, rfl⟩
  · nomatch (List.cons.inj hbare).2

/-! ## The round trip -/

/-- Every plain expression can be written, and however it is written, it is read back as the
only statement of a program. -/
theorem parseProgram_line {α : Type} (e : Expr α) (h : e.Plain) :
    (∃ level words, Spells level e.bare words) ∧
      ∀ level words, Spells level e.bare words →
        ∃ note stmtNote e', parseProgram (line words) =
          .ok ⟨note, [], [], [], [.expr stmtNote e']⟩ ∧ Expr.bare e' = e.bare := by
  constructor
  · rcases h.spells with ⟨words, hwords⟩
    exact ⟨.primary, words, hwords⟩
  · intro level words hwords
    have hback := hwords.readsBack (line words)
    obtain ⟨tokens, lineEnd, fileEnd, htokenize, hline, hfile, htokens⟩ :=
      tokenize_line hback.nonempty hwords.readable
    rcases parse_line hback htokens hline hfile with ⟨node, hnode, hparse⟩
    rcases lower_line hnode with ⟨note, stmtNote, e', hlower, hbare⟩
    refine ⟨note, stmtNote, e', ?_, hbare⟩
    have hprogram : parseProgram (line words) = (tokenize (line words)).bind fun tokens =>
        (parse tokens (line words)).bind fun tree => lower tree (line words) := rfl
    rw [hprogram, htokenize]
    change (parse (tokens ++ [lineEnd, fileEnd]) (line words)).bind _ = _
    rw [hparse]
    exact hlower

/-- A sum in parentheses times a negation is read back as such. -/
theorem parseProgram_line_sumTimesNegation :
    ∃ note stmtNote e',
      parseProgram (line ["(", "a", "+", "1", ")", "*", "-", "b"]) =
        .ok ⟨note, [], [], [], [.expr stmtNote e']⟩ ∧
      Expr.bare e' = .binOp () .mul (.binOp () .plus (.id () "a") (.literal () ⟨(), .num 1⟩))
        (.uniOp () .neg (.id () "b")) := by
  have onA : IsName "a" := (isName_iff rfl).mpr (by decide)
  have onB : IsName "b" := (isName_iff rfl).mpr (by decide)
  have plain : Expr.Plain (.binOp () .mul
      (.binOp () .plus (.id () "a") (.literal () ⟨(), .num 1⟩)) (.uniOp () .neg (.id () "b"))) :=
    ⟨⟨onA, by decide, by decide⟩, onB⟩
  have onOne : Spells .primary (.literal () ⟨(), .num 1⟩) [toString 1] := .num (by decide)
  have onSum : Spells (BinOp.level .plus) (.binOp () .plus (.id () "a") (.literal () ⟨(), .num 1⟩))
      (["a"] ++ BinOp.lexeme .plus :: [toString 1]) :=
    .binOp (.id onA) onOne (by decide) (by decide)
  have onNegation : Spells (UniOp.level .neg) (.uniOp () .neg (.id () "b"))
      (UniOp.lexeme .neg :: ["b"]) :=
    .uniOp (.id onB) (by decide)
  have onProduct : Spells (BinOp.level .mul) (.binOp () .mul
      (.binOp () .plus (.id () "a") (.literal () ⟨(), .num 1⟩)) (.uniOp () .neg (.id () "b")))
      (("(" :: (["a"] ++ BinOp.lexeme .plus :: [toString 1] ++ [")"])) ++
        BinOp.lexeme .mul :: UniOp.lexeme .neg :: ["b"]) :=
    .binOp (.parens onSum) onNegation (by decide) (by decide)
  exact (parseProgram_line _ plain).2 _ _ onProduct

end Offside
