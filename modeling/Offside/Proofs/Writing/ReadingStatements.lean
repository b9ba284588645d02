import Offside.Proofs.Writing.Pieces
import Offside.Proofs.Writing.RoundTrip

/-!
# Reading written statements

The tokens of the lines of a statement are read as a tree that stands for it, in front of any
token that goes on with none of its blocks.  There is one lemma for each form of statement; each
reads the pieces of its parts by what is known about them.

Main definitions:

- `ReadsStmt` and `ReadsBlock`: what reading the tokens of the pieces of a statement, or of a
  block, comes to.

Main results:

- Theorems `ReadsStmt.cond`, `ReadsStmt.for` and so on: a form of statement is read back if its
  parts are.
- Theorem `ReadsBlock.of_row`: so is a block, if its statements are.
-/

namespace Offside

open TokenStream (ahead)

/-! ## What comes next -/

/-- Whether a token goes on with a statement behind one of its blocks. -/
def TokenKind.isBranch : TokenKind → Bool
  | .elifWord | .elseWord => true
  | _ => false

/-- Whether a nested statement may start with a token. -/
def TokenKind.startsNested : TokenKind → Bool
  | .passWord | .whileWord | .ifWord | .forWord => true
  | _ => false

theorem isBranch_of_startsNested {kind : TokenKind} (h : kind.startsNested = true) :
    kind.isBranch = false := by
  cases kind <;> first | rfl | nomatch h

/-- Tokens are read from pieces. -/
abbrev GivenBy (source : Source) (pieces : List Piece) (tokens : List Token) : Prop :=
  List.Forall₂ (Piece.Gives source) pieces tokens

/-! ## Pieces that are read back -/

/-- The tokens of some pieces start a nested statement, and are read as a tree that stands for it,
in front of any token that goes on with no statement. -/
structure ReadsStmt (source : Source) (stmt : Stmt Unit) (pieces : List Piece) : Prop where
  starts : ∀ {tokens : List Token}, GivenBy source pieces tokens →
    ∃ first more, tokens = first :: more ∧ first.kind.startsNested = true
  reads : ∀ (after : TokenStream) (fuel : Nat) {tokens : List Token},
    GivenBy source pieces tokens → after.current.kind.isBranch = false →
      2 * tokens.length ≤ fuel → ∃ node, StandsForStmt source node stmt ∧
        Runs ((parserOf source).readWithin fuel (.form .statement)) (ahead tokens after) node after

/-- Pieces of statements in a row. -/
inductive ReadsStmts (source : Source) : List (Stmt Unit) → List Piece → Prop where
  | nil : ReadsStmts source [] []
  | cons {first : Stmt Unit} {more : List (Stmt Unit)} {pieces pieces' : List Piece}
      (onFirst : ReadsStmt source first pieces) (onMore : ReadsStmts source more pieces') :
      ReadsStmts source (first :: more) (pieces ++ pieces')

/-- Behind a colon and the end of the line, the tokens of some pieces are read as a block. -/
def ReadsBlock (source : Source) (stmts : List (Stmt Unit)) (pieces : List Piece) : Prop :=
  ∀ (after : TokenStream) (fuel : Nat) {colon lineEnd : Token} {tokens : List Token},
    TokenOf source ":" colon → lineEnd.kind = .newline → GivenBy source pieces tokens →
      2 * tokens.length ≤ fuel → ∃ node, StandsForBlock source node stmts ∧
        Runs ((parserOf source).readWithin fuel (.form .block))
          (ahead (colon :: lineEnd :: tokens) after) node after

/-- The tokens of some pieces are read as the last alternative of a statement. -/
def ReadsElse (source : Source) (stmts : List (Stmt Unit)) (pieces : List Piece) : Prop :=
  ∀ (after : TokenStream) (fuel : Nat) {tokens : List Token}, GivenBy source pieces tokens →
    after.current.kind.isBranch = false → 2 * tokens.length ≤ fuel →
      ∃ nodes, ElseRow source nodes stmts ∧
        Runs (Parser.elsePart ((parserOf source).readWithin fuel)) (ahead tokens after) nodes after

/-- A branch of a conditional. -/
def elifBranch (source : Source) (fuel : Nat) : Parse (List SyntaxNode) := do
  let word ← Parse.leaf .keyword
  let condition ← (parserOf source).readWithin fuel (.expression .lowest)
  let body ← (parserOf source).readWithin fuel (.form .block)
  return [word, condition, body]

/-- The tokens of some pieces are read as the branches of a conditional. -/
def ReadsTail (source : Source) (stmts : List (Stmt Unit)) (pieces : List Piece) : Prop :=
  ∀ (after : TokenStream) (fuel limit : Nat) {tokens : List Token}, GivenBy source pieces tokens →
    after.current.kind.isBranch = false → 2 * tokens.length ≤ fuel → tokens.length ≤ limit →
      ∃ more otherwise middle, TailRow source (more ++ otherwise) stmts ∧
        Runs (Parse.rounds (· = .elifWord) (elifBranch source fuel) limit) (ahead tokens after) more
          middle ∧
        Runs (Parser.elsePart ((parserOf source).readWithin fuel)) middle otherwise after

section Reading

variable {source : Source} {word item : String} {words : List String} {pieces pieces' : List Piece}
  {tokens : List Token} {stmts others : List (Stmt Unit)} {level : Level} {e : Expr Unit}

/-! ## Tokens of pieces -/

theorem gives_cons {piece : Piece} (h : GivenBy source (piece :: pieces) tokens) :
    ∃ token rest, tokens = token :: rest ∧ piece.Gives source token ∧
      GivenBy source pieces rest := by
  obtain ⟨token, rest, htoken, hrest, rfl⟩ := List.forall₂_cons_left_iff.mp h
  exact ⟨token, rest, rfl, htoken, hrest⟩

/-- The tokens of a line and of what follows are those of the words, the end of the line, and
more. -/
theorem gives_line (h : GivenBy source (wordPieces words ++ .layout .newline :: pieces) tokens) :
    ∃ onLine lineEnd rest, tokens = onLine ++ lineEnd :: rest ∧
      List.Forall₂ (TokenOf source) words onLine ∧ lineEnd.kind = .newline ∧
      GivenBy source pieces rest := by
  obtain ⟨onLine, rest, rfl, honLine, hrest⟩ := forall₂_append_left h
  obtain ⟨lineEnd, rest, rfl, hlineEnd, hrest⟩ := gives_cons hrest
  have hwords := (List.forall₂_map_left_iff (f := Piece.word)).mp honLine
  exact ⟨onLine, lineEnd, rest, rfl, hwords, hlineEnd, hrest⟩

/-! ## Rows of statements -/

/-- Statements in a row, if there are any, start with the first of them. -/
theorem ReadsStmts.starts (row : ReadsStmts source stmts pieces)
    (h : GivenBy source pieces tokens) :
    tokens = [] ∨ ∃ first more, tokens = first :: more ∧ first.kind.startsNested = true := by
  cases row with
  | nil =>
    cases h
    exact .inl rfl
  | cons onFirst onMore =>
    obtain ⟨first, rest, rfl, hfirst, -⟩ := forall₂_append_left h
    obtain ⟨token, more, rfl, hstarts⟩ := onFirst.starts hfirst
    exact .inr ⟨token, more ++ rest, rfl, hstarts⟩

/-- So in front of a token that goes on with no statement, they go on with none. -/
theorem ReadsStmts.isBranch_current (row : ReadsStmts source stmts pieces)
    (h : GivenBy source pieces tokens) {after : TokenStream}
    (hafter : after.current.kind.isBranch = false) :
    (ahead tokens after).current.kind.isBranch = false := by
  rcases row.starts h with rfl | ⟨first, more, rfl, hstarts⟩
  · exact hafter
  · exact isBranch_of_startsNested hstarts

/-- Statements in a row are read one after the other, by any reader of statements that has room for
each of them. -/
theorem ReadsStmts.rounds (row : ReadsStmts source stmts pieces) (statement : Parse SyntaxNode)
    (passes : TokenKind → Bool) (after : TokenStream) (limit : Nat)
    (hroom : ∀ (first : List Token) (behind : TokenStream), first.length ≤ tokens.length →
      ∃ fuel, 2 * first.length ≤ fuel ∧ statement (ahead first behind) =
        (parserOf source).readWithin fuel (.form .statement) (ahead first behind))
    (hpasses : ∀ kind : TokenKind, kind.startsNested = true → passes kind = true)
    (htokens : GivenBy source pieces tokens) (hstop : passes after.current.kind = false)
    (hafter : after.current.kind.isBranch = false) (hlimit : tokens.length ≤ limit) :
    ∃ nodes, List.Forall₂ (StandsForStmt source) nodes stmts ∧
      Runs (Parse.rounds passes (do return [← statement]) limit) (ahead tokens after) nodes
        after := by
  induction row generalizing tokens limit with
  | nil =>
    cases htokens
    exact ⟨[], .nil, .rounds_nil hstop limit⟩
  | cons onFirst onMore ih =>
    obtain ⟨first, rest, rfl, hfirst, hrest⟩ := forall₂_append_left htokens
    rw [List.length_append] at hlimit
    have hroom' : ∀ (some : List Token) (behind : TokenStream), some.length ≤ rest.length →
        ∃ fuel, 2 * some.length ≤ fuel ∧ statement (ahead some behind) =
          (parserOf source).readWithin fuel (.form .statement) (ahead some behind) := by
      intro some behind hsome
      exact hroom some behind (by rw [List.length_append]; omega)
    obtain ⟨fuel, hfuel, heq⟩ := hroom first (ahead rest after) (by rw [List.length_append]; omega)
    obtain ⟨node, hnode, hread⟩ := onFirst.reads (ahead rest after) fuel hfirst
      (onMore.isBranch_current hrest hafter) hfuel
    obtain ⟨token, more, rfl, hstarts⟩ := onFirst.starts hfirst
    rw [List.length_cons] at hlimit
    obtain ⟨limit, rfl⟩ : ∃ n, limit = n + 1 := ⟨limit - 1, by omega⟩
    obtain ⟨nodes, hnodes, hmore⟩ := ih limit hroom' hrest (by omega)
    have hread' : Runs statement (ahead (token :: more) (ahead rest after)) node
        (ahead rest after) := heq.trans hread
    rw [TokenStream.ahead_append]
    exact ⟨node :: nodes, .cons hnode hnodes,
      .rounds_cons passes (hpasses _ hstarts) (.bind hread' (.pure [node] _)) hmore⟩

/-! ## Blocks -/

/-- A block is an opening, statements in a row and a closing. -/
theorem ReadsBlock.of_row (row : ReadsStmts source stmts pieces) :
    ReadsBlock source stmts (.layout .indent :: (pieces ++ [.layout .dedent])) := by
  intro after fuel colon lineEnd tokens hcolon hline htokens hfuel
  obtain ⟨opening, rest, rfl, hopening, hrest⟩ := gives_cons htokens
  obtain ⟨inside, rest, rfl, hinside, hrest⟩ := forall₂_append_left hrest
  obtain ⟨closing, rest, rfl, hclosing, hnil⟩ := gives_cons hrest
  cases hnil
  have hopeningKind : opening.kind = .indent := hopening
  have hclosingKind : closing.kind = .dedent := hclosing
  have hcolonKind : colon.kind = .colon := hcolon.kind_eq (readable_mark (by decide))
  simp only [List.length_append, List.length_cons, List.length_nil] at hfuel
  obtain ⟨fuel, rfl⟩ : ∃ n, fuel = n + 1 := ⟨fuel - 1, by omega⟩
  have hstop : (decide (closing.kind ≠ .dedent) && decide (closing.kind ≠ .eof)) = false := by
    rw [hclosingKind]
    rfl
  have hafter : closing.kind.isBranch = false := by
    rw [hclosingKind]
    rfl
  have hpasses : ∀ kind : TokenKind, kind.startsNested = true →
      (decide (kind ≠ .dedent) && decide (kind ≠ .eof)) = true := by
    intro kind h
    cases kind <;> first | rfl | nomatch h
  have hlength := TokenStream.length_rest_ahead inside (ahead [closing] after)
  obtain ⟨nodes, hnodes, hrounds⟩ := row.rounds
    ((parserOf source).readWithin fuel (.form .statement))
    (fun kind => kind ≠ .dedent && kind ≠ .eof) (ahead [closing] after)
    ((ahead inside (ahead [closing] after)).rest.length + 1)
    (fun _ _ hfirst => ⟨fuel, by omega, rfl⟩) hpasses hinside hstop hafter (by omega)
  refine ⟨_, .of_statements hcolon.2 hnodes, ?_⟩
  have hblock : Runs ((parserOf source).block ((parserOf source).readWithin fuel))
      (ahead (colon :: lineEnd :: opening :: (inside ++ [closing])) after)
      (.branch .body ([.leaf .punctuation colon.span] ++ nodes)) after := by
    refine .bind (.optionally_take _ (decide_eq_true hcolonKind) (.bind .leaf (.pure _ _))) ?_
    refine .bind (.currentKind_eq hline) ?_
    rw [if_pos rfl]
    refine .bind .advance (.bind (.expect hopeningKind) ?_)
    rw [TokenStream.ahead_append]
    exact .bind (.repeatWhile rfl hrounds) (.bind (.expect hclosingKind) (.pure _ _))
  exact hblock

/-- A condition or an iterable, and the block behind it. -/
theorem reads_header (onCondition : ReadsBack source level e words)
    (onBody : ReadsBlock source stmts pieces)
    (htokens : GivenBy source (wordPieces (words ++ [":"]) ++ .layout .newline :: pieces) tokens)
    (after : TokenStream) (fuel : Nat) (hfuel : 2 * tokens.length ≤ fuel) :
    ∃ condition body middle, StandsFor source condition e ∧ StandsForBlock source body stmts ∧
      Runs ((parserOf source).readWithin fuel (.expression .lowest)) (ahead tokens after) condition
        middle ∧
      Runs ((parserOf source).readWithin fuel (.form .block)) middle body after := by
  obtain ⟨onLine, lineEnd, rest, rfl, honLine, hlineEnd, hrest⟩ := gives_line htokens
  obtain ⟨first, colons, rfl, hfirst, hcolons⟩ := tokens_append honLine
  obtain ⟨colon, rfl, hcolon⟩ := tokens_singleton hcolons
  simp only [List.length_append, List.length_cons, List.length_nil] at hfuel
  have hstop : pull colon.kind ≤ Power.lowest.rank := by
    rw [hcolon.kind_eq (readable_mark (by decide : (":", .colon) ∈ marks))]
    decide
  obtain ⟨condition, hcondition, hread⟩ := onCondition.read
    (ahead (colon :: lineEnd :: rest) after) .lowest fuel hfirst level.above_lowest hstop (by omega)
  obtain ⟨body, hbody, hread'⟩ := onBody after fuel hcolon hlineEnd hrest (by omega)
  refine ⟨condition, body, _, hcondition, hbody, ?_, hread'⟩
  rw [List.append_assoc, TokenStream.ahead_append]
  exact hread

/-! ## Alternatives -/

theorem ReadsElse.nothing : ReadsElse source [] [] := by
  intro after fuel tokens htokens hafter _
  cases htokens
  have hskip : decide (after.current.kind = .elseWord) = false := by
    refine decide_eq_false fun helse => ?_
    rw [helse] at hafter
    nomatch hafter
  exact ⟨[], .nothing, .optionally_skip hskip⟩

/-- The word `else` and its block. -/
theorem ReadsElse.otherwise (onBody : ReadsBlock source stmts pieces) :
    ReadsElse source stmts (wordPieces ["else", ":"] ++ .layout .newline :: pieces) := by
  intro after fuel tokens htokens _ hfuel
  obtain ⟨onLine, lineEnd, rest, rfl, honLine, hlineEnd, hrest⟩ := gives_line htokens
  obtain ⟨elseWord, colons, rfl, helse, hcolons⟩ := tokens_cons honLine
  obtain ⟨colon, rfl, hcolon⟩ := tokens_singleton hcolons
  have helseKind : elseWord.kind = .elseWord := helse.kind_eq (readable_reserved (by decide))
  simp only [List.length_append, List.length_cons, List.length_nil] at hfuel
  obtain ⟨body, hbody, hread⟩ := onBody after fuel hcolon hlineEnd hrest (by omega)
  refine ⟨_, .otherwise helse.2 hbody, ?_⟩
  exact .optionally_take _ (decide_eq_true helseKind) (.bind .leaf (.bind hread (.pure _ _)))

/-- Tokens of an alternative start no branch with a condition. -/
theorem ReadsTail.last (onElse : ReadsElse source stmts pieces)
    (hfirst : ∀ {tokens : List Token}, GivenBy source pieces tokens →
      ∀ token ∈ tokens.head?, token.kind ≠ .elifWord) : ReadsTail source stmts pieces := by
  intro after fuel limit tokens htokens hafter hfuel _
  obtain ⟨nodes, hnodes, hread⟩ := onElse after fuel htokens hafter hfuel
  have hnotElif : (ahead tokens after).current.kind ≠ .elifWord := by
    cases tokens with
    | nil =>
      intro helif
      rw [TokenStream.ahead_nil] at helif
      rw [helif] at hafter
      nomatch hafter
    | cons token tokens => exact hfirst htokens token rfl
  exact ⟨[], nodes, _, .last hnodes, .rounds_nil (decide_eq_false hnotElif) limit, hread⟩

/-- A branch with a condition and its block in front of the other branches. -/
theorem ReadsTail.elif (onCondition : ReadsBack source level e words)
    (onBody : ReadsBlock source stmts pieces) (onTail : ReadsTail source others pieces') :
    ReadsTail source [.cond () e stmts others]
      (wordPieces ("elif" :: (words ++ [":"])) ++ .layout .newline :: (pieces ++ pieces')) := by
  intro after fuel limit tokens htokens hafter hfuel hlimit
  have hpieces : wordPieces ("elif" :: (words ++ [":"])) ++
      .layout .newline :: (pieces ++ pieces') =
      .word "elif" :: ((wordPieces (words ++ [":"]) ++ .layout .newline :: pieces) ++ pieces') := by
    simp [wordPieces]
  rw [hpieces] at htokens
  obtain ⟨elifWord, rest, rfl, helif, hrest⟩ := gives_cons htokens
  obtain ⟨header, rest, rfl, hheader, hrest⟩ := forall₂_append_left hrest
  simp only [List.length_cons, List.length_append] at hfuel hlimit
  obtain ⟨limit, rfl⟩ : ∃ n, limit = n + 1 := ⟨limit - 1, by omega⟩
  obtain ⟨condition, body, middle, hcondition, hbody, hread, hread'⟩ :=
    reads_header onCondition onBody hheader (ahead rest after) fuel (by omega)
  obtain ⟨more, final, last, hrow, hrounds, helse⟩ :=
    onTail after fuel limit hrest hafter (by omega) (by omega)
  have helifKind : elifWord.kind = .elifWord := helif.kind_eq (readable_reserved (by decide))
  have hbranch : Runs (elifBranch source fuel) (ahead (elifWord :: (header ++ rest)) after)
      [.leaf .keyword elifWord.span, condition, body] (ahead rest after) := by
    rw [← List.cons_append, TokenStream.ahead_append]
    exact .bind .leaf (.bind hread (.bind hread' (.pure _ _)))
  exact ⟨_, final, last, .elif helif.2 hcondition hbody hrow,
    .rounds_cons _ (decide_eq_true helifKind) hbranch hrounds, helse⟩

/-! ## Statements -/

/-- A statement that starts with a word of its own is read by the rule of its form. -/
theorem ReadsStmt.of_form {word : String} (kind : TokenKind) (form : Form) {stmt : Stmt Unit}
    (hword : Readable word kind) (hstarts : kind.startsNested = true)
    (hform : Grammar.standard.statement kind = some form)
    (h : ∀ (after : TokenStream) (fuel : Nat) {token : Token} {tokens : List Token},
      TokenOf source word token → GivenBy source pieces tokens →
        after.current.kind.isBranch = false → 2 * tokens.length ≤ fuel →
          ∃ node, StandsForStmt source node stmt ∧
            Runs ((parserOf source).rule ((parserOf source).readWithin fuel) (.form form))
              (ahead (token :: tokens) after) node after) :
    ReadsStmt source stmt (.word word :: pieces) where
  starts := by
    intro tokens htokens
    obtain ⟨token, rest, rfl, htoken, -⟩ := gives_cons htokens
    have hkind : token.kind = kind := TokenOf.kind_eq htoken hword
    exact ⟨token, rest, rfl, hkind ▸ hstarts⟩
  reads := by
    intro after fuel tokens htokens hafter hfuel
    obtain ⟨token, rest, rfl, htoken, hrest⟩ := gives_cons htokens
    have hkind : token.kind = kind := TokenOf.kind_eq htoken hword
    rw [List.length_cons] at hfuel
    obtain ⟨fuel, rfl⟩ : ∃ n, fuel = n + 2 := ⟨fuel - 2, by omega⟩
    obtain ⟨node, hnode, hrule⟩ := h after fuel htoken hrest hafter (by omega)
    refine ⟨node, hnode, ?_⟩
    have hstatement : Runs ((parserOf source).statement ((parserOf source).readWithin (fuel + 1)))
        (ahead (token :: rest) after) node after := by
      refine .bind (.currentKind_eq hkind) ?_
      have hgrammar : (parserOf source).grammar.statement kind = some form := hform
      rw [hgrammar]
      exact hrule
    exact hstatement

theorem ReadsStmt.pass :
    ReadsStmt source (.pass ()) (wordPieces ["pass"] ++ [.layout .newline]) := by
  refine .of_form .passWord .keywordStatement (readable_reserved (by decide)) rfl rfl ?_
  intro after fuel token tokens hword htokens _ _
  obtain ⟨lineEnd, rest, rfl, hline, hnil⟩ := gives_cons htokens
  cases hnil
  have hlineKind : lineEnd.kind = .newline := hline
  have hkind : token.kind = .passWord := hword.kind_eq (readable_reserved (by decide))
  refine ⟨_, .pass hword.2.cuts, ?_⟩
  exact .bind (.currentKind_eq hkind) (.bind .leaf (.bind (.expect hlineKind) (.pure _ _)))

theorem ReadsStmt.while (onCondition : ReadsBack source level e words)
    (onBody : ReadsBlock source stmts pieces) :
    ReadsStmt source (.while () e stmts)
      (wordPieces ("while" :: (words ++ [":"])) ++ .layout .newline :: pieces) := by
  refine .of_form .whileWord .whileStatement (readable_reserved (by decide)) rfl rfl ?_
  intro after fuel token tokens hword htokens _ hfuel
  obtain ⟨condition, body, middle, hcondition, hbody, hread, hread'⟩ :=
    reads_header onCondition onBody htokens after fuel hfuel
  refine ⟨_, .while hword.2.cuts hcondition hbody, ?_⟩
  exact .bind .leaf (.bind hread (.bind hread' (.pure _ _)))

theorem ReadsStmt.cond (onCondition : ReadsBack source level e words)
    (onBody : ReadsBlock source stmts pieces) (onTail : ReadsTail source others pieces') :
    ReadsStmt source (.cond () e stmts others)
      (wordPieces ("if" :: (words ++ [":"])) ++ .layout .newline :: (pieces ++ pieces')) := by
  refine .of_form .ifWord .ifStatement (readable_reserved (by decide)) rfl rfl ?_
  intro after fuel token tokens hword htokens hafter hfuel
  have hpieces : wordPieces (words ++ [":"]) ++ .layout .newline :: (pieces ++ pieces') =
      (wordPieces (words ++ [":"]) ++ .layout .newline :: pieces) ++ pieces' := by simp
  change GivenBy source (wordPieces (words ++ [":"]) ++ _) tokens at htokens
  rw [hpieces] at htokens
  obtain ⟨header, rest, rfl, hheader, hrest⟩ := forall₂_append_left htokens
  rw [List.length_append] at hfuel
  obtain ⟨condition, body, middle, hcondition, hbody, hread, hread'⟩ :=
    reads_header onCondition onBody hheader (ahead rest after) fuel (by omega)
  obtain ⟨more, final, last, hrow, hrounds, helse⟩ :=
    onTail after fuel ((ahead rest after).rest.length + 1) hrest hafter (by omega)
      (by rw [TokenStream.length_rest_ahead]; omega)
  rw [← TokenStream.ahead_append] at hread
  refine ⟨_, .cond hword.2.cuts hcondition hbody hrow, ?_⟩
  have hif : Runs (Parser.ifStatement ((parserOf source).readWithin fuel))
      (ahead (token :: (header ++ rest)) after) (.branch .ifStatement
        ([.leaf .keyword token.span, condition, body] ++ more ++ final)) after :=
    .bind .leaf (.bind hread (.bind hread' (.bind (.repeatWhile rfl hrounds)
      (.bind helse (.pure _ _)))))
  rw [List.append_assoc] at hif
  exact hif

theorem ReadsStmt.for (named : IsName item) (onIterable : ReadsBack source level e words)
    (onBody : ReadsBlock source stmts pieces) (onElse : ReadsElse source others pieces') :
    ReadsStmt source (.for () item e stmts others)
      (wordPieces ("for" :: item :: "in" :: (words ++ [":"])) ++
        .layout .newline :: (pieces ++ pieces')) := by
  refine .of_form .forWord .forStatement (readable_reserved (by decide)) rfl rfl ?_
  intro after fuel token tokens hword htokens hafter hfuel
  have hpieces : wordPieces (item :: "in" :: (words ++ [":"])) ++
      .layout .newline :: (pieces ++ pieces') = .word item :: .word "in" ::
        ((wordPieces (words ++ [":"]) ++ .layout .newline :: pieces) ++ pieces') := by
    simp [wordPieces]
  change GivenBy source (wordPieces (item :: "in" :: (words ++ [":"])) ++ _) tokens at htokens
  rw [hpieces] at htokens
  obtain ⟨itemWord, rest, rfl, hitem, hrest⟩ := gives_cons htokens
  obtain ⟨inWord, rest, rfl, hin, hrest⟩ := gives_cons hrest
  obtain ⟨header, rest, rfl, hheader, hrest⟩ := forall₂_append_left hrest
  simp only [List.length_cons, List.length_append] at hfuel
  have hitemKind : itemWord.kind = .identifier := hitem.kind_eq (readable_name named)
  have hinKind : inWord.kind = .inWord := hin.kind_eq (readable_reserved (by decide))
  obtain ⟨iterable, body, middle, hiterable, hbody, hread, hread'⟩ :=
    reads_header onIterable onBody hheader (ahead rest after) fuel (by omega)
  obtain ⟨nodes, hrow, helse⟩ := onElse after fuel hrest hafter (by omega)
  rw [← TokenStream.ahead_append] at hread
  refine ⟨.branch .forStatement (.leaf .keyword token.span :: .leaf .variableName itemWord.span ::
    .leaf .keyword inWord.span :: iterable :: body :: nodes),
    .for hword.2.cuts hitem.2 hiterable hbody hrow, ?_⟩
  refine .bind .leaf (.bind (.expectLeaf hitemKind) (.bind (.expectLeaf hinKind) ?_))
  exact .bind hread (.bind hread' (.bind helse (.pure _ _)))

end Reading
end Offside
