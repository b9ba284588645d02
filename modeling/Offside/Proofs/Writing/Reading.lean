import Offside.Proofs.Syntax.Alike
import Offside.Proofs.Writing.LoweredLists
import Offside.Proofs.Writing.Scanning
import Offside.Proofs.Writing.Streams

/-!
# Reading written expressions

The tokens of a written expression are read as a tree that stands for it, in front of any
token that does not bind more tightly than what the expression ends with.  There is one lemma
for each form of expression; each reads its parts by what is known about them.

Main definitions:

- `Level.reach`: how tightly a suffix may bind without being taken by the end of an
  expression.
- `ReadsNode` and `ReadsBack`: what reading the tokens of an expression comes to.

Main results:

- Theorems `ReadsBack.binOp`, `ReadsBack.ternary` and so on: a form of expression is read back
  if its parts are.
-/

namespace Offside

open TokenStream (ahead)

/-! ## Levels and powers -/

/-- A suffix that binds at most this tightly is not taken by the last operand inside a written
expression of a level.  A ternary ends with an operand that takes every suffix; an expression
with nothing open at its end takes none. -/
def Level.reach : Level → Nat
  | .ternary => 0
  | .primary => 11
  | level => level.rank

/-- An expression of a level is read as a whole where only suffixes above a power are taken;
a unary operator may also stand where its own operands stand. -/
def Level.Above (level : Level) (above : Power) : Prop :=
  above.rank < level.rank ∨ (level = .not ∨ level = .minus) ∧ above.rank ≤ level.rank

/-- How tightly a token binds to an expression on its left. -/
def pull (kind : TokenKind) : Nat := (Grammar.standard.power kind).rank

/-- The kind of the word of a binary operator. -/
def BinOp.tokenKind : BinOp → TokenKind
  | .plus => .plus
  | .minus => .dash
  | .mul => .star
  | .idiv => .doubleSlash
  | .mod => .percent
  | .eq => .equals
  | .neq => .notEquals
  | .lte => .lessEquals
  | .gte => .greaterEquals
  | .lt => .less
  | .gt => .greater
  | .is => .isWord
  | .and => .andWord
  | .or => .orWord

/-- The power of a binary operator. -/
def BinOp.power : BinOp → Power
  | .or => .logicalOr
  | .and => .logicalAnd
  | .eq | .neq | .lte | .gte | .lt | .gt | .is => .relational
  | .plus | .minus => .additive
  | .mul | .idiv | .mod => .multiplicative

/-- The kind of the word of a unary operator. -/
def UniOp.tokenKind : UniOp → TokenKind
  | .neg => .dash
  | .not => .notWord

/-- The power of a unary operator. -/
def UniOp.power : UniOp → Power
  | .neg => .unary
  | .not => .logicalNot

/-- The text of a binary operator is read as its token. -/
theorem readable_binOp (op : BinOp) : Readable op.lexeme op.tokenKind := by
  cases op with
  | is | and | or => exact readable_reserved (by decide)
  | _ => exact readable_mark (by decide)

/-- So is the text of a unary operator. -/
theorem readable_uniOp (op : UniOp) : Readable op.lexeme op.tokenKind := by
  cases op with
  | not => exact readable_reserved (by decide)
  | neg => exact readable_mark (by decide)

/-- The token of a binary operator starts a binary suffix of its power. -/
theorem suffix_binOp (op : BinOp) :
    Grammar.standard.suffix op.tokenKind = some (op.power, .binary) := by
  cases op <;> rfl

/-- The power of a binary operator has the rank of its level. -/
theorem rank_power_binOp (op : BinOp) : op.power.rank = op.level.rank := by
  cases op <;> rfl

/-- Behind a binary operation may stand what is not above its level. -/
theorem reach_level_binOp (op : BinOp) : op.level.reach = op.level.rank := by
  cases op <;> rfl

/-- The power of a unary operator has the rank of its level. -/
theorem rank_power_uniOp (op : UniOp) : op.power.rank = op.level.rank := by
  cases op <;> rfl

/-- Behind a unary operation may stand what is not above its level. -/
theorem reach_level_uniOp (op : UniOp) : op.level.reach = op.level.rank := by
  cases op <;> rfl

/-- All binary operators are above conditionals. -/
theorem BinOp.lt_rank_level (op : BinOp) : Level.ternary.rank < op.level.rank := by
  cases op <;> decide

namespace Level

variable {level : Level} {above : Power}

/-- An expression that binds more tightly than a ternary takes no suffix above its own
level. -/
theorem rank_le_reach (h : Level.ternary.rank < level.rank) : level.rank ≤ level.reach := by
  cases level with
  | ternary => exact absurd h (by decide)
  | _ => decide

/-- A level of a higher rank is above a power. -/
theorem Above.of_lt (h : above.rank < level.rank) : level.Above above := .inl h

/-- Every expression is read as a whole where all suffixes are taken. -/
theorem above_lowest (level : Level) : level.Above .lowest := by
  refine .of_lt ?_
  cases level <;> decide

/-- What may stand behind a unary operator is read as a whole there. -/
theorem above_uniOp {op : UniOp} (atLeast : op.level.rank ≤ level.rank) :
    level.Above op.power := by
  rw [Above, rank_power_uniOp]
  rcases Nat.lt_or_eq_of_le atLeast with hlt | heq
  · exact .inl hlt
  · refine .inr ⟨?_, atLeast⟩
    cases op <;> cases level <;> first | decide | nomatch heq

/-- Only unary operators may stand where no suffix of their own power is taken. -/
theorem Above.lt (h : level.Above above) (hnot : level ≠ .not) (hminus : level ≠ .minus) :
    above.rank < level.rank := by
  rcases h with hlt | ⟨rfl | rfl, -⟩
  · exact hlt
  · exact absurd rfl hnot
  · exact absurd rfl hminus

/-- A binary operation that is above a power has an operator of a higher rank. -/
theorem Above.lt_binOp {op : BinOp} (h : op.level.Above above) : above.rank < op.level.rank :=
  h.lt (by cases op <;> decide) (by cases op <;> decide)

/-- Where an expression is read as a whole, it ends before a token that is not taken there. -/
theorem Above.pull_le_reach (h : level.Above above) {kind : TokenKind}
    (hpull : pull kind ≤ above.rank) : pull kind ≤ level.reach := by
  rcases h with hlt | ⟨rfl | rfl, hle⟩
  · cases level with
    | ternary =>
      have hrank : above.rank < 1 := hlt
      have hreach : Level.ternary.reach = 0 := rfl
      omega
    | _ => exact Nat.le_trans hpull (Nat.le_trans (Nat.le_of_lt hlt) (rank_le_reach (by decide)))
  · exact Nat.le_trans hpull hle
  · exact Nat.le_trans hpull hle

end Level

/-! ## Reading back -/

/-- The parser of the language for a source. -/
def parserOf (source : Source) : Parser := ⟨source, .standard⟩

/-- The tokens of the words of an expression of a level are read as a tree that stands for
something, in front of any token that the end of the expression does not take. -/
structure ReadsNode (source : Source) (level : Level) (stands : SyntaxNode → Prop)
    (words : List String) : Prop where
  nonempty : words ≠ []
  reads : ∀ (after : TokenStream) (above : Power) (fuel : Nat) {tokens : List Token},
    List.Forall₂ (TokenOf source) words tokens → level.Above above →
    pull after.current.kind ≤ level.reach → 2 * tokens.length ≤ fuel + 1 →
      ∃ node, stands node ∧
        ReadsTo (parserOf source) ((parserOf source).readWithin fuel) above (ahead tokens after)
          node after

/-- The tokens of the words of an expression are read as a tree that stands for it. -/
abbrev ReadsBack (source : Source) (level : Level) (e : Expr Unit) (words : List String) : Prop :=
  ReadsNode source level (StandsFor source · e) words

/-! ## Tokens of words -/

section Tokens

variable {source : Source} {word : String} {words more : List String} {tokens : List Token}

/-- The tokens of a row of words start with that of the first word. -/
theorem tokens_cons (h : List.Forall₂ (TokenOf source) (word :: words) tokens) :
    ∃ token rest, tokens = token :: rest ∧ TokenOf source word token ∧
      List.Forall₂ (TokenOf source) words rest := by
  rcases List.forall₂_cons_left_iff.mp h with ⟨token, rest, htoken, hrest, rfl⟩
  exact ⟨token, rest, rfl, htoken, hrest⟩

/-- The tokens of two rows of words are those of the first row, and then those of the second. -/
theorem tokens_append (h : List.Forall₂ (TokenOf source) (words ++ more) tokens) :
    ∃ first rest, tokens = first ++ rest ∧ List.Forall₂ (TokenOf source) words first ∧
      List.Forall₂ (TokenOf source) more rest :=
  forall₂_append_left h

/-- One word has one token. -/
theorem tokens_singleton (h : List.Forall₂ (TokenOf source) [word] tokens) :
    ∃ token, tokens = [token] ∧ TokenOf source word token := by
  rcases tokens_cons h with ⟨token, rest, rfl, htoken, hrest⟩
  cases hrest
  exact ⟨token, rfl, htoken⟩

/-- Where there are words, there are tokens. -/
theorem tokens_length_pos (h : List.Forall₂ (TokenOf source) words tokens) (hne : words ≠ []) :
    0 < tokens.length := by
  rw [← h.length_eq]
  exact List.length_pos_iff.mpr hne

/-- What is read as an expression starts with a token that starts one. -/
theorem starts_of_read {fuel : Nat} {above : Power} {stream after : TokenStream}
    {node : SyntaxNode}
    (h : Runs ((parserOf source).readWithin fuel (.expression above)) stream node after) :
    ∃ form, Grammar.standard.expression stream.current.kind = some form := by
  cases fuel with
  | zero => nomatch h
  | succ fuel => exact starts_expression (p := parserOf source) h

end Tokens

section Forms

variable {source : Source} {level level' level'' : Level} {stands : SyntaxNode → Prop}
  {e e' e'' : Expr Unit} {words words' words'' : List String} {tokens : List Token}
  {after : TokenStream} {above : Power} {fuel : Nat}

/-- An expression is read up to a token that is not taken. -/
theorem ReadsNode.read (h : ReadsNode source level stands words) (after : TokenStream)
    (above : Power) (fuel : Nat) (htokens : List.Forall₂ (TokenOf source) words tokens)
    (habove : level.Above above)
    (hstop : pull after.current.kind ≤ above.rank) (hfuel : 2 * tokens.length ≤ fuel) :
    ∃ node, stands node ∧
      Runs ((parserOf source).readWithin fuel (.expression above)) (ahead tokens after) node
        after := by
  have hpos := tokens_length_pos htokens h.nonempty
  obtain ⟨fuel, rfl⟩ : ∃ n, fuel = n + 1 := ⟨fuel - 1, by omega⟩
  obtain ⟨node, hnode, hreads⟩ := h.reads after above fuel htokens habove
    (habove.pull_le_reach hstop) hfuel
  exact ⟨node, hnode, hreads.runs hstop⟩

/-! ## Words -/

/-- A word or number that is an expression by itself. -/
theorem ReadsNode.of_primary {word : String} {kind : TokenKind} {leafKind : SyntaxKind}
    (hword : Readable word kind)
    (hform : Grammar.standard.expression kind = some .primary)
    (hprimary : ∀ {token : Token} {after : TokenStream}, token.kind = kind →
      Runs (parserOf source).primary (ahead [token] after) (.leaf leafKind token.span) after)
    (hstands : ∀ {span : Span}, Covers source span word.toList → stands (.leaf leafKind span)) :
    ReadsNode source .primary stands [word] where
  nonempty := List.cons_ne_nil _ _
  reads := by
    intro after above fuel tokens htokens habove hfollow hfuel
    rcases tokens_singleton htokens with ⟨token, rfl, htoken⟩
    have hkind := htoken.kind_eq hword
    rw [List.length_singleton] at hfuel
    obtain ⟨fuel, rfl⟩ : ∃ n, fuel = n + 1 := ⟨fuel - 1, by omega⟩
    have hstart : Grammar.standard.expression token.kind = some .primary := by
      rw [hkind]
      exact hform
    exact ⟨_, hstands htoken.2, .of_form hstart (hprimary hkind)⟩

/-- A name is read back. -/
theorem ReadsBack.id {name : String} (named : IsName name) :
    ReadsBack source .primary (.id () name) [name] := by
  refine ReadsNode.of_primary (readable_name named) rfl ?_ .id
  intro token after hkind
  exact .bind (.currentKind_eq hkind) .leaf

/-- A number is read back, if it is in range. -/
theorem ReadsBack.num {n : Nat} (fits : n < 2 ^ 63) :
    ReadsBack source .primary (.literal () ⟨(), .num n⟩) [toString n] := by
  refine ReadsNode.of_primary (readable_number n) rfl ?_ (.numLiteral fits)
  intro token after hkind
  exact .bind (.currentKind_eq hkind) .leaf

/-- Truth values are read back. -/
theorem ReadsBack.bool (b : Bool) :
    ReadsBack source .primary (.literal () ⟨(), .bool b⟩) [if b then "True" else "False"] := by
  have hword : Readable (if b then "True" else "False")
      (if b then .trueWord else .falseWord) := by
    cases b <;> exact readable_reserved (by decide)
  refine ReadsNode.of_primary hword (by cases b <;> rfl) ?_ .boolLiteral
  intro token after hkind
  cases b <;> exact .bind (.currentKind_eq hkind) .leaf

/-- So is `None`. -/
theorem ReadsBack.none : ReadsBack source .primary (.literal () ⟨(), .none⟩) ["None"] := by
  have hword : Readable "None" .noneWord := readable_reserved (by decide)
  refine ReadsNode.of_primary hword rfl ?_ .noneLiteral
  intro token after hkind
  exact .bind (.currentKind_eq hkind) .leaf

/-! ## Operators -/

/-- A unary operator and its operand. -/
theorem ReadsBack.uniOp {op : UniOp} (onOperand : ReadsBack source level e words)
    (atLeast : op.level.rank ≤ level.rank) :
    ReadsBack source op.level (.uniOp () op e) (op.lexeme :: words) where
  nonempty := List.cons_ne_nil _ _
  reads := by
    intro after above fuel tokens htokens habove hfollow hfuel
    rcases tokens_cons htokens with ⟨token, rest, rfl, htoken, hrest⟩
    have hkind := htoken.kind_eq (readable_uniOp op)
    rw [List.length_cons] at hfuel
    obtain ⟨fuel, rfl⟩ : ∃ n, fuel = n + 1 := ⟨fuel - 1, by omega⟩
    have hstop : pull after.current.kind ≤ op.power.rank := by
      rw [rank_power_uniOp, ← reach_level_uniOp]
      exact hfollow
    obtain ⟨node, hnode, hread⟩ := onOperand.read after op.power fuel hrest
      (Level.above_uniOp atLeast) hstop (by omega)
    have hstart : Grammar.standard.expression token.kind = some .unary := by
      rw [hkind]
      cases op <;> rfl
    have hpower : (if op.tokenKind = .notWord then Power.logicalNot else Power.unary) =
        op.power := by
      cases op <;> rfl
    have hunary : Runs (Parser.unary ((parserOf source).readWithin fuel))
        (ahead (token :: rest) after)
        (.branch .unaryExpression [.leaf .operator token.span, node]) after := by
      refine .bind (.currentKind_eq hkind) ?_
      rw [hpower]
      exact .bind .leaf (.bind hread (.pure _ _))
    exact ⟨_, .uniOp hnode htoken.2, .of_form hstart hunary⟩

/-- A binary operator between its operands. -/
theorem ReadsBack.binOp {op : BinOp} (onLeft : ReadsBack source level e words)
    (onRight : ReadsBack source level' e' words') (atLeast : op.level.rank ≤ level.rank)
    (higher : op.level.rank < level'.rank) :
    ReadsBack source op.level (.binOp () op e e') (words ++ op.lexeme :: words') where
  nonempty := by simp
  reads := by
    intro after above fuel tokens htokens habove hfollow hfuel
    rcases tokens_append htokens with ⟨first, rest, rfl, hfirst, hrest⟩
    rcases tokens_cons hrest with ⟨token, rest, rfl, htoken, hrest⟩
    have hkind := htoken.kind_eq (readable_binOp op)
    have hsuffix : Grammar.standard.suffix token.kind = some (op.power, .binary) := by
      rw [hkind]
      exact suffix_binOp op
    rw [List.length_append, List.length_cons] at hfuel
    have hpos := tokens_length_pos hfirst onLeft.nonempty
    obtain ⟨fuel, rfl⟩ : ∃ n, fuel = n + 1 := ⟨fuel - 1, by omega⟩
    -- the left operand is read where the whole is, up to the operator
    have hlt : above.rank < op.level.rank := Level.Above.lt_binOp habove
    have hreach : pull token.kind ≤ level.reach := by
      have hpull : pull token.kind = op.level.rank := by
        rw [pull, Grammar.power, hsuffix]
        exact rank_power_binOp op
      rw [hpull]
      exact Nat.le_trans atLeast (Level.rank_le_reach (Nat.lt_of_lt_of_le op.lt_rank_level atLeast))
    obtain ⟨left, hleft, hread⟩ := onLeft.reads (ahead (token :: rest) after) above (fuel + 1)
      hfirst (.of_lt (Nat.lt_of_lt_of_le hlt atLeast)) hreach (by omega)
    -- the right one up to the end
    have hstop : pull after.current.kind ≤ op.power.rank := by
      rw [rank_power_binOp, ← reach_level_binOp]
      exact hfollow
    obtain ⟨right, hright, hread'⟩ := onRight.read after op.power fuel hrest
      (.of_lt (by rwa [rank_power_binOp])) hstop (by omega)
    have hbinary : Runs (Parser.binary ((parserOf source).readWithin fuel) left op.power)
        (ahead (token :: rest) after)
        (.branch .binaryExpression [left, .leaf .operator token.span, right]) after :=
      .bind .leaf (.bind hread' (.pure _ _))
    have hlength : after.rest.length < (ahead (token :: rest) after).rest.length := by
      rw [TokenStream.length_rest_ahead, List.length_cons]
      omega
    rw [TokenStream.ahead_append]
    exact ⟨_, .binOp hleft hright htoken.2,
      hread.with_suffix hsuffix (by rwa [rank_power_binOp]) hbinary hlength⟩

/-- A conditional. -/
theorem ReadsBack.ternary (onTrue : ReadsBack source level e words)
    (onCondition : ReadsBack source level' e' words')
    (onFalse : ReadsBack source level'' e'' words'') (higher : Level.ternary.rank < level.rank)
    (higher' : Level.ternary.rank < level'.rank) :
    ReadsBack source .ternary (.ternary () e e' e'')
      (words ++ "if" :: (words' ++ "else" :: words'')) where
  nonempty := by simp
  reads := by
    intro after above fuel tokens htokens habove hfollow hfuel
    rcases tokens_append htokens with ⟨first, rest, rfl, hfirst, hrest⟩
    rcases tokens_cons hrest with ⟨ifWord, rest, rfl, hif, hrest⟩
    rcases tokens_append hrest with ⟨second, rest, rfl, hsecond, hrest⟩
    rcases tokens_cons hrest with ⟨elseWord, third, rfl, helse, hthird⟩
    have hifKind : ifWord.kind = .ifWord := hif.kind_eq (readable_reserved (by decide))
    have helseKind : elseWord.kind = .elseWord := helse.kind_eq (readable_reserved (by decide))
    have hsuffix : Grammar.standard.suffix ifWord.kind = some (.ternary, .conditional) := by
      rw [hifKind]
      rfl
    simp only [List.length_append, List.length_cons] at hfuel
    obtain ⟨fuel, rfl⟩ : ∃ n, fuel = n + 1 := ⟨fuel - 1, by omega⟩
    have hlowest : above.rank < Power.ternary.rank := habove.lt (by decide) (by decide)
    have hreach : pull ifWord.kind ≤ level.reach := by
      rw [hifKind]
      exact Nat.le_trans (Nat.le_of_lt higher) (Level.rank_le_reach higher)
    obtain ⟨left, hleft, hread⟩ := onTrue.reads
      (ahead (ifWord :: (second ++ elseWord :: third)) after) above (fuel + 1) hfirst
      (.of_lt (Nat.lt_trans hlowest higher)) hreach (by omega)
    have hstop : pull elseWord.kind ≤ Power.ternary.rank := by
      rw [helseKind]
      decide
    obtain ⟨middle, hmiddle, hread'⟩ := onCondition.read
      (ahead (elseWord :: third) after) .ternary fuel hsecond (.of_lt higher') hstop (by omega)
    obtain ⟨right, hright, hread''⟩ := onFalse.read after .lowest fuel hthird
      level''.above_lowest hfollow (by omega)
    have hconditional : Runs
        ((parserOf source).conditional ((parserOf source).readWithin fuel) left)
        (ahead (ifWord :: (second ++ elseWord :: third)) after)
        (.branch .conditionalExpression
          [left, .leaf .keyword ifWord.span, middle, .leaf .keyword elseWord.span, right])
        after := by
      refine .bind .leaf (.bind ?_ (.bind (.expectLeaf helseKind) (.bind hread'' (.pure _ _))))
      rw [TokenStream.ahead_append]
      exact hread'
    have hlength : after.rest.length <
        (ahead (ifWord :: (second ++ elseWord :: third)) after).rest.length := by
      rw [TokenStream.length_rest_ahead, List.length_cons]
      omega
    rw [TokenStream.ahead_append]
    exact ⟨_, .ternary hleft hmiddle hright,
      hread.with_suffix hsuffix hlowest hconditional hlength⟩

/-- Parentheses around an expression. -/
theorem ReadsBack.parens (inside : ReadsBack source level e words) :
    ReadsBack source .primary e ("(" :: (words ++ [")"])) where
  nonempty := List.cons_ne_nil _ _
  reads := by
    intro after above fuel tokens htokens habove hfollow hfuel
    rcases tokens_cons htokens with ⟨opening, rest, rfl, hopening, hrest⟩
    rcases tokens_append hrest with ⟨middle, rest, rfl, hmiddle, hrest⟩
    rcases tokens_singleton hrest with ⟨closing, rfl, hclosing⟩
    have hopeningKind : opening.kind = .openParen :=
      hopening.kind_eq (readable_mark (by decide))
    have hclosingKind : closing.kind = .closeParen :=
      hclosing.kind_eq (readable_mark (by decide))
    simp only [List.length_append, List.length_cons] at hfuel
    obtain ⟨fuel, rfl⟩ : ∃ n, fuel = n + 1 := ⟨fuel - 1, by omega⟩
    have hstop : pull closing.kind ≤ Power.lowest.rank := by
      rw [hclosingKind]
      decide
    obtain ⟨node, hnode, hread⟩ := inside.read (ahead [closing] after) .lowest fuel hmiddle
      level.above_lowest hstop (by omega)
    have hstart : Grammar.standard.expression opening.kind = some .grouping := by
      rw [hopeningKind]
      rfl
    have hgrouping : Runs ((parserOf source).grouping ((parserOf source).readWithin fuel))
        (ahead (opening :: (middle ++ [closing])) after)
        (.branch .parenthesizedExpression
          [.leaf .punctuation opening.span, node, .leaf .punctuation closing.span]) after := by
      rw [← List.cons_append, TokenStream.ahead_append]
      refine .bind .leaf (.bind hread (.bind (.currentKind_eq hclosingKind) ?_))
      have htake : decide (closing.kind = .closeParen) = true := decide_eq_true hclosingKind
      exact .bind (.optionally_take _ htake (.bind .leaf (.pure _ _))) (.pure _ _)
    exact ⟨_, .parens hopening.2 hnode hclosing.2, .of_form hstart hgrouping⟩

/-! ## Members -/

/-- A dot and a name continue an expression. -/
theorem ReadsTo.with_member {stream : TokenStream} {left : SyntaxNode} {dot property : Token}
    {rest : List Token}
    (hleft : ReadsTo (parserOf source) ((parserOf source).readWithin (fuel + 1)) above stream left
      (ahead (dot :: property :: rest) after))
    (habove : Level.primary.Above above) (hdot : dot.kind = .dot)
    (hproperty : property.kind = .identifier) :
    ReadsTo (parserOf source) ((parserOf source).readWithin (fuel + 1)) above stream
      (.branch .memberExpression
        [left, .leaf .punctuation dot.span, .leaf .propertyName property.span])
      (ahead rest after) := by
  have hsuffix : Grammar.standard.suffix dot.kind = some (.member, .member) := by
    rw [hdot]
    rfl
  have hlt : above.rank < Power.member.rank :=
    Nat.lt_trans (habove.lt (by decide) (by decide)) (by decide)
  have hmember : Runs ((parserOf source).member left) (ahead (dot :: property :: rest) after)
      (.branch .memberExpression
        [left, .leaf .punctuation dot.span, .leaf .propertyName property.span])
      (ahead rest after) :=
    .bind .leaf (.bind (.expectLeaf hproperty) (.pure _ _))
  refine hleft.with_suffix hsuffix hlt hmember ?_
  rw [TokenStream.length_rest_ahead, TokenStream.length_rest_ahead]
  simp only [List.length_cons]
  omega

/-- A field of an object. -/
theorem ReadsBack.lookup {field : String} (onObject : ReadsBack source .primary e words)
    (named : IsName field) :
    ReadsBack source .primary (.lookup () e field) (words ++ [".", field]) where
  nonempty := by simp
  reads := by
    intro after above fuel tokens htokens habove hfollow hfuel
    rcases tokens_append htokens with ⟨first, rest, rfl, hfirst, hrest⟩
    rcases tokens_cons hrest with ⟨dot, rest, rfl, hdot, hrest⟩
    rcases tokens_singleton hrest with ⟨property, rfl, hproperty⟩
    have hdotKind : dot.kind = .dot := hdot.kind_eq (readable_mark (by decide))
    have hpropertyKind := hproperty.kind_eq (readable_name named)
    simp only [List.length_append, List.length_cons, List.length_nil] at hfuel
    obtain ⟨fuel, rfl⟩ : ∃ n, fuel = n + 1 := ⟨fuel - 1, by omega⟩
    have hreach : pull dot.kind ≤ Level.primary.reach := by
      rw [hdotKind]
      decide
    obtain ⟨object, hobject, hread⟩ := onObject.reads (ahead [dot, property] after) above
      (fuel + 1) hfirst habove hreach (by omega)
    refine ⟨_, .lookup hobject hdot.2 hproperty.2, ?_⟩
    rw [TokenStream.ahead_append]
    exact hread.with_member habove hdotKind hpropertyKind

end Forms
end Offside
