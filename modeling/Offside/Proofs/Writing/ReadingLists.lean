import Offside.Proofs.Writing.Reading

/-!
# Reading written lists

Lists and comprehensions are read back.  Expressions with commas between them are read round by
round; every expression starts at a token that starts one, so that no comma and no closing
bracket is taken for it.

Main definitions:

- `Row`: words that are read as nodes that stand for something, with commas between them.
- `FilterRow`: words that are read back as the filter of a comprehension.

Main results:

- Theorems `ReadsBack.listLiteral` and `ReadsBack.comprehension`: a list or a comprehension is
  read back if its parts are.
-/

namespace Offside

open TokenStream (ahead)

/-! ## Rows -/

/-- Words that are read as more nodes that stand for something, each behind a comma. -/
inductive RowMore {α : Type} (source : Source) (stands : SyntaxNode → α → Prop) :
    List α → List String → Prop where
  | nil : RowMore source stands [] []
  | cons {level : Level} {value : α} {values : List α} {words words' : List String}
      (onNext : ReadsNode source level (stands · value) words)
      (onMore : RowMore source stands values words') :
      RowMore source stands (value :: values) ("," :: (words ++ words'))

/-- Words that are read as nodes that stand for something, with commas between them. -/
inductive Row {α : Type} (source : Source) (stands : SyntaxNode → α → Prop) :
    List α → List String → Prop where
  | nil : Row source stands [] []
  | cons {level : Level} {value : α} {values : List α} {words words' : List String}
      (onFirst : ReadsNode source level (stands · value) words)
      (onMore : RowMore source stands values words') :
      Row source stands (value :: values) (words ++ words')

section Rows

variable {α : Type} {source : Source} {stands : SyntaxNode → α → Prop} {values : List α}
  {words : List String} {tokens : List Token} {after : TokenStream} {fuel : Nat}

/-- More expressions start with a comma, or there are none. -/
theorem RowMore.starts (h : RowMore source stands values words)
    (htokens : List.Forall₂ (TokenOf source) words tokens) (after : TokenStream) :
    (ahead tokens after).current.kind = .comma ∨ ahead tokens after = after := by
  cases h with
  | nil =>
    cases htokens
    exact .inr rfl
  | cons onNext onMore =>
    rcases tokens_cons htokens with ⟨comma, rest, rfl, hcomma, -⟩
    exact .inl (hcomma.kind_eq (readable_mark (by decide)))

/-- An expression before more of them ends at the comma or at the closing bracket. -/
theorem RowMore.pull_le (h : RowMore source stands values words)
    (htokens : List.Forall₂ (TokenOf source) words tokens)
    (hafter : pull after.current.kind ≤ Power.lowest.rank) :
    pull (ahead tokens after).current.kind ≤ Power.lowest.rank := by
  rcases h.starts htokens after with hcomma | hnone
  · rw [hcomma]
    decide
  · rw [hnone]
    exact hafter

/-- What starts an expression is no closing bracket and no comma. -/
theorem not_ends_of_starts {kind : TokenKind} {form : Form}
    (h : Grammar.standard.expression kind = some form) :
    kind ≠ .closeParen ∧ kind ≠ .closeBracket ∧ kind ≠ .comma ∧ kind ≠ .colon := by
  refine ⟨?_, ?_, ?_, ?_⟩ <;> rintro rfl <;> nomatch h

/-! ## Elements -/

/-- More elements are read up to the closing bracket, each with its comma. -/
theorem RowMore.elements (h : RowMore source stands values words) (after : TokenStream)
    (fuel limit : Nat)
    (htokens : List.Forall₂ (TokenOf source) words tokens)
    (hclose : after.current.kind = .closeBracket) (hfuel : 2 * tokens.length ≤ fuel)
    (hlimit : tokens.length ≤ limit) :
    ∃ nodes, SeparatedMore source stands nodes values ∧
      Runs (Parse.rounds (· = .comma) (Parser.element ((parserOf source).readWithin fuel)) limit)
        (ahead tokens after) nodes after := by
  induction h generalizing tokens limit with
  | nil =>
    cases htokens
    refine ⟨[], .nil, .rounds_nil ?_ limit⟩
    rw [TokenStream.ahead_nil, hclose]
    decide
  | @cons level value values words words' onNext onMore ih =>
    rcases tokens_cons htokens with ⟨comma, rest, rfl, hcomma, hrest⟩
    rcases tokens_append hrest with ⟨next, more, rfl, hnext, hmore⟩
    have hkind : comma.kind = .comma := hcomma.kind_eq (readable_mark (by decide))
    rw [List.length_cons, List.length_append] at hfuel hlimit
    obtain ⟨limit, rfl⟩ : ∃ n, limit = n + 1 := ⟨limit - 1, by omega⟩
    have hstop : pull (ahead more after).current.kind ≤ Power.lowest.rank := by
      refine onMore.pull_le hmore ?_
      rw [hclose]
      decide
    obtain ⟨node, hnode, hread⟩ := onNext.read (ahead more after) .lowest fuel hnext
      level.above_lowest hstop (by omega)
    rcases ih limit hmore (by omega) (by omega) with ⟨nodes, hnodes, hrounds⟩
    have hround : Runs (Parser.element ((parserOf source).readWithin fuel))
        (ahead (comma :: (next ++ more)) after) [.leaf .punctuation comma.span, node]
        (ahead more after) := by
      rcases starts_of_read hread with ⟨form, hform⟩
      rcases not_ends_of_starts hform with ⟨-, hbracket, -⟩
      refine .bind .leaf ?_
      rw [TokenStream.ahead_append]
      refine .bind ?_ (.pure _ _)
      exact .optionally_take (· ≠ .closeBracket) (decide_eq_true hbracket)
        (.bind hread (.pure _ _))
    exact ⟨_, .cons hcomma.2 hnode hnodes,
      .rounds_cons (· = .comma) (decide_eq_true hkind) hround hrounds⟩

/-- A list is read from its opening to its closing bracket. -/
theorem Row.array (h : Row source stands values words) (opening : Token) (after : TokenStream)
    (fuel : Nat) {closing : Token}
    (htokens : List.Forall₂ (TokenOf source) words tokens)
    (hclosing : closing.kind = .closeBracket) (hfuel : 2 * tokens.length ≤ fuel) :
    ∃ nodes, Separated source stands nodes values ∧
      Runs ((parserOf source).array ((parserOf source).readWithin fuel))
        (ahead (opening :: (tokens ++ [closing])) after)
        (.branch .arrayExpression
          (.leaf .punctuation opening.span :: (nodes ++ [.leaf .punctuation closing.span])))
        after := by
  cases h with
  | nil =>
    cases htokens
    refine ⟨[], .nil, .bind .leaf (.bind (.currentKind_eq hclosing) ?_)⟩
    exact .bind .leaf (.pure _ _)
  | @cons level value values words words' onFirst onMore =>
    rcases tokens_append htokens with ⟨first, more, rfl, hfirst, hmore⟩
    have hlength := TokenStream.length_rest_ahead more (ahead [closing] after)
    rw [List.length_append] at hfuel
    have hstop : pull (ahead more (ahead [closing] after)).current.kind ≤ Power.lowest.rank := by
      refine onMore.pull_le hmore ?_
      rw [TokenStream.current_ahead_cons, hclosing]
      decide
    obtain ⟨node, hnode, hread⟩ := onFirst.read (ahead more (ahead [closing] after)) .lowest fuel
      hfirst level.above_lowest hstop (by omega)
    rcases starts_of_read hread with ⟨form, hform⟩
    rcases not_ends_of_starts hform with ⟨-, hbracket, -⟩
    obtain ⟨nodes, hnodes, hrounds⟩ := onMore.elements (ahead [closing] after) fuel
      ((ahead more (ahead [closing] after)).rest.length + 1) hmore hclosing (by omega) (by omega)
    have hfor : (ahead more (ahead [closing] after)).current.kind ≠ .forWord := by
      rcases onMore.starts hmore (ahead [closing] after) with hcomma | hnone
      · rw [hcomma]
        decide
      · rw [hnone, TokenStream.current_ahead_cons, hclosing]
        decide
    refine ⟨_, .cons hnode hnodes, .bind .leaf ?_⟩
    rw [List.append_assoc, TokenStream.ahead_append, TokenStream.ahead_append]
    refine .bind .currentKind ?_
    rw [if_neg hbracket]
    refine .bind hread (.bind .currentKind ?_)
    rw [if_neg hfor]
    refine .bind (.repeatWhile rfl hrounds) (.bind ?_ (.pure _ _))
    exact .optionally_take (· = .closeBracket) (decide_eq_true hclosing)
      (.bind .leaf (.pure _ _))

end Rows

section Forms

variable {source : Source} {level level' level'' : Level} {e e' e'' : Expr Unit}
  {es : List (Expr Unit)} {words words' words'' : List String} {tokens : List Token}
  {after : TokenStream} {above : Power} {fuel : Nat}

/-- A list is read as a node that stands for something, if the node with its brackets does. -/
theorem ReadsNode.array {α : Type} {stands : SyntaxNode → α → Prop} {values : List α}
    {standsAll : SyntaxNode → Prop} (h : Row source stands values words)
    (hstands : ∀ {opening closing : Span} {nodes : List SyntaxNode},
      Covers source opening "[".toList → Separated source stands nodes values →
      Covers source closing "]".toList → standsAll (.branch .arrayExpression
        (.leaf .punctuation opening :: (nodes ++ [.leaf .punctuation closing])))) :
    ReadsNode source .primary standsAll ("[" :: (words ++ ["]"])) where
  nonempty := List.cons_ne_nil _ _
  reads := by
    intro after above fuel tokens htokens habove hfollow hfuel
    rcases tokens_cons htokens with ⟨opening, rest, rfl, hopening, hrest⟩
    rcases tokens_append hrest with ⟨middle, rest, rfl, hmiddle, hrest⟩
    rcases tokens_singleton hrest with ⟨closing, rfl, hclosing⟩
    have hopeningKind : opening.kind = .openBracket :=
      hopening.kind_eq (readable_mark (by decide))
    have hclosingKind : closing.kind = .closeBracket :=
      hclosing.kind_eq (readable_mark (by decide))
    rw [List.length_cons, List.length_append] at hfuel
    obtain ⟨fuel, rfl⟩ : ∃ n, fuel = n + 1 := ⟨fuel - 1, by omega⟩
    obtain ⟨nodes, hnodes, hread⟩ := h.array opening after fuel hmiddle hclosingKind
      (by omega)
    have hstart : Grammar.standard.expression opening.kind = some .array := by
      rw [hopeningKind]
      rfl
    exact ⟨_, hstands hopening.2 hnodes hclosing.2, .of_form hstart hread⟩

/-- A list. -/
theorem ReadsBack.listLiteral (h : Row source (StandsFor source) es words) :
    ReadsBack source .primary (.listLiteral () es) ("[" :: (words ++ ["]"])) :=
  .array h .listLiteral

/-! ## Comprehensions -/

/-- The kind of the opening bracket of a comprehension. -/
def ComprehensionKind.openingKind : ComprehensionKind → TokenKind
  | .generator => .openParen
  | .list => .openBracket
  | .set => .openCurly

/-- The form of expression that the opening bracket of a comprehension starts. -/
def ComprehensionKind.form : ComprehensionKind → Form
  | .generator => .grouping
  | .list => .array
  | .set => .set

theorem readable_opening (kind : ComprehensionKind) :
    Readable kind.brackets.1 kind.openingKind := by
  cases kind <;> exact readable_mark (by decide)

theorem readable_closing (kind : ComprehensionKind) :
    ∃ closingKind, Readable kind.brackets.2 closingKind ∧ closingKind.isClosing = true ∧
      pull closingKind ≤ Power.lowest.rank ∧ closingKind ≠ .ifWord := by
  cases kind with
  | generator => exact ⟨.closeParen, readable_mark (by decide), rfl, by decide, by decide⟩
  | list => exact ⟨.closeBracket, readable_mark (by decide), rfl, by decide, by decide⟩
  | set => exact ⟨.closeCurly, readable_mark (by decide), rfl, by decide, by decide⟩

/-- Behind the first expression in brackets, the word `for` makes them a comprehension. -/
theorem Runs.comprehensionForm {kind : ComprehensionKind} {opening forWord : Token}
    {rest : List Token} {result node : SyntaxNode} (hopening : opening.kind = kind.openingKind)
    (hresult : Runs ((parserOf source).readWithin fuel (.expression .lowest))
      (ahead tokens (ahead (forWord :: rest) after)) result (ahead (forWord :: rest) after))
    (hfor : forWord.kind = .forWord)
    (htail : Runs ((parserOf source).comprehensionTail ((parserOf source).readWithin fuel)
      kind.syntaxKind (.leaf .punctuation opening.span) result) (ahead (forWord :: rest) after) node
      after) :
    Runs ((parserOf source).readWithin (fuel + 1) (.form kind.form))
      (ahead (opening :: (tokens ++ forWord :: rest)) after) node after := by
  rw [← List.cons_append, TokenStream.ahead_append]
  cases kind with
  | generator =>
    refine .bind .leaf (.bind hresult (.bind (.currentKind_eq hfor) ?_))
    exact htail
  | list =>
    rcases starts_of_read hresult with ⟨form, hform⟩
    rcases not_ends_of_starts hform with ⟨-, hbracket, -⟩
    refine .bind .leaf (.bind .currentKind ?_)
    rw [if_neg hbracket]
    refine .bind hresult (.bind (.currentKind_eq hfor) ?_)
    exact htail
  | set =>
    refine .bind .leaf (.bind hresult (.bind (.currentKind_eq hfor) ?_))
    exact htail

/-- A filter that is read back, or none. -/
inductive FilterRow (source : Source) : Option (Expr Unit) → List String → Prop where
  | none : FilterRow source none []
  | some {level : Level} {e : Expr Unit} {words : List String}
      (onFilter : ReadsBack source level e words) (higher : Level.ternary.rank < level.rank) :
      FilterRow source (some e) ("if" :: words)

/-- The word `if` and a condition. -/
def Parser.filterPart (read : Goal → Parse SyntaxNode) : Parse (List SyntaxNode) := do
  let ifWord ← Parse.leaf .keyword
  let condition ← read (.expression .ternary)
  return [ifWord, condition]

/-- The iterable of a comprehension ends at the filter or at the closing bracket. -/
theorem FilterRow.pull_le {filter : Option (Expr Unit)} (h : FilterRow source filter words)
    (htokens : List.Forall₂ (TokenOf source) words tokens)
    (hafter : pull after.current.kind ≤ Power.lowest.rank) :
    pull (ahead tokens after).current.kind ≤ Power.ternary.rank := by
  cases h with
  | none =>
    cases htokens
    exact Nat.le_trans hafter (by decide)
  | some onFilter higher =>
    rcases tokens_cons htokens with ⟨ifWord, rest, rfl, hif, -⟩
    have hkind : ifWord.kind = .ifWord := hif.kind_eq (readable_reserved (by decide))
    rw [TokenStream.current_ahead_cons, hkind]
    decide

/-- The filter of a comprehension is read up to the closing bracket. -/
theorem FilterRow.read {filter : Option (Expr Unit)} (h : FilterRow source filter words)
    (after : TokenStream) (fuel : Nat) (htokens : List.Forall₂ (TokenOf source) words tokens)
    (hafter : pull after.current.kind ≤ Power.lowest.rank) (hif : after.current.kind ≠ .ifWord)
    (hfuel : 2 * tokens.length ≤ fuel) :
    ∃ nodes, FilterNodes source nodes filter ∧
      Runs (Parse.optionally (· = .ifWord)
        (Parser.filterPart ((parserOf source).readWithin fuel))) (ahead tokens after) nodes
        after := by
  cases h with
  | none =>
    cases htokens
    exact ⟨[], .none, .optionally_skip (decide_eq_false hif)⟩
  | some onFilter higher =>
    rcases tokens_cons htokens with ⟨ifWord, rest, rfl, hword, hrest⟩
    have hkind : ifWord.kind = .ifWord := hword.kind_eq (readable_reserved (by decide))
    rw [List.length_cons] at hfuel
    obtain ⟨node, hnode, hread⟩ := onFilter.read after .ternary fuel hrest (.of_lt higher)
      (Nat.le_trans hafter (by decide)) (by omega)
    exact ⟨_, .some hword.2 hnode, .optionally_take (· = .ifWord) (decide_eq_true hkind)
      (.bind .leaf (.bind hread (.pure _ _)))⟩

/-- The rest of a comprehension is read up to its closing bracket. -/
theorem Runs.comprehensionTail (kind : SyntaxKind) (openingNode result : SyntaxNode)
    {iterable : SyntaxNode} {filterNodes : List SyntaxNode} {forWord item inWord closing : Token}
    {filterTokens : List Token} (hfor : forWord.kind = .forWord)
    (hitem : item.kind = .identifier) (hin : inWord.kind = .inWord)
    (hiterable : Runs ((parserOf source).readWithin fuel (.expression .ternary))
      (ahead tokens (ahead filterTokens (ahead [closing] after))) iterable
      (ahead filterTokens (ahead [closing] after)))
    (hfilter : Runs (Parse.optionally (· = .ifWord)
      (Parser.filterPart ((parserOf source).readWithin fuel)))
      (ahead filterTokens (ahead [closing] after)) filterNodes (ahead [closing] after))
    (hclosing : closing.kind.isClosing = true) :
    Runs ((parserOf source).comprehensionTail ((parserOf source).readWithin fuel) kind openingNode
      result) (ahead (forWord :: item :: inWord :: (tokens ++ (filterTokens ++ [closing]))) after)
      (.branch kind ([openingNode, result, .leaf .keyword forWord.span,
        .leaf .variableName item.span, .leaf .keyword inWord.span, iterable] ++ filterNodes ++
        [.leaf .punctuation closing.span])) after := by
  refine .bind (.expectLeaf hfor) (.bind (.expectLeaf hitem) (.bind (.expectLeaf hin) ?_))
  rw [TokenStream.ahead_append, TokenStream.ahead_append]
  refine .bind hiterable (.bind hfilter (.bind .currentKind ?_))
  rw [TokenStream.current_ahead_cons, hclosing, if_pos rfl]
  exact .bind .leaf (.pure _ _)

/-- A comprehension, with a filter or without one. -/
theorem ReadsBack.comprehension {kind : ComprehensionKind} {item : String}
    {filter : Option (Expr Unit)} (onResult : ReadsBack source level e words)
    (named : IsName item) (onIterable : ReadsBack source level' e' words')
    (higher : Level.ternary.rank < level'.rank) (h : FilterRow source filter words'') :
    ReadsBack source .primary (.comprehension () kind e item e' filter)
      (kind.brackets.1 :: (words ++ "for" :: item :: "in" ::
        (words' ++ (words'' ++ [kind.brackets.2])))) where
  nonempty := List.cons_ne_nil _ _
  reads := by
    intro after above fuel tokens htokens habove hfollow hfuel
    rcases tokens_cons htokens with ⟨opening, rest, rfl, hopening, hrest⟩
    rcases tokens_append hrest with ⟨first, rest, rfl, hfirst, hrest⟩
    rcases tokens_cons hrest with ⟨forWord, rest, rfl, hfor, hrest⟩
    rcases tokens_cons hrest with ⟨itemName, rest, rfl, hitem, hrest⟩
    rcases tokens_cons hrest with ⟨inWord, rest, rfl, hin, hrest⟩
    rcases tokens_append hrest with ⟨second, rest, rfl, hsecond, hrest⟩
    rcases tokens_append hrest with ⟨third, rest, rfl, hthird, hrest⟩
    rcases tokens_singleton hrest with ⟨closing, rfl, hclosing⟩
    have hopeningKind := hopening.kind_eq (readable_opening kind)
    have hforKind : forWord.kind = .forWord := hfor.kind_eq (readable_reserved (by decide))
    have hitemKind := hitem.kind_eq (readable_name named)
    have hinKind : inWord.kind = .inWord := hin.kind_eq (readable_reserved (by decide))
    rcases readable_closing kind with ⟨closingKind, hreadable, hcloses, hpull, hnot⟩
    have hclosingKind := hclosing.kind_eq hreadable
    subst hclosingKind
    simp only [List.length_append, List.length_cons] at hfuel
    obtain ⟨fuel, rfl⟩ : ∃ n, fuel = n + 1 := ⟨fuel - 1, by omega⟩
    have hstop : pull forWord.kind ≤ Power.lowest.rank := by
      rw [hforKind]
      decide
    obtain ⟨result, hresult, hreadResult⟩ := onResult.read
      (ahead (forWord :: itemName :: inWord :: (second ++ (third ++ [closing]))) after) .lowest
      fuel hfirst level.above_lowest hstop (by omega)
    obtain ⟨iterable, hiterable, hreadIterable⟩ := onIterable.read
      (ahead third (ahead [closing] after)) .ternary fuel hsecond (.of_lt higher)
      (h.pull_le hthird hpull) (by omega)
    obtain ⟨nodes, hnodes, hreadFilter⟩ := h.read (ahead [closing] after) fuel hthird hpull hnot
      (by omega)
    have hstart : Grammar.standard.expression opening.kind = some kind.form := by
      rw [hopeningKind]
      cases kind <;> rfl
    have htail := Runs.comprehensionTail kind.syntaxKind (.leaf .punctuation opening.span) result
      hforKind hitemKind hinKind hreadIterable hreadFilter hcloses
    exact ⟨_, .comprehension hopening.2 hresult hitem.2 hiterable hnodes hclosing.2,
      .of_form hstart (.comprehensionForm hopeningKind hreadResult hforKind htail)⟩

end Forms
end Offside
