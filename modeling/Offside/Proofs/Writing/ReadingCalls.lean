import Offside.Proofs.Writing.ReadingLists

/-!
# Reading written calls

Calls of names, functions and methods are read back, and so are positions in brackets.  The parts of
both are read by a loop that takes a comma or an expression in each of its rounds.

Main definitions:

- `ReadsItems`: a loop reads a comma or an expression in each of its rounds.

Main results:

- Theorem `Row.repeatWhile`: such a loop reads a row of nodes.
- Theorems `Row.arguments` and `Row.index`: what stands in parentheses and in brackets is read.
- Theorems `ReadsBack.call`, `ReadsBack.methodCall` and so on: a form of expression is read back
  if its parts are.
-/

namespace Offside

open TokenStream (ahead)

variable {source : Source} {level level' : Level} {e e' : Expr Unit} {es : List (Expr Unit)}
  {words words' : List String} {tokens : List Token} {after : TokenStream} {above : Power}
  {fuel : Nat}

/-! ## Rounds -/

/-- A loop reads a comma or an expression in each of its rounds. -/
structure ReadsItems (source : Source) (fuel : Nat) (passes : TokenKind → Bool)
    (item : Parse (List SyntaxNode)) : Prop where
  passesComma : passes .comma = true
  passesStart : ∀ {kind : TokenKind} {form : Form},
    Grammar.standard.expression kind = some form → passes kind = true
  comma : ∀ {comma : Token} {tokens : List Token} {after : TokenStream}, comma.kind = .comma →
    Runs item (ahead (comma :: tokens) after) [.leaf .punctuation comma.span] (ahead tokens after)
  node : ∀ {stream middle : TokenStream} {node : SyntaxNode},
    Runs ((parserOf source).readWithin fuel (.expression .lowest)) stream node middle →
      Runs item stream [node] middle

/-- The arguments of a call. -/
theorem readsItems_argument : ReadsItems source fuel (· ≠ .closeParen)
    (Parser.argument ((parserOf source).readWithin fuel)) where
  passesComma := rfl
  passesStart := fun h => decide_eq_true (not_ends_of_starts h).1
  comma := by
    intro comma tokens after hcomma
    refine .bind (.currentKind_eq hcomma) ?_
    rw [if_pos rfl]
    exact .bind .leaf (.pure _ _)
  node := by
    intro stream middle node h
    obtain ⟨form, hform⟩ := starts_of_read h
    refine .bind .currentKind ?_
    rw [if_neg (not_ends_of_starts hform).2.2.1]
    exact .bind h (.pure _ _)

/-- The parts of what stands in brackets behind an object. -/
theorem readsItems_part : ReadsItems source fuel (· ≠ .closeBracket)
    (Parser.part ((parserOf source).readWithin fuel)) where
  passesComma := rfl
  passesStart := fun h => decide_eq_true (not_ends_of_starts h).2.1
  comma := by
    intro comma tokens after hcomma
    refine .bind (.currentKind_eq hcomma) ?_
    rw [if_pos (.inr rfl)]
    exact .bind .leaf (.pure _ _)
  node := by
    intro stream middle node h
    obtain ⟨form, hform⟩ := starts_of_read h
    obtain ⟨-, -, hcomma, hcolon⟩ := not_ends_of_starts hform
    refine .bind .currentKind ?_
    rw [if_neg (not_or.mpr ⟨hcolon, hcomma⟩)]
    exact .bind h (.pure _ _)

section Rounds

variable {α : Type} {stands : SyntaxNode → α → Prop} {values : List α}
  {passes : TokenKind → Bool} {item : Parse (List SyntaxNode)}

/-- An expression is read in one round. -/
theorem ReadsItems.rounds_node (hitem : ReadsItems source fuel passes item)
    {stream middle : TokenStream} {node : SyntaxNode} {nodes : List SyntaxNode} {limit : Nat}
    (h : Runs ((parserOf source).readWithin fuel (.expression .lowest)) stream node middle)
    (hmore : Runs (Parse.rounds passes item limit) middle nodes after) :
    Runs (Parse.rounds passes item (limit + 1)) stream (node :: nodes) after := by
  obtain ⟨form, hform⟩ := starts_of_read h
  exact .rounds_cons passes (hitem.passesStart hform) (hitem.node h) hmore

/-- More nodes are read up to the closing bracket, each behind its comma. -/
theorem RowMore.rounds (h : RowMore source stands values words)
    (hitem : ReadsItems source fuel passes item) (limit : Nat)
    (htokens : List.Forall₂ (TokenOf source) words tokens)
    (hclose : passes after.current.kind = false)
    (hafter : pull after.current.kind ≤ Power.lowest.rank) (hfuel : 2 * tokens.length ≤ fuel)
    (hlimit : tokens.length ≤ limit) :
    ∃ nodes, SeparatedMore source stands nodes values ∧
      Runs (Parse.rounds passes item limit) (ahead tokens after) nodes after := by
  induction h generalizing tokens limit with
  | nil =>
    cases htokens
    exact ⟨[], .nil, .rounds_nil hclose limit⟩
  | @cons level value values words words' onNext onMore ih =>
    rcases tokens_cons htokens with ⟨comma, rest, rfl, hcomma, hrest⟩
    rcases tokens_append hrest with ⟨next, more, rfl, hnext, hmore⟩
    have hkind : comma.kind = .comma := hcomma.kind_eq (readable_mark (by decide))
    have hpos := tokens_length_pos hnext onNext.nonempty
    rw [List.length_cons, List.length_append] at hfuel hlimit
    obtain ⟨limit, rfl⟩ : ∃ n, limit = n + 2 := ⟨limit - 2, by omega⟩
    obtain ⟨node, hnode, hread⟩ := onNext.read (ahead more after) .lowest fuel hnext
      level.above_lowest (onMore.pull_le hmore hafter) (by omega)
    rcases ih limit hmore (by omega) (by omega) with ⟨nodes, hnodes, hrounds⟩
    have hpasses : passes comma.kind = true := by
      rw [hkind]
      exact hitem.passesComma
    refine ⟨_, .cons hcomma.2 hnode hnodes, ?_⟩
    refine .rounds_cons passes hpasses (hitem.comma hkind) ?_
    rw [TokenStream.ahead_append]
    exact hitem.rounds_node hread hrounds

/-- Nodes are read up to the closing bracket. -/
theorem Row.repeatWhile (h : Row source stands values words)
    (hitem : ReadsItems source fuel passes item) (after : TokenStream)
    (htokens : List.Forall₂ (TokenOf source) words tokens)
    (hclose : passes after.current.kind = false)
    (hafter : pull after.current.kind ≤ Power.lowest.rank) (hfuel : 2 * tokens.length ≤ fuel) :
    ∃ nodes, Separated source stands nodes values ∧
      Runs (Parse.repeatWhile passes item) (ahead tokens after) nodes after := by
  cases h with
  | nil =>
    cases htokens
    exact ⟨[], .nil, .repeatWhile rfl (.rounds_nil hclose _)⟩
  | @cons level value values words words' onFirst onMore =>
    rcases tokens_append htokens with ⟨first, more, rfl, hfirst, hmore⟩
    have hlength := TokenStream.length_rest_ahead (first ++ more) after
    rw [List.length_append] at hfuel hlength
    obtain ⟨node, hnode, hread⟩ := onFirst.read (ahead more after) .lowest fuel hfirst
      level.above_lowest (onMore.pull_le hmore hafter) (by omega)
    obtain ⟨nodes, hnodes, hrounds⟩ := onMore.rounds hitem
      (ahead (first ++ more) after).rest.length hmore hclose hafter (by omega) (by omega)
    refine ⟨_, .cons hnode hnodes, .repeatWhile rfl ?_⟩
    rw [TokenStream.ahead_append] at hrounds ⊢
    exact hitem.rounds_node hread hrounds

/-- Arguments are read up to the closing parenthesis. -/
theorem Row.arguments (h : Row source stands values words) (after : TokenStream) (fuel : Nat)
    (htokens : List.Forall₂ (TokenOf source) words tokens)
    (hclose : after.current.kind = .closeParen) (hfuel : 2 * tokens.length ≤ fuel) :
    ∃ nodes, Separated source stands nodes values ∧
      Runs (Parse.repeatWhile (· ≠ .closeParen)
        (Parser.argument ((parserOf source).readWithin fuel))) (ahead tokens after) nodes
        after := by
  refine h.repeatWhile readsItems_argument after htokens ?_ ?_ hfuel
  · rw [hclose]
    decide
  · rw [hclose]
    decide

/-- What stands in brackets behind an object is read as one node with the object. -/
theorem Row.index (h : Row source stands values words) (left : SyntaxNode)
    (opening : Token) (after : TokenStream) (fuel : Nat) {closing : Token}
    (htokens : List.Forall₂ (TokenOf source) words tokens)
    (hclosing : closing.kind = .closeBracket) (hfuel : 2 * tokens.length ≤ fuel) :
    ∃ nodes, Separated source stands nodes values ∧
      Runs (Parser.index ((parserOf source).readWithin fuel) left)
        (ahead (opening :: (tokens ++ [closing])) after)
        (.branch .memberExpression (left :: .leaf .punctuation opening.span ::
          (nodes ++ [.leaf .punctuation closing.span]))) after := by
  have hends : decide ((ahead [closing] after).current.kind ≠ .closeBracket) = false := by
    rw [TokenStream.current_ahead_cons, hclosing]
    decide
  have hstop : pull (ahead [closing] after).current.kind ≤ Power.lowest.rank := by
    rw [TokenStream.current_ahead_cons, hclosing]
    decide
  obtain ⟨nodes, hnodes, hinside⟩ := h.repeatWhile readsItems_part (ahead [closing] after) htokens
    hends hstop hfuel
  refine ⟨nodes, hnodes, .bind .leaf ?_⟩
  rw [TokenStream.ahead_append]
  exact .bind hinside (.bind .leaf (.pure _ _))

end Rounds

/-! ## Calls -/

/-- A name is an expression to which suffixes may be added. -/
theorem ReadsTo.of_name (source : Source) (above : Power) (fuel : Nat) (tokens : List Token)
    (after : TokenStream) {name : Token} (hname : name.kind = .identifier) :
    ReadsTo (parserOf source) ((parserOf source).readWithin (fuel + 1)) above
      (ahead (name :: tokens) after) (.leaf .variableName name.span) (ahead tokens after) := by
  have hstart : Grammar.standard.expression name.kind = some .primary := by
    rw [hname]
    rfl
  have hprimary : Runs (parserOf source).primary (ahead (name :: tokens) after)
      (.leaf .variableName name.span) (ahead tokens after) :=
    .bind (.currentKind_eq hname) .leaf
  exact .of_form hstart hprimary

/-- Arguments in parentheses continue an expression. -/
theorem ReadsTo.with_call {stream : TokenStream} {left : SyntaxNode} {nodes : List SyntaxNode}
    {opening closing : Token}
    (hleft : ReadsTo (parserOf source) ((parserOf source).readWithin (fuel + 1)) above stream left
      (ahead (opening :: (tokens ++ [closing])) after))
    (habove : Level.primary.Above above) (hopening : opening.kind = .openParen)
    (hclosing : closing.kind = .closeParen)
    (harguments : Runs (Parse.repeatWhile (· ≠ .closeParen)
      (Parser.argument ((parserOf source).readWithin fuel))) (ahead tokens (ahead [closing] after))
      nodes (ahead [closing] after)) :
    ReadsTo (parserOf source) ((parserOf source).readWithin (fuel + 1)) above stream
      (.branch .callExpression [left, argumentsNode opening.span nodes closing.span]) after := by
  have hsuffix : Grammar.standard.suffix opening.kind = some (.call, .call) := by
    rw [hopening]
    rfl
  have hlt : above.rank < Power.call.rank := habove.lt (by decide) (by decide)
  have hcall : Runs ((parserOf source).call ((parserOf source).readWithin fuel) left)
      (ahead (opening :: (tokens ++ [closing])) after)
      (.branch .callExpression [left, argumentsNode opening.span nodes closing.span]) after := by
    refine .bind (.bind (.expectLeaf hopening) ?_) (.pure _ _)
    rw [TokenStream.ahead_append]
    exact .bind harguments (.bind (.expectLeaf hclosing) (.pure _ _))
  refine hleft.with_suffix hsuffix hlt hcall ?_
  rw [TokenStream.length_rest_ahead, List.length_cons]
  omega

/-- A call of a name is read back if the tree of the call stands for the expression. -/
theorem ReadsBack.of_call {name : String} (hname : Readable name .identifier)
    (h : Row source (StandsFor source) es words)
    (hstands : ∀ {span opening closing : Span} {nodes : List SyntaxNode},
      Covers source span name.toList → Separated source (StandsFor source) nodes es →
      Covers source closing ")".toList → StandsFor source (.branch .callExpression
        [.leaf .variableName span, argumentsNode opening nodes closing]) e) :
    ReadsBack source .primary e (name :: "(" :: (words ++ [")"])) where
  nonempty := List.cons_ne_nil _ _
  reads := by
    intro after above fuel tokens htokens habove hfollow hfuel
    rcases tokens_cons htokens with ⟨nameToken, rest, rfl, hnameToken, hrest⟩
    rcases tokens_cons hrest with ⟨opening, rest, rfl, hopening, hrest⟩
    rcases tokens_append hrest with ⟨middle, rest, rfl, hmiddle, hrest⟩
    rcases tokens_singleton hrest with ⟨closing, rfl, hclosing⟩
    have hopeningKind : opening.kind = .openParen := hopening.kind_eq (readable_mark (by decide))
    have hclosingKind : closing.kind = .closeParen :=
      hclosing.kind_eq (readable_mark (by decide))
    simp only [List.length_append, List.length_cons] at hfuel
    obtain ⟨fuel, rfl⟩ : ∃ n, fuel = n + 1 := ⟨fuel - 1, by omega⟩
    obtain ⟨nodes, hnodes, hread⟩ := h.arguments (ahead [closing] after) fuel hmiddle hclosingKind
      (by omega)
    have hleft := ReadsTo.of_name source above fuel (opening :: (middle ++ [closing])) after
      (hnameToken.kind_eq hname)
    exact ⟨_, hstands hnameToken.2 hnodes hclosing.2,
      hleft.with_call habove hopeningKind hclosingKind hread⟩

/-- A call of a plain name. -/
theorem ReadsBack.call {name : String} (named : IsName name) (ordinary : name ∉ specialNames)
    (h : Row source (StandsFor source) es words) :
    ReadsBack source .primary (.call () name [] es) (name :: "(" :: (words ++ [")"])) := by
  refine ReadsBack.of_call (readable_name named) h ?_
  intro span opening closing nodes hname hnodes hclosing
  exact .call hname ordinary hnodes hclosing

/-- A call of a builtin function with one argument. -/
theorem ReadsBack.builtin1 {name : String} (builtin : name ∈ unaryBuiltins)
    (onArgument : ReadsBack source level e words) :
    ReadsBack source .primary (.builtin1 () name e) (name :: "(" :: (words ++ [")"])) := by
  have hrow := Row.cons onArgument .nil
  rw [List.append_nil] at hrow
  refine ReadsBack.of_call (readable_name (isName_of_mem_unaryBuiltins builtin)) hrow ?_
  intro span opening closing nodes hname hnodes hclosing
  cases hnodes with
  | cons onFirst onMore =>
    cases onMore
    exact .builtin1 hname builtin onFirst hclosing

/-- A call of a builtin function with two arguments. -/
theorem ReadsBack.builtin2 {name : String} (builtin : name ∈ binaryBuiltins)
    (onLeft : ReadsBack source level e words) (onRight : ReadsBack source level' e' words') :
    ReadsBack source .primary (.builtin2 () name e e')
      (name :: "(" :: (words ++ "," :: (words' ++ [")"]))) := by
  have hrow := Row.cons onLeft (.cons onRight .nil)
  rw [List.append_nil] at hrow
  have hcall := ReadsBack.of_call (e := .builtin2 () name e e')
    (readable_name (isName_of_mem_binaryBuiltins builtin)) hrow ?_
  · rwa [List.append_assoc] at hcall
  intro span opening closing nodes hname hnodes hclosing
  cases hnodes with
  | cons onFirst onMore =>
    cases onMore with
    | cons comma onNext onRest =>
      cases onRest
      exact .builtin2 hname builtin onFirst comma onNext hclosing

/-- A call that creates a type variable, whose argument is a text. -/
theorem ReadsBack.typeVar {quotation : String} (quoted : IsQuotation quotation) :
    ReadsBack source .primary (.literal () ⟨(), .typeVar⟩) ["TypeVar", "(", quotation, ")"] where
  nonempty := List.cons_ne_nil _ _
  reads := by
    intro after above fuel tokens htokens habove hfollow hfuel
    rcases tokens_cons htokens with ⟨name, rest, rfl, hname, hrest⟩
    rcases tokens_cons hrest with ⟨opening, rest, rfl, hopening, hrest⟩
    rcases tokens_cons hrest with ⟨text, rest, rfl, htext, hrest⟩
    rcases tokens_singleton hrest with ⟨closing, rfl, hclosing⟩
    have hnameKind : name.kind = .identifier :=
      hname.kind_eq (readable_name (isName_of_mem_specialNames (by decide)))
    have hopeningKind : opening.kind = .openParen := hopening.kind_eq (readable_mark (by decide))
    have htextKind : text.kind = .string := htext.kind_eq (readable_quotation quoted)
    have hclosingKind : closing.kind = .closeParen :=
      hclosing.kind_eq (readable_mark (by decide))
    simp only [List.length_cons, List.length_nil] at hfuel
    obtain ⟨fuel, rfl⟩ : ∃ n, fuel = n + 3 := ⟨fuel - 3, by omega⟩
    -- the text is an expression by itself
    have hstart : Grammar.standard.expression text.kind = some .primary := by
      rw [htextKind]
      rfl
    have hprimary : Runs (parserOf source).primary (ahead [text, closing] after)
        (.leaf .string text.span) (ahead [closing] after) :=
      .bind (.currentKind_eq htextKind) .leaf
    have hstop : pull closing.kind ≤ Power.lowest.rank := by
      rw [hclosingKind]
      decide
    have hread : Runs ((parserOf source).readWithin (fuel + 2) (.expression .lowest))
        (ahead [text, closing] after) (.leaf .string text.span) (ahead [closing] after) :=
      ReadsTo.runs (.of_form hstart hprimary) hstop
    have hends : decide (closing.kind ≠ .closeParen) = false := by
      rw [hclosingKind]
      decide
    have harguments : Runs (Parse.repeatWhile (· ≠ .closeParen)
        (Parser.argument ((parserOf source).readWithin (fuel + 2))))
        (ahead [text] (ahead [closing] after)) [.leaf .string text.span]
        (ahead [closing] after) :=
      .repeatWhile rfl (readsItems_argument.rounds_node hread (.rounds_nil hends _))
    have hleft := ReadsTo.of_name source above (fuel + 2) [opening, text, closing] after hnameKind
    exact ⟨_, .typeVar hname.2, hleft.with_call habove hopeningKind hclosingKind harguments⟩

/-- A call of a method of an object. -/
theorem ReadsBack.methodCall {method : String} (onObject : ReadsBack source .primary e words)
    (named : IsName method) (h : Row source (StandsFor source) es words') :
    ReadsBack source .primary (.methodCall () e method es)
      (words ++ "." :: method :: "(" :: (words' ++ [")"])) where
  nonempty := by simp
  reads := by
    intro after above fuel tokens htokens habove hfollow hfuel
    rcases tokens_append htokens with ⟨first, rest, rfl, hfirst, hrest⟩
    rcases tokens_cons hrest with ⟨dot, rest, rfl, hdot, hrest⟩
    rcases tokens_cons hrest with ⟨property, rest, rfl, hproperty, hrest⟩
    rcases tokens_cons hrest with ⟨opening, rest, rfl, hopening, hrest⟩
    rcases tokens_append hrest with ⟨middle, rest, rfl, hmiddle, hrest⟩
    rcases tokens_singleton hrest with ⟨closing, rfl, hclosing⟩
    have hdotKind : dot.kind = .dot := hdot.kind_eq (readable_mark (by decide))
    have hpropertyKind := hproperty.kind_eq (readable_name named)
    have hopeningKind : opening.kind = .openParen := hopening.kind_eq (readable_mark (by decide))
    have hclosingKind : closing.kind = .closeParen :=
      hclosing.kind_eq (readable_mark (by decide))
    simp only [List.length_append, List.length_cons] at hfuel
    obtain ⟨fuel, rfl⟩ : ∃ n, fuel = n + 1 := ⟨fuel - 1, by omega⟩
    have hreach : pull dot.kind ≤ Level.primary.reach := by
      rw [hdotKind]
      decide
    obtain ⟨object, hobject, hread⟩ := onObject.reads
      (ahead (dot :: property :: opening :: (middle ++ [closing])) after) above (fuel + 1) hfirst
      habove hreach (by omega)
    obtain ⟨nodes, hnodes, harguments⟩ := h.arguments (ahead [closing] after) fuel hmiddle
      hclosingKind (by omega)
    have hcallee := hread.with_member habove hdotKind hpropertyKind
    rw [TokenStream.ahead_append]
    exact ⟨_, .methodCall hobject hdot.2 hproperty.2 hnodes hclosing.2,
      hcallee.with_call habove hopeningKind hclosingKind harguments⟩

/-! ## Positions -/

/-- Brackets continue an expression. -/
theorem ReadsTo.with_index {stream : TokenStream} {left node : SyntaxNode} {opening : Token}
    (hleft : ReadsTo (parserOf source) ((parserOf source).readWithin (fuel + 1)) above stream left
      (ahead (opening :: tokens) after))
    (habove : Level.primary.Above above) (hopening : opening.kind = .openBracket)
    (hindex : Runs (Parser.index ((parserOf source).readWithin fuel) left)
      (ahead (opening :: tokens) after) node after) :
    ReadsTo (parserOf source) ((parserOf source).readWithin (fuel + 1)) above stream node
      after := by
  have hsuffix : Grammar.standard.suffix opening.kind = some (.member, .index) := by
    rw [hopening]
    rfl
  have hlt : above.rank < Power.member.rank :=
    Nat.lt_trans (habove.lt (by decide) (by decide)) (by decide)
  refine hleft.with_suffix hsuffix hlt hindex ?_
  rw [TokenStream.length_rest_ahead, List.length_cons]
  omega

/-- What stands in brackets behind an object is read with it as a node that stands for something, if
the node with its brackets does. -/
theorem ReadsNode.index {α : Type} {standsObject standsAll : SyntaxNode → Prop}
    {stands : SyntaxNode → α → Prop} {values : List α}
    (onObject : ReadsNode source .primary standsObject words)
    (h : Row source stands values words')
    (hstands : ∀ {object : SyntaxNode} {opening closing : Span} {nodes : List SyntaxNode},
      standsObject object → Covers source opening "[".toList →
      Separated source stands nodes values → Covers source closing "]".toList →
        standsAll (.branch .memberExpression (object :: .leaf .punctuation opening ::
          (nodes ++ [.leaf .punctuation closing])))) :
    ReadsNode source .primary standsAll (words ++ "[" :: (words' ++ ["]"])) where
  nonempty := by simp
  reads := by
    intro after above fuel tokens htokens habove hfollow hfuel
    rcases tokens_append htokens with ⟨first, rest, rfl, hfirst, hrest⟩
    rcases tokens_cons hrest with ⟨opening, rest, rfl, hopening, hrest⟩
    rcases tokens_append hrest with ⟨second, rest, rfl, hsecond, hrest⟩
    rcases tokens_singleton hrest with ⟨closing, rfl, hclosing⟩
    have hopeningKind : opening.kind = .openBracket :=
      hopening.kind_eq (readable_mark (by decide))
    have hclosingKind : closing.kind = .closeBracket :=
      hclosing.kind_eq (readable_mark (by decide))
    simp only [List.length_append, List.length_cons] at hfuel
    obtain ⟨fuel, rfl⟩ : ∃ n, fuel = n + 1 := ⟨fuel - 1, by omega⟩
    have hreach : pull opening.kind ≤ Level.primary.reach := by
      rw [hopeningKind]
      decide
    obtain ⟨object, hobject, hread⟩ := onObject.reads
      (ahead (opening :: (second ++ [closing])) after) above (fuel + 1) hfirst habove hreach
      (by omega)
    obtain ⟨nodes, hnodes, hindex⟩ := h.index object opening after fuel hsecond hclosingKind
      (by omega)
    rw [TokenStream.ahead_append]
    exact ⟨_, hstands hobject hopening.2 hnodes hclosing.2,
      hread.with_index habove hopeningKind hindex⟩

/-- A position of an object. -/
theorem ReadsBack.index (onObject : ReadsBack source .primary e words)
    (onPosition : ReadsBack source level e' words') :
    ReadsBack source .primary (.index () e e') (words ++ "[" :: (words' ++ ["]"])) := by
  have hrow := Row.cons onPosition .nil
  rw [List.append_nil] at hrow
  refine ReadsNode.index onObject hrow ?_
  intro object opening closing nodes hobject hopening hnodes hclosing
  cases hnodes with
  | cons hposition hmore =>
    cases hmore
    exact .index hobject hopening hposition hclosing

end Offside
