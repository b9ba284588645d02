import Offside.Proofs.Writing.RoundTrip

/-!
# Brackets of written expressions

Behind a written expression, as many brackets are open as in front of it, so that a line feed there
ends the line if one in front of the expression did.

Main definitions:

- `Balanced`: words leave the number of open brackets as it is.

Main results:

- Theorem `Spells.balanced`: the words of an expression are balanced.
-/

namespace Offside

/-- The number of open brackets behind some tokens. -/
def depthOver (depth : Nat) (tokens : List Token) : Nat :=
  tokens.foldl (fun depth token => Scanner.depthAfter depth token.kind) depth

/-- Behind the tokens of some words, as many brackets are open as in front of them. -/
def Balanced (words : List String) : Prop :=
  ∀ source tokens, List.Forall₂ (TokenOf source) words tokens →
    ∀ depth, depthOver depth tokens = depth

namespace Balanced

variable {word opening closing : String} {words more : List String} {kind kind' : TokenKind}

/-- No words are balanced. -/
theorem nil : Balanced [] := by
  intro source tokens htokens depth
  cases htokens
  rfl

/-- Two rows of balanced words are balanced. -/
theorem append (hwords : Balanced words) (hmore : Balanced more) : Balanced (words ++ more) := by
  intro source tokens htokens depth
  obtain ⟨first, rest, rfl, hfirst, hrest⟩ := tokens_append htokens
  rw [depthOver, List.foldl_append]
  exact (congrArg (depthOver · rest) (hwords source first hfirst depth)).trans
    (hmore source rest hrest depth)

/-- A word that is no bracket changes nothing. -/
theorem cons (hword : Readable word kind) (hopen : kind.isOpening = false)
    (hclose : kind.isClosing = false) (hmore : Balanced more) : Balanced (word :: more) := by
  intro source tokens htokens depth
  obtain ⟨token, rest, rfl, htoken, hrest⟩ := tokens_cons htokens
  have hdepth : Scanner.depthAfter depth token.kind = depth := by
    rw [htoken.kind_eq hword, Scanner.depthAfter, hopen, hclose]
    rfl
  rw [depthOver, List.foldl_cons, hdepth]
  exact hmore source rest hrest depth

/-- Of two brackets around words, the second closes what the first has opened. -/
theorem wrap (hopening : Readable opening kind) (hopen : kind.isOpening = true)
    (hclosing : Readable closing kind') (hnot : kind'.isOpening = false)
    (hclose : kind'.isClosing = true) (hwords : Balanced words) :
    Balanced (opening :: (words ++ [closing])) := by
  intro source tokens htokens depth
  obtain ⟨first, rest, rfl, hfirst, hrest⟩ := tokens_cons htokens
  obtain ⟨inside, behind, rfl, hinside, hbehind⟩ := tokens_append hrest
  obtain ⟨last, rfl, hlast⟩ := tokens_singleton hbehind
  have hdepth : Scanner.depthAfter depth first.kind = depth + 1 := by
    rw [hfirst.kind_eq hopening, Scanner.depthAfter, hopen]
    rfl
  have hdepth' : Scanner.depthAfter (depth + 1) last.kind = depth := by
    rw [hlast.kind_eq hclosing, Scanner.depthAfter, hnot, hclose]
    rfl
  rw [depthOver, List.foldl_cons, List.foldl_append, hdepth]
  exact (congrArg (depthOver · [last]) (hwords source inside hinside (depth + 1))).trans hdepth'

/-- Words in parentheses. -/
theorem parens (hwords : Balanced words) : Balanced ("(" :: (words ++ [")"])) :=
  .wrap (readable_mark (by decide : ("(", .openParen) ∈ marks)) rfl
    (readable_mark (by decide : (")", .closeParen) ∈ marks)) rfl rfl hwords

/-- Words in brackets. -/
theorem brackets (hwords : Balanced words) : Balanced ("[" :: (words ++ ["]"])) :=
  .wrap (readable_mark (by decide : ("[", .openBracket) ∈ marks)) rfl
    (readable_mark (by decide : ("]", .closeBracket) ∈ marks)) rfl rfl hwords

/-- A name in front leaves words balanced. -/
theorem name (named : IsName word) (hmore : Balanced more) : Balanced (word :: more) :=
  .cons (readable_name named) rfl rfl hmore

/-- Reserved words are no brackets. -/
theorem reserved (h : word ∈ TokenKind.reservedWords.map Prod.fst) (hmore : Balanced more) :
    Balanced (word :: more) := by
  obtain ⟨⟨word, kind⟩, hmem, rfl⟩ := List.mem_map.mp h
  have hall : ∀ entry ∈ TokenKind.reservedWords,
      entry.2.isOpening = false ∧ entry.2.isClosing = false := by decide
  exact .cons (readable_reserved hmem) (hall _ hmem).1 (hall _ hmem).2 hmore

/-- The words of a comprehension: a result, and what is behind it, in its brackets. -/
theorem comprehension {item : String} (kind : ComprehensionKind) (hwords : Balanced words)
    (named : IsName item) (hmore : Balanced more) :
    Balanced
      (kind.brackets.1 :: (words ++ "for" :: item :: "in" :: (more ++ [kind.brackets.2]))) := by
  have hitem : Balanced ("for" :: item :: "in" :: more) :=
    .reserved (by decide) (.name named (.reserved (by decide) hmore))
  have hinside := hwords.append hitem
  have hrow : words ++ "for" :: item :: "in" :: (more ++ [kind.brackets.2]) =
      (words ++ "for" :: item :: "in" :: more) ++ [kind.brackets.2] := by simp
  rw [hrow]
  cases kind with
  | list => exact brackets hinside
  | generator => exact parens hinside
  | set =>
    exact .wrap (readable_mark (by decide : ("\x7b", .openCurly) ∈ marks)) rfl
      (readable_mark (by decide : ("\x7d", .closeCurly) ∈ marks)) rfl rfl hinside

/-- So does a comma. -/
theorem comma (hmore : Balanced more) : Balanced ("," :: more) :=
  .cons (readable_mark (by decide : (",", .comma) ∈ marks)) rfl rfl hmore

/-- So does a binary operator. -/
theorem binOp (op : BinOp) (hmore : Balanced more) : Balanced (op.lexeme :: more) :=
  .cons (readable_binOp op) (by cases op <;> rfl) (by cases op <;> rfl) hmore

/-- So does a unary operator. -/
theorem uniOp (op : UniOp) (hmore : Balanced more) : Balanced (op.lexeme :: more) :=
  .cons (readable_uniOp op) (by cases op <;> rfl) (by cases op <;> rfl) hmore

end Balanced

mutual

/-- The words that spell an expression are balanced. -/
theorem Spells.balanced {level : Level} {e : Expr Unit} {words : List String}
    (h : Spells level e words) : Balanced words := by
  match h with
  | .num (n := n) fits => exact .cons (readable_number n) rfl rfl .nil
  | .true | .false | .none => exact .reserved (by decide) .nil
  | @Spells.typeVar quotation quoted =>
    have hquotation : Balanced [quotation] := .cons (readable_quotation quoted) rfl rfl .nil
    exact .name (isName_of_mem_specialNames (by decide)) hquotation.parens
  | .id named => exact .name named .nil
  | .binOp onLeft onRight atLeast above =>
    exact .append onLeft.balanced (.binOp _ onRight.balanced)
  | .uniOp onOperand atLeast => exact .uniOp _ onOperand.balanced
  | .ternary onTrue onCondition onFalse above above' =>
    refine .append onTrue.balanced (.reserved (by decide) ?_)
    exact .append onCondition.balanced (.reserved (by decide) onFalse.balanced)
  | .call named ordinary onArguments => exact .name named (.parens onArguments.balanced)
  | .builtin1 builtin onArgument =>
    exact .name (isName_of_mem_unaryBuiltins builtin) (.parens onArgument.balanced)
  | .builtin2 builtin onLeft onRight =>
    refine .name (isName_of_mem_binaryBuiltins builtin) ?_
    have hinside := Balanced.parens (.append onLeft.balanced (.comma onRight.balanced))
    simpa using hinside
  | .methodCall onObject named onArguments =>
    refine .append onObject.balanced ?_
    refine .cons (readable_mark (by decide : (".", .dot) ∈ marks)) rfl rfl ?_
    exact .name named (.parens onArguments.balanced)
  | .lookup onObject named =>
    refine .append onObject.balanced ?_
    exact .cons (readable_mark (by decide : (".", .dot) ∈ marks)) rfl rfl (.name named .nil)
  | .index onObject onPosition => exact .append onObject.balanced (.brackets onPosition.balanced)
  | .listLiteral onElements => exact .brackets onElements.balanced
  | .comprehension onResult named onIterable above =>
    exact .comprehension _ onResult.balanced named onIterable.balanced
  | @Spells.filtered kind _ _ _ item _ _ _ words words' words'' onResult named onIterable onFilter
      above above' =>
    have hbehind : Balanced (words' ++ "if" :: words'') :=
      .append onIterable.balanced (.reserved (by decide) onFilter.balanced)
    have hall := Balanced.comprehension kind onResult.balanced named hbehind
    rwa [List.append_assoc] at hall
  | .parens inside => exact .parens inside.balanced

/-- The words of expressions in a row are balanced. -/
theorem SpellsAll.balanced {es : List (Expr Unit)} {words : List String}
    (h : SpellsAll es words) : Balanced words := by
  match h with
  | .nil => exact .nil
  | .cons onFirst onMore => exact .append onFirst.balanced onMore.balanced

/-- So are those of the expressions behind the first one. -/
theorem SpellsMore.balanced {es : List (Expr Unit)} {words : List String}
    (h : SpellsMore es words) : Balanced words := by
  match h with
  | .nil => exact .nil
  | .cons onNext onMore => exact .comma (.append onNext.balanced onMore.balanced)

end

end Offside
