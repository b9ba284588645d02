import Offside.Proofs.Parsing.Rules

/-!
# Invariants of phrases

A property of all phrases is proved once for each form and once for each suffix, over what the
rule of this form or suffix is made of.  This module says what that is, and proves that such a
property then holds of everything that is derived.

Main definitions:

- `Invariant`: a property of forms, and one of expressions to which suffixes may be added.
- `Rule.Fits`: phrases are as a rule says, and those of its forms and expressions have the
  property.
- `Invariant.Kept`: the forms and the suffixes keep an invariant.

Main results:

- Theorem `Derives.fits`: an invariant that is kept holds of all that is derived.
-/

namespace Offside

/-- A property of the phrases of a form, and of an expression to which suffixes above a power
have been added; the last argument are the tokens behind. -/
structure Invariant where
  form : Form → List Phrase → List Token → Prop
  operand : Power → Phrase → List Token → Prop

/-- Rows of phrases, each with the tokens it starts and ends with, one behind the other. -/
inductive Repeats (one : List Token → List Phrase → List Token → Prop) :
    List Token → List Phrase → List Token → Prop
  | nil {tokens} : Repeats one tokens [] tokens
  | cons {tokens phrases middle more rest} (onFirst : one tokens phrases middle)
      (onMore : Repeats one middle more rest) : Repeats one tokens (phrases ++ more) rest

/-- What all phrases of each row have, all phrases of the rows have. -/
theorem Repeats.forall_mem {one : List Token → List Phrase → List Token → Prop}
    {P : Phrase → Prop} {tokens rest : List Token} {phrases : List Phrase}
    (h : Repeats one tokens phrases rest)
    (hone : ∀ tokens phrases rest, one tokens phrases rest → ∀ phrase ∈ phrases, P phrase) :
    ∀ phrase ∈ phrases, P phrase := by
  induction h with
  | nil => simp
  | cons onFirst _ ih =>
    intro phrase hmem
    rcases List.mem_append.mp hmem with hfirst | hmore
    · exact hone _ _ _ onFirst phrase hfirst
    · exact ih phrase hmore

/-- Phrases between two places of a token list are as a rule says, where forms and expressions
are only known to have the property of an invariant. -/
def Rule.Fits (inv : Invariant) : Rule → List Token → List Phrase → List Token → Prop
  | .nothing, tokens, phrases, rest => phrases = [] ∧ tokens = rest
  | .leaf accepts kind, tokens, phrases, rest =>
    ∃ token, accepts token.kind = true ∧ phrases = [.ofToken kind token] ∧ tokens = token :: rest
  | .layout kind, tokens, phrases, rest =>
    ∃ token, token.kind = kind ∧ phrases = [] ∧ tokens = token :: rest
  | .expression above, _, phrases, rest => ∃ phrase, phrases = [phrase] ∧
    inv.operand above phrase rest ∧ (Grammar.standard.power (nextKind rest)).rank ≤ above.rank
  | .operand above, _, phrases, rest => ∃ phrase, phrases = [phrase] ∧ inv.operand above phrase rest
  | .form shape, _, phrases, rest => inv.form shape phrases rest
  | .both first second, tokens, phrases, rest => ∃ before middle behind,
    Fits inv first tokens before middle ∧ Fits inv second middle behind rest ∧
      phrases = before ++ behind
  | .either first second, tokens, phrases, rest =>
    Fits inv first tokens phrases rest ∨ Fits inv second tokens phrases rest
  | .many rule, tokens, phrases, rest => Repeats (Fits inv rule) tokens phrases rest
  | .node kind rule, tokens, phrases, rest => ∃ parts, (∀ part ∈ parts, part.Exact) ∧
    Fits inv rule tokens parts rest ∧ phrases = [.group kind parts]

/-- The rules of forms and of suffixes keep an invariant, and an expression has it at its
start. -/
structure Invariant.Kept (inv : Invariant) : Prop where
  form : ∀ {form tokens phrases rest}, form.rule.Fits inv tokens phrases rest →
    inv.form form phrases rest
  start : ∀ {above kind form phrase rest}, Grammar.standard.expression kind = some form →
    inv.form form [phrase] rest → inv.operand above phrase rest
  extend : ∀ {above left middle power suffix phrases rest}, inv.operand above left middle →
    Grammar.standard.suffix (nextKind middle) = some (power, suffix) → above.rank < power.rank →
    (∀ part ∈ left :: phrases, part.Exact) → (suffix.rule power).Fits inv middle phrases rest →
    inv.operand above (.group suffix.kind (left :: phrases)) rest

/-- An invariant that is kept holds of all that is derived. -/
theorem Derives.fits {inv : Invariant} (hkept : inv.Kept) {rule : Rule} {tokens rest : List Token}
    {phrases : List Phrase} (h : Derives rule tokens phrases rest) :
    rule.Fits inv tokens phrases rest := by
  induction h with
  | nothing => exact ⟨rfl, rfl⟩
  | leaf accepted _ _ => exact ⟨_, accepted, rfl, rfl⟩
  | layout ofKind _ => exact ⟨_, ofKind, rfl, rfl⟩
  | both _ _ ihFirst ihSecond => exact ⟨_, _, _, ihFirst, ihSecond, rfl⟩
  | eitherLeft _ ih => exact Or.inl ih
  | eitherRight _ ih => exact Or.inr ih
  | manyNil => exact Repeats.nil
  | manyCons _ _ ihFirst ihMore => exact Repeats.cons ihFirst ihMore
  | node _ onRule ih => exact ⟨_, onRule.exact, ih, rfl⟩
  | form _ ih => exact hkept.form ih
  | start starts _ ih => exact ⟨_, rfl, hkept.start starts ih⟩
  | extend onLeft starts binds onSuffix ihLeft ihSuffix =>
    rcases ihLeft with ⟨left, hleft, hoperand⟩
    cases hleft
    refine ⟨_, rfl, hkept.extend hoperand starts binds ?_ ihSuffix⟩
    intro part hpart
    rcases List.mem_cons.mp hpart with rfl | hmem
    · exact onLeft.exact _ List.mem_cons_self
    · exact onSuffix.exact _ hmem
  | expression _ stops ih =>
    rcases ih with ⟨phrase, hphrase, hoperand⟩
    exact ⟨phrase, hphrase, hoperand, stops⟩

end Offside
