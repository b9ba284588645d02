import Offside.Proofs.Parsing.Lookahead
import Offside.Proofs.Parsing.Spans

/-!
# Parsing makes progress

Every phrase that is read takes a token, and no token taken is the end of the file.  The rules ask
for phrases of less work, and the loops go on without a limit until a token does not pass; so
parsing ends on every token list, wherever it comes from.  What it ends with is a tree, or a refusal
of a token of the list.  The refusal has no location where the token starts inside a character,
which no token of a source does.

Main definitions:

- `Parser.Ends`: a reader takes tokens, or refuses the token behind those that it has passed.
- `Parser.Progresses`: what the rules and the loops of a parser do.
- `ParsingEnds`: what parsing token lists comes to.

Main results:

- Theorem `progresses_of_standard`: the parser of the language makes progress.
- Theorem `parsing_ends`: parsing ends with a tree or a refused token.
-/

namespace Offside

open Offside.Parser Parse

/-- A reader takes some tokens of a stream, of which a promise is kept, or it refuses the token
behind those that it has passed. -/
inductive Parser.Ends {α : Type} (p : Parser) (reader : Parse α) (s : TokenStream)
    (promise : List Token → TokenStream → Prop) : Prop where
  | gives {value : α} {taken : List Token} {after : TokenStream} (takes : s.Takes taken after)
    (reads : Runs reader s value after) (kept : promise taken after)
  | refuses {taken : List Token} {after : TokenStream} (reason : Option String)
    (takes : s.Takes taken after)
    (refused : reader s =
      .refuseAt p.source after.current.span.start (.unexpected reason after.current))

/-- A reader takes a token or refuses one. -/
abbrev Parser.Takes {α : Type} (p : Parser) (reader : Parse α) (s : TokenStream) : Prop :=
  p.Ends reader s fun taken _ => taken ≠ []

/-- What a parser does on streams that end with the end of the file. -/
structure Parser.Progresses (p : Parser) : Prop where
  /-- The phrases that a rule asks for are of less work, and so the recursion of the rules ends:
  whatever else is done with other phrases, the rule reads the same. -/
  recurses : ∀ (goal : Goal) (s : TokenStream), s.Closed → goal.StartsAt s.current.kind →
    ∀ read : Goal → Parse SyntaxNode,
      (∀ smaller t, t.Closed → smaller.StartsAt t.current.kind →
        smaller.work t < goal.work s → read smaller t = p.read smaller t) →
      p.rule read goal s = p.read goal s
  /-- Every phrase takes a token. -/
  phrases : ∀ (goal : Goal) (s : TokenStream), s.Closed → goal.StartsAt s.current.kind →
    p.Takes (p.read goal) s
  /-- So do the parts of phrases that have readers of their own. -/
  types : ∀ (marker : TokenKind) (s : TokenStream), s.Closed → marker.isVisible = true →
    p.Takes (p.typeDef p.read marker) s
  parameters : ∀ s : TokenStream, s.Closed → p.Takes (p.paramList p.read) s
  comprehensions : ∀ (kind : SyntaxKind) (opening result : SyntaxNode) (s : TokenStream),
    s.Closed → p.Takes (p.comprehensionTail p.read kind opening result) s
  /-- Suffixes are taken without a limit, as long as they bind tightly enough. -/
  suffixes : ∀ (above : Power) (left : SyntaxNode) (s : TokenStream), s.Closed →
    p.suffixes p.read above left s =
      (do
        match ← p.suffixAbove above with
        | some (power, suffix) => do p.suffixes p.read above (← p.read (.suffix suffix left power))
        | none => return left : Parse SyntaxNode) s
  /-- Every round of a loop takes a token. -/
  rounds : ∀ (loop : Loop) (s : TokenStream), s.Closed → loop.passes s.current.kind = true →
    p.Takes (loop.round p p.read) s
  /-- Loops go on without a limit, as long as the current token passes. -/
  repeats : ∀ (loop : Loop) (s : TokenStream), s.Closed →
    loop.run p p.read s =
      (do
        if loop.passes (← currentKind) then
          let first ← loop.round p p.read
          let more ← loop.run p p.read
          return first ++ more
        else return [] : Parse (List SyntaxNode)) s
  /-- Loops end at a token that does not pass. -/
  stops : ∀ (loop : Loop) (s : TokenStream), s.Closed →
    p.Ends (loop.run p p.read) s fun _ after => loop.passes after.current.kind = false

/-- What parsing the token lists of any origin comes to. -/
structure ParsingEnds (source : Source) : Prop where
  progresses : Parser.Progresses ⟨source, .standard⟩
  /-- A token list has a tree, or one of its tokens is refused. -/
  answers : ∀ tokens, (∃ tree, parse tokens source = .ok tree) ∨
    ∃ token ∈ TokenStream.complete tokens (Source.byteSize source), ∃ failure,
      failure.Refuses source token ∧ parse tokens source = .error failure
  /-- What refuses the tokens of the source has a location. -/
  locates : ∀ tokens, tokenize source = .ok tokens → (∃ tree, parse tokens source = .ok tree) ∨
    ∃ diagnostic, parse tokens source = .error (.refused diagnostic)

/-! ## Readers -/

section Readers

variable {p : Parser} {s : TokenStream} {α : Type} {reader : Parse α} {bound : Nat}

/-- What is decided ends. -/
theorem Decided.ends {promise : List Token → TokenStream → Prop} (h : Decided p bound reader s)
    (hkept : ∀ value taken after, s.Takes taken after → Runs reader s value after →
      after.rest.length < bound → promise taken after) : p.Ends reader s promise := by
  cases h with
  | @gives taken after value takes less reads =>
    have hreads : Runs reader s value after := by
      rw [takes.starts]
      exact reads after takes.closed rfl
    exact .gives takes hreads (hkept value taken after takes hreads less)
  | @refuses taken after reason takes refused =>
    refine .refuses reason takes ?_
    have hrefused := refused after takes.closed rfl
    rwa [← takes.starts] at hrefused

theorem Decided.takes (h : Decided p s.rest.length reader s) : p.Takes reader s := by
  refine h.ends fun _ taken after htakes _ hless => ?_
  rintro rfl
  have hlength := htakes.length_rest
  rw [List.length_nil] at hlength
  omega

end Readers

/-- The parser of the language makes progress. -/
theorem progresses_of_standard {p : Parser} (hp : p.grammar = .standard) : p.Progresses := by
  have hread (bound : Nat) : DecidedBelow p bound p.read := read_decidedBelow hp bound
  have hround (loop : Loop) {s : TokenStream} (hs : s.Closed)
      (hpasses : loop.passes s.current.kind = true) :
      Decided p s.rest.length (loop.round p p.read) s :=
    round_decided loop hs.below (hread _) hpasses
  exact
    { recurses := fun goal s hs hstarts _ => rule_eq_read hp hs hstarts
      phrases := fun goal s hs hstarts => (read_decided hp goal hs hstarts).takes
      types := fun marker s hs hvisible => (typeDef_takes hs (hread _) hvisible).takes
      parameters := fun s hs => (paramList_takes hs (hread _)).takes
      comprehensions := fun kind opening result s hs =>
        (comprehensionTail_takes hs (hread _)).takes
      suffixes := fun above left s hs => suffixes_eq hp (fun left ht hsuffix =>
        (read_decided hp (.suffix _ left _) ht hsuffix).onSuccess) hs
      rounds := fun loop s hs hpasses => (hround loop hs hpasses).takes
      repeats := fun loop s hs =>
        repeatWhile_eq (fun ht hpasses => (hround loop ht hpasses).onSuccess) hs
      stops := fun loop s hs => (run_decided loop hs.below (hread _)).ends
        fun _ _ _ _ hruns _ => repeatWhile_stops.of_runs hruns }

/-- Parsing ends, whatever tokens it is about: with a tree or at a token that is refused. -/
theorem parsing_ends (source : Source) : ParsingEnds source where
  progresses := progresses_of_standard rfl
  answers tokens := by
    rcases parse_cases tokens source with htree | ⟨taken, token, more, reason, hlist, hothers⟩
    · exact .inl htree
    · obtain ⟨failure, hrefuses, hfailure⟩ := exists_refuses source token reason
      refine .inr ⟨token, ?_, failure, hrefuses, (hothers tokens more hlist).trans hfailure⟩
      rw [hlist]
      exact List.mem_append_right taken List.mem_cons_self
  locates tokens htokens := by
    cases hparse : parse tokens source with
    | ok tree => exact .inl ⟨tree, rfl⟩
    | error failure =>
      obtain ⟨diagnostic, rfl⟩ := refused_of_parse htokens hparse
      exact .inr ⟨diagnostic, rfl⟩

/-- A token that starts inside a character is refused without a location: there is neither a tree
nor a diagnostic. -/
theorem parse_insideCharacter :
    (∀ tree, parse [⟨.closeParen, ")", ⟨1, 2⟩⟩] ['é'] ≠ .ok tree) ∧
      ∀ diagnostic, parse [⟨.closeParen, ")", ⟨1, 2⟩⟩] ['é'] ≠ .error (.refused diagnostic) := by
  have hparse : parse [⟨.closeParen, ")", ⟨1, 2⟩⟩] ['é'] = .error .offBoundary := rfl
  rw [hparse]
  exact ⟨nofun, nofun⟩

end Offside
