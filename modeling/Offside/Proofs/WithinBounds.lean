import Offside.Proofs.Diagnostic.Caret
import Offside.Proofs.Lowering.ComesBack
import Offside.Proofs.Refusals
import Offside.Proofs.Source.LineTable
import Offside.Proofs.Typing.InRange
import Offside.Proofs.Writing.Scanning
import Offside.Typing.Session

/-!
# Checking stays within bounds

Positions are numbers of bytes, handed on from the scanner through tokens and nodes to locations;
tokens, lines and parameters are taken by index; and some numbers are counted down.  For every
source and environment, a check never cuts a source inside a character or out of its order, takes
no entry out of range and counts nothing below zero: it gives a program or a refusal.

A report on a refusal can be printed as long as the formatter takes the width of its mark.  Further
to the right it breaks off.

Main definitions:

- `HasPlace`: a span of a source has a text and, by the line table, a location.
- `WithinBounds`: what checking a source never leaves.

Main results:

- Theorem `refused_of_lower`: the tree of a source that has no program is refused.
- Theorem `checkProgram_withinBounds`: every check stays within bounds.
-/

namespace Offside

variable {source : Source} {tokens : List Token} {tree : SyntaxNode} {failure : Failure}

/-! ## Refusals -/

/-- A source with a tree but without a program is refused. -/
theorem refused_of_lower (htokens : tokenize source = .ok tokens)
    (hparse : parse tokens source = .ok tree) (h : lower tree source = .error failure) :
    ∃ diagnostic, failure = .refused diagnostic := by
  have hcontent := allHaveContent_of_parse htokens hparse
  have hfits : failure.Fits := fits_of_lower htokens hparse h
  have hfinished : failure ≠ .unfinished := by
    have hfilled : tree.Filled := fun node hnode => (hcontent node hnode).children_ne
    have hwalk := Lowering.program_comesBack (c := .top tree)
      (Lowering.covers_ofTree source hfilled)
    rcases Outcome.bind_eq_error h with hrun | ⟨entry, -, hpure⟩
    · exact hwalk.of_error hrun
    · nomatch hpure
  cases failure with
  | refused diagnostic => exact ⟨diagnostic, rfl⟩
  | offBoundary => exact hfits.elim
  | unfinished => exact absurd rfl hfinished

/-- A source without a program is refused. -/
theorem refused_of_parseProgram (h : parseProgram source = .error failure) :
    ∃ diagnostic, failure = .refused diagnostic := by
  rcases Outcome.bind_eq_error h with htokenize | ⟨tokens, htokens, hmore⟩
  · exact refused_of_tokenize htokenize
  · rcases Outcome.bind_eq_error hmore with hparse | ⟨tree, hparse, hlower⟩
    · exact refused_of_parse htokens hparse
    · exact refused_of_lower htokens hparse hlower

/-- A source that is not accepted is refused. -/
theorem refused_of_checkProgram {env : Env} (h : checkProgram source env = .error failure) :
    ∃ diagnostic, failure = .refused diagnostic := by
  rcases Outcome.bind_eq_error h with hprogram | ⟨program, -, hcheck⟩
  · exact refused_of_parseProgram hprogram
  · split at hcheck
    · nomatch hcheck
    · cases hcheck
      exact ⟨_, rfl⟩

/-! ## Bounds -/

/-- A span of a source has a text, and the line table has a location for its start. -/
def HasPlace (source : Source) (span : Span) : Prop :=
  (∃ text, Source.slice? source span = some text) ∧
    ∃ location, Source.lookUp? source span.start = some location

theorem Covers.hasPlace {text : Source} {span : Span} (h : Covers source span text) :
    HasPlace source span := by
  obtain ⟨location, hlocate⟩ := h.cuts.location
  refine ⟨⟨text, h.slice?_eq⟩, location, ?_⟩
  rw [Source.lookUp?_eq]
  unfold Outcome.locate at hlocate
  split at hlocate
  · next hfound =>
    cases hlocate
    exact hfound
  · nomatch hlocate

/-- What checking a source in an environment, and showing why it is refused, never leaves. -/
structure WithinBounds (source : Source) (env : Env) : Prop where
  /-- No position inside a character is located, and no stage stops for want of steps. -/
  ends : ∀ failure, checkProgram source env = .error failure →
    ∃ diagnostic, failure = .refused diagnostic
  /-- Wherever the scanner gets to, what it cuts off is there. -/
  scans : ∀ s, Scanner.Reaches source s → s.CutsText source
  /-- The line table locates a position without leaving the table or the source, unless the
  position lies inside a character. -/
  locates : ∀ position, Source.lookUp? source position = Source.location? source position
  /-- The tokens have places in the source. -/
  tokens : ∀ tokens, tokenize source = .ok tokens → ∀ token ∈ tokens, HasPlace source token.span
  /-- However far the parser gets, its current token is an entry of the token list, which has a
  last one. -/
  reads : ∀ tokens, tokenize source = .ok tokens → ∀ count, 1 ≤ tokens.length ∧
    tokens[min count (tokens.length - 1)]? = some
      (TokenStream.next^[count] (TokenStream.ofTokens tokens (Source.byteSize source))).current
  /-- The nodes of the tree have places in the source. -/
  nodes : ∀ tokens tree, tokenize source = .ok tokens → parse tokens source = .ok tree →
    ∀ node ∈ tree.nodes, HasPlace source node.span
  /-- Behind the body of a loop, there is a loop to be left. -/
  loops : ∀ (body : List (Stmt Location)) (context : Typing.Context),
    1 ≤ (Typing.outcome (Typing.checkBlock body) context.enterLoop).2.locals.loopDepth
  /-- Where the parameters behind a receiver are taken, there is a receiver. -/
  receivers : ∀ (env : Env) (object : Expr Typed) (method : String)
    (arguments : List (Expr Typed)) (location : Location),
    (Typing.methodCallByIndex env object method arguments location).run =
      some (Typing.methodCall env object method arguments location)
  /-- Where the parameter of a constructor is taken, there is one. -/
  constructors : ∀ (className : String) (method : FunDef Typed),
    Typing.isConstructorByIndex? className method = some (Typing.isConstructor className method)
  /-- The line of a refusal can be cut behind what is not shown of it. -/
  cutsLine : ∀ diagnostic, checkProgram source env = .error (.refused diagnostic) →
    let line := diagnostic.location.text.toList
    Source.slice? line ⟨Diagnostic.hiddenWidth line, Source.byteSize line⟩ =
      some (line.dropWhile Diagnostic.isHidden)
  /-- A report on a refusal is printed to its end, if and only if the formatter takes the widths of
  the bar and of the mark. -/
  shows : ∀ diagnostic, checkProgram source env = .error (.refused diagnostic) →
    ∀ file, (diagnostic.report file).complete = true ↔ Diagnostic.Fits diagnostic.location

/-- For every source and environment, checking stays within bounds: it gives a program or a
refusal, and on the way no text is cut inside a character, no entry taken out of range and nothing
counted below zero.  A report on the refusal breaks off in one case alone, that of a field which is
too wide for the formatter. -/
theorem checkProgram_withinBounds (source : Source) (env : Env) : WithinBounds source env where
  ends _ h := refused_of_checkProgram h
  scans _ h := h.cutsText
  locates := Source.lookUp?_eq source
  tokens _ htokens token htoken :=
    (tokenize_covers htokens token htoken).elim fun _ hcovers => hcovers.hasPlace
  reads tokens htokens count := by
    have hcurrent := current_advanced tokens (Source.byteSize source) count
    rwa [complete_of_tokenize htokens] at hcurrent
  nodes _ _ htokens hparse node hnode :=
    (parse_covers htokens hparse node hnode).elim fun _ hcovers => hcovers.hasPlace
  loops body context := by
    rw [Typing.loopDepth_checkBlock]
    exact Nat.le_add_left 1 _
  receivers := Typing.methodCallByIndex_eq
  constructors := Typing.isConstructorByIndex?_eq
  cutsLine diagnostic _ := Scanner.slice?_behindIndentation diagnostic.location.text.toList
  shows diagnostic _ := Diagnostic.complete_report diagnostic

/-- A word and behind it a sign that starts no token: the source is refused at the sign. -/
theorem checkProgram_wordAndSign (count : Nat) (env : Env) :
    checkProgram (List.replicate (count + 1) 'x' ++ ['$']) env =
      .error (.refused ⟨.unrecognisedToken "$",
        Source.locationBetween (List.replicate (count + 1) 'x') ['$']⟩) := by
  have hword : (String.ofList (List.replicate (count + 1) 'x')).toList =
      'x' :: List.replicate count 'x' := String.toList_ofList
  have hstuck : Pattern.first? ['$'] = none := by decide
  have htokenize := tokenize_stuck hword (by decide)
    (fun c hc => by rw [List.eq_of_mem_replicate hc]; decide) (by decide) hstuck
  rw [hword, ← List.replicate_succ] at htokenize
  simp only [checkProgram, parseProgram, htokenize]
  rfl

/-- Behind a word that is longer than the formatter takes widths, every report on the sign breaks
off. -/
theorem complete_report_wordAndSign {count : Nat} (hcount : Diagnostic.maxWidth ≤ count + 1)
    (file : String) :
    (Diagnostic.report ⟨.unrecognisedToken "$",
      Source.locationBetween (List.replicate (count + 1) 'x') ['$']⟩ file).complete = false := by
  have hfits := (Diagnostic.not_fits_farRight hcount).2
  rw [← Diagnostic.complete_report ⟨.unrecognisedToken "$", _⟩ file, Bool.not_eq_true] at hfits
  exact hfits

/-- A source is refused at a sign so far to the right that every report on the refusal breaks off. -/
theorem checkProgram_withinBounds_farRight :
    ∃ diagnostic,
      checkProgram (List.replicate 65536 'x' ++ ['$']) .builtins = .error (.refused diagnostic) ∧
        ∀ file, (diagnostic.report file).complete = false :=
  ⟨_, checkProgram_wordAndSign 65535 .builtins, complete_report_wordAndSign (by decide)⟩

end Offside
