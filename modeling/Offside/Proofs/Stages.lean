import Offside.Proofs.Layout.Positions
import Offside.Proofs.Lowering.Blames
import Offside.Proofs.Parsing.AlikeTokens
import Offside.Proofs.Typing.Blames

/-!
# Refusals and their stages

A cause says which stage it belongs to, apart from the places where it is raised.  The two agree:
what refuses a source before its program is there refuses it for its text, and the checker refuses
a program for its types.  For the parser this needs no walk through its rules: two parsers that
read alike tokens side by side are refused alike, and a parser is alike to itself.

Main definitions:

- `Outcome.RefusedBy`: a result, or a refusal for an allowed cause.
- `Outcome.RefusedFor`: a result, or a refusal that belongs to a stage.

Main results:

- Theorem `refusedFor_tokenize`, `refusedFor_parse` and `refusedFor_lower`: the stages up to the
  program.
- Theorem `refusedFor_stages`: every refusal belongs to the stage that it comes from.
-/

namespace Offside

/-- What refuses a source, if anything does, is an allowed cause. -/
def Outcome.RefusedBy {α : Type} (allowed : Cause → Prop) (outcome : Outcome α) : Prop :=
  ∀ diagnostic, outcome = .error (.refused diagnostic) → allowed diagnostic.cause

/-- What refuses a source, if anything does, is a cause that belongs to a stage. -/
def Outcome.RefusedFor {α : Type} (stage : Stage) (outcome : Outcome α) : Prop :=
  ∀ diagnostic, outcome = .error (.refused diagnostic) → diagnostic.cause.stage = stage

namespace Outcome

variable {α β : Type} {allowed : Cause → Prop} {stage : Stage}

/-- Steps in a row are refused for a cause of one of them. -/
theorem RefusedBy.bind {outcome : Outcome α} {next : α → Outcome β} (h : outcome.RefusedBy allowed)
    (hnext : ∀ value, outcome = .ok value → (next value).RefusedBy allowed) :
    (outcome >>= next).RefusedBy allowed := by
  intro diagnostic hrefused
  rcases bind_eq_error hrefused with hfirst | ⟨value, hvalue, hsecond⟩
  · exact h diagnostic hfirst
  · exact hnext value hvalue diagnostic hsecond

/-- What succeeds is not refused. -/
theorem refusedBy_ok (value : α) : RefusedBy allowed (.ok value) := nofun

/-- The cause of a refusal is the one that it was refused for. -/
theorem refusedBy_refuseAt {cause : Cause} (h : allowed cause) (source : Source)
    (position : Nat) : RefusedBy allowed (refuseAt source position cause : Outcome α) := by
  intro diagnostic hrefused
  unfold refuseAt at hrefused
  split at hrefused
  · cases hrefused
    exact h
  · nomatch hrefused

/-- A stage refuses for the causes that belong to it. -/
theorem refusedFor_iff {outcome : Outcome α} :
    outcome.RefusedFor stage ↔ outcome.RefusedBy fun cause => cause.stage = stage := Iff.rfl

/-- Steps of one stage in a row are refused for this stage. -/
theorem RefusedFor.bind {outcome : Outcome α} {next : α → Outcome β} (h : outcome.RefusedFor stage)
    (hnext : ∀ value, (next value).RefusedFor stage) : (outcome >>= next).RefusedFor stage := by
  rw [refusedFor_iff] at h ⊢
  exact h.bind fun value _ => hnext value

end Outcome

/-! ## The scanner -/

section Scanning

variable {source : Source} {allowed : Cause → Prop}
  (hcharacter : ∀ text, allowed (.unrecognisedToken text))
  (hindentation : allowed .inconsistentIndentation)

namespace Scanner

include hindentation in
/-- The start of a line is refused for an indentation that fits no block. -/
theorem refusedBy_startLine (s : Scanner) : (s.startLine source).RefusedBy allowed := by
  simp only [startLine]
  split
  · exact Outcome.refusedBy_ok _
  · split
    · exact Outcome.refusedBy_ok _
    · exact Outcome.refusedBy_refuseAt hindentation _ _

include hcharacter in
/-- A reading is refused for text that no pattern matches. -/
theorem refusedBy_readOne (s : Scanner) : (s.readOne source).RefusedBy allowed := by
  unfold readOne
  split
  · exact Outcome.refusedBy_ok _
  · exact Outcome.refusedBy_refuseAt (hcharacter _) _ _

include hcharacter hindentation

/-- A step is refused for one of both. -/
theorem refusedBy_step (s : Scanner) : (s.step source).RefusedBy allowed := by
  unfold step
  split
  · exact (s.refusedBy_startLine hindentation).bind fun t _ => t.refusedBy_readOne hcharacter
  · exact s.refusedBy_readOne hcharacter

/-- So is a run. -/
theorem refusedBy_run (fuel : Nat) (s : Scanner) : (run source fuel s).RefusedBy allowed := by
  induction fuel generalizing s with
  | zero =>
    unfold run
    split
    · exact Outcome.refusedBy_ok _
    · intro diagnostic hrefused
      cases hrefused
  | succ fuel ih =>
    unfold run
    split
    · exact Outcome.refusedBy_ok _
    · exact (s.refusedBy_step hcharacter hindentation).bind fun t _ => ih t

end Scanner

include hcharacter hindentation in
/-- In front of its tokens, a source is refused for a character or for its indentation. -/
theorem refusedBy_tokenize : (tokenize source).RefusedBy allowed :=
  (Scanner.refusedBy_run hcharacter hindentation _ _).bind fun _ _ => Outcome.refusedBy_ok _

end Scanning

/-- What refuses a source in front of its tokens is a matter of its text. -/
theorem refusedFor_tokenize (source : Source) : (tokenize source).RefusedFor .parse := by
  rw [Outcome.refusedFor_iff]
  exact refusedBy_tokenize (fun _ => rfl) rfl

/-! ## The parser -/

/-- What two runs of a parser have in common when all that counts is why they are refused. -/
def textual (allowed : Cause → Prop) : Likeness where
  token := Eq
  node _ _ := True
  failure failure _ := ∀ diagnostic, failure = .refused diagnostic → allowed diagnostic.cause

section Parsing

variable {allowed : Cause → Prop}
  (hunexpected : ∀ reason token, allowed (.unexpected reason token))

include hunexpected

/-- A parser goes along with itself where only the causes of refusals count. -/
theorem alike_textual (source : Source) :
    Parser.Alike (textual allowed) ⟨source, .standard⟩ ⟨source, .standard⟩ where
  grammar := rfl
  grammar' := rfl
  kind h := congrArg Token.kind h
  refuse := by
    rintro token _ reason rfl α β rel
    unfold Outcome.refuseAt
    cases Source.location? source token.span.start with
    | some location =>
      refine .error fun diagnostic hrefused => ?_
      cases hrefused
      exact hunexpected reason token
    | none => exact .error nofun
  leaf _ _ _ := trivial
  branch _ _ := trivial

/-- A token list is refused for one of its tokens. -/
theorem refusedBy_parse (tokens : List Token) (source : Source) :
    (parse tokens source).RefusedBy allowed := by
  intro diagnostic hrefused
  have htokens := List.forall₂_same.mpr fun token (_ : token ∈
    TokenStream.complete tokens (Source.byteSize source)) => rfl
  have halike := parse_alike (alike_textual hunexpected source) htokens fun _ _ _ => trivial
  rw [hrefused] at halike
  cases halike with
  | error hfailure => exact hfailure diagnostic rfl

end Parsing

/-- What refuses a token list is a matter of its text. -/
theorem refusedFor_parse (tokens : List Token) (source : Source) :
    (parse tokens source).RefusedFor .parse := by
  rw [Outcome.refusedFor_iff]
  exact refusedBy_parse Cause.stage_unexpected tokens source

/-! ## Programs -/

/-- What refuses a tree, of whatever shape it is, is a matter of its text. -/
theorem refusedFor_lower (tree : SyntaxNode) (source : Source) :
    (lower tree source).RefusedFor .parse := by
  intro diagnostic hrefused
  have hblames := Lowering.program_blames (.ofTree source tree) (.top tree)
  rcases Outcome.bind_eq_error hrefused with hrun | ⟨_, -, hpure⟩
  · exact hblames.of_error hrun
  · nomatch hpure

/-- A source is refused for its text. -/
theorem refusedFor_parseProgram (source : Source) : (parseProgram source).RefusedFor .parse :=
  (refusedFor_tokenize source).bind fun tokens =>
    (refusedFor_parse tokens source).bind fun tree => refusedFor_lower tree source

/-- Every refusal belongs to the stage that it comes from: of sources, of token lists, of trees of
whatever shape, and of programs, whatever the checker knows. -/
theorem refusedFor_stages (source : Source) (tokens : List Token) (tree : SyntaxNode)
    (checker : Checker) (program : Program Location) :
    (tokenize source).RefusedFor .parse ∧ (parse tokens source).RefusedFor .parse ∧
      (lower tree source).RefusedFor .parse ∧ (parseProgram source).RefusedFor .parse ∧
      ∀ diagnostic, (checker.check program).1 = .error diagnostic →
        diagnostic.cause.stage = .typeCheck := by
  refine ⟨refusedFor_tokenize source, refusedFor_parse tokens source, refusedFor_lower tree source,
    refusedFor_parseProgram source, fun diagnostic hrefused => ?_⟩
  have hfaults := Typing.check_blames checker program
  rw [hrefused] at hfaults
  exact hfaults

/-- A character that starts no token, a closing parenthesis on its own, a tree that is no program,
and a name that is not bound: each stage refuses something. -/
theorem refusedFor_stages_each :
    ∃ scanned parsed lowered read checked,
      tokenize ['$'] = .error (.refused scanned) ∧ scanned.cause.stage = .parse ∧
      parse [⟨.closeParen, ")", ⟨0, 1⟩⟩] ['$'] = .error (.refused parsed) ∧
      parsed.cause.stage = .parse ∧
      lower (.leaf .number ⟨0, 1⟩) ['$'] = .error (.refused lowered) ∧
      lowered.cause.stage = .parse ∧
      parseProgram ['$'] = .error (.refused read) ∧ read.cause.stage = .parse ∧
      ((Checker.new .builtins).check
        ⟨default, [], [], [], [.expr default (.id default "x")]⟩).1 = .error checked ∧
      checked.cause.stage = .typeCheck := by
  obtain ⟨onTokens, onTrees, onPrograms, onSources, onTypes⟩ := refusedFor_stages ['$']
    [⟨.closeParen, ")", ⟨0, 1⟩⟩] (.leaf .number ⟨0, 1⟩) (.new .builtins)
    ⟨default, [], [], [], [.expr default (.id default "x")]⟩
  exact ⟨_, _, _, _, _, rfl, onTokens _ rfl, rfl, onTrees _ rfl, rfl, onPrograms _ rfl, rfl,
    onSources _ rfl, rfl, onTypes _ rfl⟩

end Offside
