import Offside.Proofs.Lowering.AlikePrograms
import Offside.Proofs.Parsing.Spans
import Offside.Proofs.Stages

/-!
# What trees of the parser are refused for

The walks over a tree refuse a root that is no script, an operator that is none, and a list whose
elements have neither a comma nor the closing bracket behind them.  The rules of the parser and the
walks agree on the shape of every phrase, so that no source is refused for any of these.

Main definitions:

- `Failure.Fits`: how walks may fail over a tree that fits them.

Main results:

- Theorem `fits_of_lower`: the trees of the parser fit the walks over them.
- Theorem `parseProgram_fits`: no source is refused for a mismatch.
-/

namespace Offside

variable {source : Source} {tokens : List Token} {tree : SyntaxNode} {failure : Failure}

/-! ## Trees -/

/-- How a walk over a tree that fits it may fail: for want of steps, or with a refusal that is for
no mismatch. -/
def Failure.Fits : Failure → Prop
  | .refused diagnostic => diagnostic.cause.isMismatch = false
  | .offBoundary => False
  | .unfinished => True

/-- Every node is as the grammar says and starts where the source can be cut, and walks fail as
those over trees that fit them. -/
def placed (source : Source) : Likeness where
  token _ _ := True
  node node node' := node = node' ∧ node.HasContent source ∧ Cuts source node.span.start
  failure failure _ := failure.Fits

/-- A tree whose nodes are as the grammar says goes together with itself. -/
theorem placed_lowering (source : Source) (tree : SyntaxNode) :
    Lowering.Alike (placed source) (.ofTree source tree) (.ofTree source tree) where
  limit := rfl
  content h := h.2.1
  location := by
    rintro node _ ⟨rfl, -, hcuts⟩
    obtain ⟨location, hlocate⟩ := hcuts.location
    exact ⟨location, hlocate, hlocate⟩
  leaf h _ := congrArg _ (congrArg SyntaxNode.span h.1)
  text := by
    rintro node _ ⟨rfl, -⟩ word -
    exact Iff.rfl
  refused hfits _ := hfits
  unfinished := trivial

/-- The trees of the parser fit the walks over them. -/
theorem fits_of_lower (htokens : tokenize source = .ok tokens)
    (hparse : parse tokens source = .ok tree) (h : lower tree source = .error failure) :
    failure.Fits := by
  have hcontent := allHaveContent_of_parse htokens hparse
  have htree : tree.Alike (placed source).node tree := by
    refine SyntaxNode.alike_self fun node hnode => ⟨rfl, hcontent node hnode, ?_⟩
    exact (parse_covers htokens hparse node hnode).elim fun _ hcovers => hcovers.cuts
  have hlower := lower_alike (placed_lowering source tree) (parse_root hparse).1 htree
  rw [h] at hlower
  cases hlower with
  | error hfits => exact hfits

/-! ## Sources -/

/-- What the parser refuses a token for is no mismatch. -/
theorem isMismatch_unexpected (reason : Option String) (token : Token) :
    (Cause.unexpected reason token).isMismatch = false := by
  cases reason <;> rfl

/-- What refuses a source is no mismatch between its tree and the walks over it. -/
theorem refusedBy_parseProgram (source : Source) :
    (parseProgram source).RefusedBy fun cause => cause.isMismatch = false := by
  have htokenize : (tokenize source).RefusedBy fun cause => cause.isMismatch = false :=
    refusedBy_tokenize (fun _ => rfl) rfl
  refine htokenize.bind fun tokens htokens => ?_
  refine (refusedBy_parse isMismatch_unexpected tokens source).bind fun tree hparse => ?_
  exact fun diagnostic hlower => fits_of_lower htokens hparse hlower

/-- No source is refused because its tree is no script, has an operator that is none, or a list
whose elements are not set off by commas. -/
theorem parseProgram_fits {diagnostic : Diagnostic}
    (h : parseProgram source = .error (.refused diagnostic)) :
    diagnostic.cause ≠ .invalidProgram ∧ (∀ op, diagnostic.cause ≠ .unknownOperator op) ∧
      ∀ text, diagnostic.cause ≠ .malformedList text := by
  have hfits := refusedBy_parseProgram source diagnostic h
  refine ⟨?_, fun op => ?_, fun text => ?_⟩
  all_goals
    intro hcause
    rw [hcause] at hfits
    nomatch hfits

/-- A list of operations without its closing bracket is refused for the bracket. -/
theorem parseProgram_fits_openList :
    ∃ diagnostic, parseProgram "[not a, 1 + -2".toList = .error (.refused diagnostic) ∧
      diagnostic.cause.name = "MissingDelimiter" ∧
      diagnostic.cause ≠ .invalidProgram ∧ (∀ op, diagnostic.cause ≠ .unknownOperator op) ∧
      ∀ text, diagnostic.cause ≠ .malformedList text := by
  have hname : (match parseProgram "[not a, 1 + -2".toList with
      | .error (.refused diagnostic) => diagnostic.cause.name
      | _ => "") = "MissingDelimiter" := by
    decide +kernel
  split at hname
  · next diagnostic hrefused => exact ⟨diagnostic, hrefused, hname, parseProgram_fits hrefused⟩
  · exact absurd hname (by decide)

end Offside
