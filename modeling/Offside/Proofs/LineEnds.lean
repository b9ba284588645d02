import Offside.Proofs.Layout.LineEnds
import Offside.Proofs.WithinBounds

/-!
# Line ends do not matter

For every source, the source with a carriage return in front of every line feed has the same tokens
but for their places, the same program with the same locations, and the same types; or both sources
are refused for causes of the same name on the same line.

Main definitions:

- `MirroredNode`: two nodes of the trees of the two sources go together.

Main results:

- Theorems `parse_mirrors` and `lower_mirrors`: trees and programs go together.
- Theorem `checkProgram_withReturns`: checking does not depend on the line ends.
-/

namespace Offside

open Source

variable {source : Source} {tokens tokens' : List Token} {tree tree' : SyntaxNode}

/-! ## Trees -/

/-- Two nodes go together: they are in front of and behind the same characters, and a leaf is a
text of one line. -/
structure MirroredNode (source : Source) (node node' : SyntaxNode) : Prop where
  start : Mirrored source node.span.start node'.span.start
  stop : Mirrored source node.span.stop node'.span.stop
  leaf : node.kind.isLeaf = true → ∃ text, Covers source node.span text ∧ withReturns text = text

/-- From the first to the last of two rows of trees, the same characters are spanned. -/
theorem mirrored_spanOf {nodes nodes' : List SyntaxNode}
    (h : List.Forall₂ (SyntaxNode.Alike (MirroredNode source)) nodes nodes') :
    Mirrored source (SyntaxNode.spanOf nodes).start (SyntaxNode.spanOf nodes').start ∧
      Mirrored source (SyntaxNode.spanOf nodes).stop (SyntaxNode.spanOf nodes').stop := by
  have hfirst := rel_getElem? h 0
  have hlast := rel_getElem? h (nodes.length - 1)
  rw [← List.head?_eq_getElem?, ← List.head?_eq_getElem?] at hfirst
  rw [← List.getLast?_eq_getElem?, h.length_eq, ← List.getLast?_eq_getElem?] at hlast
  unfold SyntaxNode.spanOf
  generalize nodes.head? = first at hfirst ⊢
  generalize nodes'.head? = first' at hfirst ⊢
  generalize nodes.getLast? = last at hlast ⊢
  generalize nodes'.getLast? = last' at hlast ⊢
  cases hfirst with
  | none => exact ⟨.zero source, .zero source⟩
  | some hstart =>
    cases hlast with
    | none => exact ⟨.zero source, .zero source⟩
    | some hstop => exact ⟨hstart.root.start, hstop.root.stop⟩

/-- What parsing a source and the source with carriage returns has in common. -/
def mirroring (source : Source) : Likeness where
  token := Token.Mirrors source
  node := MirroredNode source
  failure := RefusedAlike

/-- The parser makes mirrored nodes of mirrored tokens. -/
theorem alike_mirroring (source : Source) :
    Parser.Alike (mirroring source) ⟨source, .standard⟩ ⟨source.withReturns, .standard⟩ where
  grammar := rfl
  grammar' := rfl
  kind h := h.kind_eq
  refuse reason h _ _ _ := refuseAt_alike h.start (Cause.name_unexpected reason _ _)
  leaf := by
    intro token token' kind h hvisible _
    simp only [TokenKind.isVisible, Bool.and_eq_true, Bool.not_eq_true'] at hvisible
    have hword : MirroredWord source token.span token'.span := h.word hvisible.2
    exact ⟨hword.start, hword.stop, fun _ => hword.oneLine⟩
  branch := by
    intro kind nodes nodes' hkind hnodes
    obtain ⟨hstart, hstop⟩ := mirrored_spanOf hnodes
    exact ⟨hstart, hstop, fun hleaf => (Bool.false_ne_true (hkind.symm.trans hleaf)).elim⟩

/-- The trees of the two sources go together, or both are refused on the same line. -/
theorem parse_mirrors (htokens : tokenize source = .ok tokens)
    (htokens' : tokenize source.withReturns = .ok tokens')
    (h : List.Forall₂ (Token.Mirrors source) tokens tokens') :
    Outcome.Alike RefusedAlike (SyntaxNode.Alike (MirroredNode source)) (parse tokens source)
      (parse tokens' source.withReturns) := by
  have hall : List.Forall₂ (mirroring source).token
      (TokenStream.complete tokens (byteSize source))
      (TokenStream.complete tokens' (byteSize source.withReturns)) := by
    rw [complete_of_tokenize htokens, complete_of_tokenize htokens']
    exact h
  have hstop : Mirrored source (byteSize source) (byteSize source.withReturns) :=
    ⟨source, [], (List.append_nil source).symm, rfl, rfl⟩
  exact parse_alike (alike_mirroring source) hall fun _ _ _ => ⟨.zero source, hstop, nofun⟩

/-! ## Programs -/

/-- What walking over the trees of the two sources has in common. -/
def mirroringWalks (source : Source) : Likeness where
  token _ _ := True
  node node node' := MirroredNode source node node' ∧ node.HasContent source
  failure failure failure' := failure = .unfinished ∨ RefusedAlike failure failure'

/-- Walks over mirrored trees keep to the likeness of their nodes. -/
theorem mirroring_lowering (h : tree.size = tree'.size) :
    Lowering.Alike (mirroringWalks source) (.ofTree source tree)
      (.ofTree source.withReturns tree') where
  limit := congrArg (fun size => 8 * (size + 1)) h
  content h := h.2
  location := by
    rintro node node' ⟨h, -⟩
    obtain ⟨location, hleft, hright⟩ := h.start.location?
    exact ⟨location, by rw [Outcome.locate, Lowering.ofTree, hleft],
      by rw [Outcome.locate, Lowering.ofTree, hright]⟩
  leaf := by
    rintro node node' ⟨h, -⟩ hleaf
    obtain ⟨text, hcovers, hline⟩ := h.leaf hleaf
    have hslice' := h.start.slice?_eq h.stop
    rw [hcovers.slice?_eq, Option.map_some, hline] at hslice'
    exact congrArg (fun slice => String.ofList (Option.getD slice []))
      (hcovers.slice?_eq.trans hslice'.symm)
  text := by
    rintro node node' ⟨h, -⟩ word hword
    have hslice' := h.start.slice?_eq h.stop
    unfold Lowering.textOf Lowering.ofTree
    dsimp only
    rw [show node'.span = ⟨node'.span.start, node'.span.stop⟩ from rfl, hslice']
    cases slice? source node.span with
    | none => exact Iff.rfl
    | some text => exact eq_word_iff text hword
  refused _ hname := .inr ⟨_, _, rfl, rfl, hname, rfl⟩
  unfinished := .inl rfl

/-- The programs of the two sources are the same, or both are refused on the same line. -/
theorem lower_mirrors (htokens : tokenize source = .ok tokens)
    (hparse : parse tokens source = .ok tree)
    (h : tree.Alike (MirroredNode source) tree') :
    Outcome.Alike RefusedAlike Eq (lower tree source) (lower tree' source.withReturns) := by
  have hcontent := allHaveContent_of_parse htokens hparse
  have htree : tree.Alike (mirroringWalks source).node tree' :=
    h.of_mem fun node hnode node' hmirrored => ⟨hmirrored, hcontent node hnode⟩
  refine (lower_alike (mirroring_lowering h.size_eq) (parse_root hparse).1 htree).mono_failure ?_
  intro failure failure' hlower hfailure
  obtain ⟨diagnostic, rfl⟩ := refused_of_lower htokens hparse hlower
  exact hfailure.resolve_left nofun

/-- The programs of a source and of that with carriage returns are the same. -/
theorem parseProgram_mirrors (source : Source) :
    Outcome.Alike RefusedAlike Eq (parseProgram source) (parseProgram source.withReturns) := by
  refine (tokenize_mirrors source).bind_of_eq fun tokens tokens' htokens htokens' h => ?_
  refine (parse_mirrors htokens htokens' h).bind_of_eq fun tree tree' hparse _ htree => ?_
  exact lower_mirrors htokens hparse htree

/-- Line ends do not matter.  A source with a carriage return in front of every line feed has
tokens exactly if the source has, and then of the same kinds and texts; it is accepted in an
environment exactly if the source is, and then the typed programs with their locations and the
environments are the same; and when they are refused, it is for causes of the same name on the same
line. -/
theorem checkProgram_withReturns (source : Source) (env : Env) :
    Outcome.Alike RefusedAlike
      (fun tokens tokens' => tokens.map Token.kind = tokens'.map Token.kind ∧
        tokens.map Token.text = tokens'.map Token.text)
      (tokenize source) (tokenize source.withReturns) ∧
    Outcome.Alike RefusedAlike Eq (checkProgram source env)
      (checkProgram source.withReturns env) := by
  constructor
  · refine (tokenize_mirrors source).mono fun tokens tokens' h => ?_
    induction h with
    | nil => exact ⟨rfl, rfl⟩
    | cons htoken _ ih =>
      exact ⟨congrArg₂ List.cons htoken.kind_eq ih.1, congrArg₂ List.cons htoken.text_eq ih.2⟩
  · refine (parseProgram_mirrors source).bind ?_
    rintro program _ rfl
    cases typeCheck env program with
    | ok result => exact .ok rfl
    | error diagnostic => exact .error ⟨_, _, rfl, rfl, rfl, rfl⟩

end Offside
