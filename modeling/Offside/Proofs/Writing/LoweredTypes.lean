import Offside.Lowering.Types
import Offside.Proofs.Writing.LoweredLists

/-!
# Lowered types

Which type a syntax tree stands for: the one that the walk over types gives, wherever the tree is
part of a larger one.  There is one lemma for each form of type.

Main definitions:

- `StandsForTy`: a tree stands for a type.

Main results:

- Theorems `StandsForTy.name`, `StandsForTy.none`, `StandsForTy.list` and `StandsForTy.object`: what
  a tree stands for, given what its parts stand for.
-/

namespace Offside

/-- A node of the tree of a source stands for a type: it starts at a place of the source, it is no
keyword or mark, and the walk over types gives the type and comes back. -/
structure StandsForTy (source : Source) (node : SyntaxNode) (ty : Ty) : Prop where
  cuts : Cuts source node.span.start
  phrase : node.kind.isFixedText = false
  lowers : ∀ (l : Lowering) (fuel : Nat), l.source = source → node.size ≤ l.limit →
    node.size ≤ fuel → ∀ path, Runs (l.tyWithin fuel) ⟨node, path⟩ ty ⟨node, path⟩

/-- The refusal of a node as a type is made, whether it is used or not. -/
theorem Runs.invalidType (l : Lowering) (node : SyntaxNode) (path : List (SyntaxNode × Nat))
    (h : Cuts l.source node.span.start) :
    ∃ failure, Runs l.invalidType ⟨node, path⟩ failure ⟨node, path⟩ := by
  obtain ⟨a, ha⟩ := Runs.location h
  exact ⟨_, .bind .text (.bind (ha path) (.pure _ _))⟩

/-- The walk over a type is one over the types inside. -/
theorem StandsForTy.of_walk {source : Source} {node : SyntaxNode} {ty : Ty}
    (cuts : Cuts source node.span.start) (phrase : node.kind.isFixedText = false)
    (hwalk : ∀ (l : Lowering) (fuel : Nat), l.source = source → node.size ≤ l.limit →
      node.size ≤ fuel + 1 →
        ∀ path, Runs (l.tyWith (l.tyWithin fuel)) ⟨node, path⟩ ty ⟨node, path⟩) :
    StandsForTy source node ty where
  cuts := cuts
  phrase := phrase
  lowers := by
    intro l fuel hsource hlimit hfuel path
    obtain ⟨fuel, rfl⟩ : ∃ n, fuel = n + 1 := by
      have hpos := node.size_pos
      exact ⟨fuel - 1, by omega⟩
    exact hwalk l fuel hsource hlimit hfuel path

/-- The walk over types gives what nodes stand for. -/
theorem SeparatedMore.givesTys (l : Lowering) (fuel : Nat) {nodes : List SyntaxNode}
    {tys : List Ty} (h : SeparatedMore l.source (StandsForTy l.source) nodes tys)
    (hlimit : SyntaxNode.sizes nodes ≤ l.limit) (hfuel : SyntaxNode.sizes nodes ≤ fuel) :
    SeparatedMore l.source (Given (l.tyWithin fuel)) nodes tys := by
  induction h with
  | nil => exact .nil
  | cons comma onNext onMore ih =>
    simp only [SyntaxNode.sizes_cons, SyntaxNode.size_leaf] at hlimit hfuel
    have hnext := onNext.lowers l fuel rfl (by omega) (by omega)
    exact .cons comma ⟨onNext.phrase, hnext⟩ (ih (by omega) (by omega))

theorem Separated.givesTys (l : Lowering) (fuel : Nat) {nodes : List SyntaxNode} {tys : List Ty}
    (h : Separated l.source (StandsForTy l.source) nodes tys)
    (hlimit : SyntaxNode.sizes nodes ≤ l.limit) (hfuel : SyntaxNode.sizes nodes ≤ fuel) :
    Separated l.source (Given (l.tyWithin fuel)) nodes tys := by
  cases h with
  | nil => exact .nil
  | cons onFirst onMore =>
    rw [SyntaxNode.sizes_cons] at hlimit hfuel
    have hfirst := onFirst.lowers l fuel rfl (by omega) (by omega)
    exact .cons ⟨onFirst.phrase, hfirst⟩ (onMore.givesTys l fuel (by omega) (by omega))

section Forms

variable {source : Source} {span opening closing : Span}

theorem StandsForTy.name {name : String} (covers : Covers source span name.toList) :
    StandsForTy source (.leaf .variableName span) (Lowering.typeOfName name) := by
  refine .of_walk covers.cuts rfl ?_
  rintro l fuel rfl - - path
  exact .bind .kind (.bind (.text_eq covers) (.pure _ _))

theorem StandsForTy.none (covers : Covers source span "None".toList) :
    StandsForTy source (.leaf .none span) .none := by
  refine .of_walk covers.cuts rfl ?_
  rintro l fuel rfl - - path
  exact .bind .kind (.pure _ _)

/-- A list of one type. -/
theorem StandsForTy.list {node : SyntaxNode} {element : Ty}
    (onOpening : Covers source opening "[".toList) (onElement : StandsForTy source node element)
    (onClosing : Covers source closing "]".toList) :
    StandsForTy source (.branch .arrayExpression
      [.leaf .punctuation opening, node, .leaf .punctuation closing]) (.list element) := by
  refine .of_walk onOpening.cuts rfl ?_
  rintro l fuel rfl hlimit hfuel path
  simp only [SyntaxNode.size_branch, SyntaxNode.size_leaf, SyntaxNode.sizes_cons,
    SyntaxNode.sizes_nil] at hlimit hfuel
  have helement := onElement.lowers l fuel rfl (by omega) (by omega)
  obtain ⟨failure, hinvalid⟩ := Runs.invalidType l (.branch .arrayExpression
    [.leaf .punctuation opening, node, .leaf .punctuation closing]) path onOpening.cuts
  refine .bind .kind (.bind hinvalid (.bind (.enter rfl) (.bind (.nextSibling rfl) ?_)))
  refine .bind (.isToken_phrase onElement.phrase "]") (.bind (helement _) ?_)
  exact .bind (.stepTo rfl onClosing rfl "]") (.bind .leave (.pure _ _))

/-- A name with types in brackets. -/
theorem StandsForTy.object {name : String} {nodes : List SyntaxNode} {tys : List Ty}
    (onName : Covers source span name.toList) (onOpening : Covers source opening "[".toList)
    (h : Separated source (StandsForTy source) nodes tys)
    (onClosing : Covers source closing "]".toList) :
    StandsForTy source (.branch .memberExpression (.leaf .variableName span ::
      .leaf .punctuation opening :: (nodes ++ [.leaf .punctuation closing])))
      (.object name tys) := by
  refine .of_walk onName.cuts rfl ?_
  rintro l fuel rfl hlimit hfuel path
  simp only [SyntaxNode.size_branch, SyntaxNode.size_leaf, SyntaxNode.sizes_cons,
    SyntaxNode.sizes_append, SyntaxNode.sizes_nil] at hlimit hfuel
  have hlength := SyntaxNode.length_le_sizes nodes
  obtain ⟨failure, hinvalid⟩ := Runs.invalidType l (.branch .memberExpression
    (.leaf .variableName span :: .leaf .punctuation opening ::
      (nodes ++ [.leaf .punctuation closing]))) path onName.cuts
  refine .bind .kind (.bind hinvalid (.bind (.enter rfl) (.bind (.text_eq onName) ?_)))
  refine .bind (.bind (.isAt _) (.stepTo rfl onOpening rfl "[")) ?_
  -- the types stand between the brackets
  have hdrop : (SyntaxNode.branch .memberExpression (.leaf .variableName span ::
      .leaf .punctuation opening ::
        (nodes ++ [.leaf .punctuation closing]))).children.drop (1 + 1) =
      nodes ++ [.leaf .punctuation closing] := rfl
  obtain ⟨place, harguments⟩ := Runs.listUntil (h.givesTys l fuel (by omega) (by omega)) "]"
    (.leaf .punctuation opening) path (by decide) onClosing rfl (by omega) hdrop
  exact .bind harguments (.bind .leave (.pure _ _))

end Forms
end Offside
