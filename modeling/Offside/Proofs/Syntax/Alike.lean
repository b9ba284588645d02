import Offside.Proofs.Syntax.Nodes
import Mathlib.Data.List.Forall2

/-!
# Trees that are alike

Two trees of the same shape, whose nodes go together one by one.  What two nodes have in common
besides their kind is left open.

Main definitions:

- `SyntaxNode.Alike`: two trees are the same up to a relation of their nodes.

Main results:

- Theorem `alike_iff`: two nodes are alike when they go together and their children are alike.
- Theorem `Alike.of_mem`: what is known of the nodes of a tree may be added to the relation.
-/

namespace Offside

/-- What is related to two lists in a row is made up of what is related to each of them. -/
theorem forall₂_append_left {α β : Type} {R : α → β → Prop} {xs more : List α} {ys : List β}
    (h : List.Forall₂ R (xs ++ more) ys) :
    ∃ first rest, ys = first ++ rest ∧ List.Forall₂ R xs first ∧ List.Forall₂ R more rest := by
  induction xs generalizing ys with
  | nil => exact ⟨[], ys, rfl, .nil, h⟩
  | cons x xs ih =>
    rw [List.cons_append, List.forall₂_cons_left_iff] at h
    obtain ⟨y, ys, hy, hys, rfl⟩ := h
    obtain ⟨first, rest, rfl, hfirst, hrest⟩ := ih hys
    exact ⟨y :: first, rest, rfl, .cons hy hfirst, hrest⟩

namespace SyntaxNode

variable {rel rel' : SyntaxNode → SyntaxNode → Prop} {tree tree' : SyntaxNode}

mutual

/-- Two trees have the same shape and kinds, and their nodes are related one by one. -/
def Alike (rel : SyntaxNode → SyntaxNode → Prop) : SyntaxNode → SyntaxNode → Prop
  | ⟨kind, span, children⟩, other =>
    kind = other.kind ∧ rel ⟨kind, span, children⟩ other ∧ AllAlike rel children other.children

/-- Two rows of trees are alike one by one. -/
def AllAlike (rel : SyntaxNode → SyntaxNode → Prop) : List SyntaxNode → List SyntaxNode → Prop
  | [], others => others = []
  | tree :: trees, others =>
    ∃ other rest, others = other :: rest ∧ Alike rel tree other ∧ AllAlike rel trees rest

end

/-- Rows of trees are alike if their trees are, one by one. -/
theorem allAlike_iff {trees trees' : List SyntaxNode} :
    AllAlike rel trees trees' ↔ List.Forall₂ (Alike rel) trees trees' := by
  induction trees generalizing trees' with
  | nil => simp [AllAlike]
  | cons tree trees ih =>
    rw [List.forall₂_cons_left_iff, AllAlike]
    simp only [ih]
    constructor
    · rintro ⟨other, rest, rfl, htree, hrest⟩
      exact ⟨other, rest, htree, hrest, rfl⟩
    · rintro ⟨other, rest, htree, hrest, rfl⟩
      exact ⟨other, rest, rfl, htree, hrest⟩

/-- Two trees are alike when their roots go together and their children are alike. -/
theorem alike_iff : tree.Alike rel tree' ↔ tree.kind = tree'.kind ∧ rel tree tree' ∧
    List.Forall₂ (Alike rel) tree.children tree'.children := by
  rw [← allAlike_iff]
  cases tree
  rfl

namespace Alike

/-- Trees that are alike are of the same kind. -/
theorem kind_eq (h : tree.Alike rel tree') : tree.kind = tree'.kind := (alike_iff.mp h).1

/-- Their roots go together. -/
theorem root (h : tree.Alike rel tree') : rel tree tree' := (alike_iff.mp h).2.1

/-- So do the trees below the roots. -/
theorem children (h : tree.Alike rel tree') :
    List.Forall₂ (Alike rel) tree.children tree'.children :=
  (alike_iff.mp h).2.2

/-- Leaves of one kind are alike if they go together. -/
theorem leaf {kind : SyntaxKind} {span span' : Span}
    (h : rel (.leaf kind span) (.leaf kind span')) :
    Alike rel (.leaf kind span) (.leaf kind span') :=
  alike_iff.mpr ⟨rfl, h, .nil⟩

/-- Inner nodes of one kind are alike if they go together and the trees below them are alike. -/
theorem branch {kind : SyntaxKind} {nodes nodes' : List SyntaxNode}
    (hnodes : List.Forall₂ (Alike rel) nodes nodes')
    (h : rel (.branch kind nodes) (.branch kind nodes')) :
    Alike rel (.branch kind nodes) (.branch kind nodes') :=
  alike_iff.mpr ⟨rfl, h, hnodes⟩

end Alike

mutual

/-- Trees that are alike have the same size. -/
theorem Alike.size_eq : ∀ {tree tree' : SyntaxNode}, tree.Alike rel tree' → tree.size = tree'.size
  | ⟨_, _, _⟩, ⟨_, _, _⟩, ⟨_, _, hchildren⟩ => congrArg (· + 1) (AllAlike.sizes_eq hchildren)

/-- So have rows of trees. -/
theorem AllAlike.sizes_eq :
    ∀ {trees trees' : List SyntaxNode}, AllAlike rel trees trees' → sizes trees = sizes trees'
  | [], _, rfl => rfl
  | _ :: _, _, ⟨_, _, rfl, htree, htrees⟩ =>
    congrArg₂ (· + ·) (Alike.size_eq htree) (AllAlike.sizes_eq htrees)

end

mutual

/-- Alike trees are alike in another way, if the nodes of the first are. -/
theorem Alike.of_mem : ∀ {tree tree' : SyntaxNode}, tree.Alike rel tree' →
    (∀ node ∈ tree.nodes, ∀ node', rel node node' → rel' node node') → tree.Alike rel' tree'
  | ⟨_, _, _⟩, ⟨_, _, _⟩, ⟨hkind, hroot, hchildren⟩, h =>
    ⟨hkind, h _ List.mem_cons_self _ hroot,
      AllAlike.of_mem hchildren fun node hnode => h node (List.mem_cons_of_mem _ hnode)⟩

/-- So it is for rows of trees. -/
theorem AllAlike.of_mem : ∀ {trees trees' : List SyntaxNode}, AllAlike rel trees trees' →
    (∀ node ∈ nodesOf trees, ∀ node', rel node node' → rel' node node') →
      AllAlike rel' trees trees'
  | [], _, rfl, _ => rfl
  | _ :: _, _, ⟨other, rest, rfl, htree, htrees⟩, h =>
    ⟨other, rest, rfl, Alike.of_mem htree fun node hnode => h node (List.mem_append_left _ hnode),
      AllAlike.of_mem htrees fun node hnode => h node (List.mem_append_right _ hnode)⟩

end

mutual

/-- Each tree is alike itself. -/
theorem alike_refl : ∀ tree : SyntaxNode, tree.Alike Eq tree
  | ⟨_, _, children⟩ => ⟨rfl, rfl, allAlike_refl children⟩

/-- So is each row of trees. -/
theorem allAlike_refl : ∀ trees : List SyntaxNode, AllAlike Eq trees trees
  | [] => rfl
  | tree :: trees => ⟨tree, trees, rfl, alike_refl tree, allAlike_refl trees⟩

end

/-- A tree is like itself if each of its nodes goes together with itself. -/
theorem alike_self (h : ∀ node ∈ tree.nodes, rel node node) : tree.Alike rel tree :=
  (alike_refl tree).of_mem fun node hnode _ heq => heq ▸ h node hnode

end SyntaxNode
end Offside
