import Offside.Syntax.Node
import Mathlib.Data.List.Basic

/-!
# Nodes of a tree

The nodes of a syntax tree from left to right, parents before their children; those of them
that are leaves; and how many nodes there are.

Main definitions:

- `SyntaxKind.isLeaf`: the kinds of nodes that stand for one token each.
- `SyntaxNode.nodes` and `SyntaxNode.leaves`: all nodes and all leaves of a tree.
-/

namespace Offside

/-- Whether a node of a kind is a leaf, which stands for one token. -/
def SyntaxKind.isLeaf : SyntaxKind → Bool
  | .variableName | .propertyName | .number | .boolean | .none | .string
  | .keyword | .punctuation | .operator | .assignOp => true
  | _ => false

namespace SyntaxNode

/-! ## Sizes -/

/-- A leaf is one node. -/
@[simp]
theorem size_leaf (kind : SyntaxKind) (span : Span) :
    (SyntaxNode.leaf kind span).size = 1 := rfl

/-- An inner node adds itself to the nodes of its children. -/
@[simp]
theorem size_branch (kind : SyntaxKind) (children : List SyntaxNode) :
    (SyntaxNode.branch kind children).size = sizes children + 1 := rfl

/-- No trees have no nodes. -/
@[simp]
theorem sizes_nil : sizes [] = 0 := rfl

/-- The nodes of trees in a row are those of the first one and of the others. -/
@[simp]
theorem sizes_cons (node : SyntaxNode) (rest : List SyntaxNode) :
    sizes (node :: rest) = node.size + sizes rest := rfl

/-- The nodes of two rows of trees are those of both. -/
@[simp]
theorem sizes_append (nodes more : List SyntaxNode) :
    sizes (nodes ++ more) = sizes nodes + sizes more := by
  induction nodes with
  | nil => simp
  | cons node nodes ih =>
    rw [List.cons_append, sizes_cons, sizes_cons, ih]
    omega

/-- Every tree has a node. -/
theorem size_pos (node : SyntaxNode) : 0 < node.size := by
  cases node
  exact Nat.succ_pos _

/-- Trees in a row have at least one node each. -/
theorem length_le_sizes (nodes : List SyntaxNode) :
    nodes.length ≤ sizes nodes := by
  induction nodes with
  | nil => simp
  | cons node nodes ih =>
    have hpos := node.size_pos
    rw [List.length_cons, sizes_cons]
    omega

/-- A child is smaller than its parent. -/
theorem size_lt_of_mem {node child : SyntaxNode} (h : child ∈ node.children) :
    child.size < node.size := by
  rcases node with ⟨kind, span, children⟩
  have hle : child.size ≤ sizes children := by
    induction children with
    | nil => cases h
    | cons first rest ih =>
      rw [sizes_cons]
      rcases List.mem_cons.mp h with rfl | hrest
      · exact Nat.le_add_right _ _
      · exact Nat.le_trans (ih hrest) (Nat.le_add_left _ _)
  exact Nat.lt_succ_of_le hle

/-! ## Nodes -/

mutual

/-- The nodes of a tree, each before those below it. -/
def nodes : SyntaxNode → List SyntaxNode
  | ⟨kind, span, children⟩ => ⟨kind, span, children⟩ :: nodesOf children

/-- The nodes of several trees. -/
def nodesOf : List SyntaxNode → List SyntaxNode
  | [] => []
  | node :: rest => nodes node ++ nodesOf rest

end

/-- The leaves of a tree, from left to right. -/
def leaves (tree : SyntaxNode) : List SyntaxNode := tree.nodes.filter fun node => node.kind.isLeaf

/-- The nodes of a tree are its root and those of its children. -/
theorem nodes_eq (tree : SyntaxNode) : tree.nodes = tree :: nodesOf tree.children := by
  cases tree
  rfl

/-- The nodes of trees in a row are those of each. -/
theorem nodesOf_eq_flatMap (trees : List SyntaxNode) : nodesOf trees = trees.flatMap nodes := by
  induction trees with
  | nil => rfl
  | cons tree trees ih => rw [nodesOf, ih, List.flatMap_cons]

/-- The root is a node of its tree. -/
theorem mem_nodes_self (tree : SyntaxNode) : tree ∈ tree.nodes := by
  rw [nodes_eq]
  exact List.mem_cons_self

/-- The nodes of a child are nodes of its parent. -/
theorem mem_nodes_of_mem {tree child node : SyntaxNode} (hchild : child ∈ tree.children)
    (hnode : node ∈ child.nodes) : node ∈ tree.nodes := by
  rw [nodes_eq, nodesOf_eq_flatMap]
  exact List.mem_cons_of_mem _ (List.mem_flatMap.mpr ⟨child, hchild, hnode⟩)

/-- A node of a tree is the root or a node of a child. -/
theorem mem_nodes {tree node : SyntaxNode} :
    node ∈ tree.nodes ↔ node = tree ∨ ∃ child ∈ tree.children, node ∈ child.nodes := by
  rw [nodes_eq, nodesOf_eq_flatMap, List.mem_cons, List.mem_flatMap]

/-- What stands below a node of a tree stands below the root, in one piece. -/
theorem nodes_run {tree node : SyntaxNode} (h : node ∈ tree.nodes) :
    node.nodes <:+: tree.nodes := by
  induction hsize : tree.size using Nat.strongRecOn generalizing tree with
  | ind size ih =>
    subst hsize
    rcases mem_nodes.mp h with rfl | ⟨child, hchild, hmem⟩
    · exact List.infix_rfl
    · refine (ih _ (size_lt_of_mem hchild) hmem rfl).trans ?_
      rw [nodes_eq tree, nodesOf_eq_flatMap]
      exact List.infix_cons (List.infix_flatMap_of_mem hchild nodes)

/-- So do the leaves. -/
theorem leaves_run {tree node : SyntaxNode} (h : node ∈ tree.nodes) :
    node.leaves <:+: tree.leaves :=
  (nodes_run h).filter _

/-- The leaves of a tree whose root is none are those of its children. -/
theorem leaves_eq_flatMap {tree : SyntaxNode} (h : tree.kind.isLeaf = false) :
    tree.leaves = tree.children.flatMap leaves := by
  rw [leaves, nodes_eq, nodesOf_eq_flatMap, List.filter_cons_of_neg (by simp [h]),
    List.filter_flatMap]
  rfl

/-- A leaf is its only leaf. -/
@[simp]
theorem leaves_leaf {kind : SyntaxKind} (h : kind.isLeaf = true) (span : Span) :
    (leaf kind span).leaves = [leaf kind span] := by
  simp [leaves, leaf, nodes, nodesOf, h]

end SyntaxNode
end Offside
