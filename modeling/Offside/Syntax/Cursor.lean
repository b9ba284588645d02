import Offside.Syntax.Node

/-!
# Cursors

A place in a syntax tree, with moves to the first child, to the next sibling and to the
parent.  A move fails where there is no such node.
-/

namespace Offside

/-- A node of a tree together with the way to it: its ancestors, the nearest first, each
with the index of the child through which the way goes. -/
structure Cursor where
  node : SyntaxNode
  path : List (SyntaxNode × Nat)
  deriving Repr, Inhabited

namespace Cursor

/-- The cursor at the root of a tree. -/
def top (root : SyntaxNode) : Cursor := ⟨root, []⟩

/-- The first child. -/
def firstChild? (c : Cursor) : Option Cursor :=
  match c.node.children with
  | [] => none
  | child :: _ => some ⟨child, (c.node, 0) :: c.path⟩

/-- The sibling to the right. -/
def nextSibling? (c : Cursor) : Option Cursor :=
  match c.path with
  | [] => none
  | (parent, index) :: above =>
    (parent.children[index + 1]?).map fun sibling => ⟨sibling, (parent, index + 1) :: above⟩

/-- The parent. -/
def parent? (c : Cursor) : Option Cursor :=
  match c.path with
  | [] => none
  | (parent, _) :: above => some ⟨parent, above⟩

/-- The child with an index. -/
def child? (c : Cursor) (index : Nat) : Option Cursor :=
  (c.node.children[index]?).map fun child => ⟨child, (c.node, index) :: c.path⟩

/-- The node reached by descending along child indices. -/
def descend? (c : Cursor) : List Nat → Option Cursor
  | [] => some c
  | index :: rest => (c.child? index).bind (·.descend? rest)

end Cursor

/-- The three moves of a cursor. -/
inductive Move where
  | firstChild
  | nextSibling
  | parent
  deriving DecidableEq, Repr

/-- Where a move leads, if anywhere. -/
def Move.target? : Move → Cursor → Option Cursor
  | .firstChild, c => c.firstChild?
  | .nextSibling, c => c.nextSibling?
  | .parent, c => c.parent?

end Offside
