import Offside.Proofs.Lowering.Moves

/-!
# Descents

The path of a cursor is the way down from the root of its tree.  A node of a tree has a place: the
indices of the children through which one gets to it.  Each move of a cursor leads from a place to a
place, so that it is known where it leads whatever moves have been made before.

Main definitions:

- `Cursor.DescendsFrom`: the path of a cursor records a descent from a root.
- `Cursor.place`: the indices on the path of a cursor, from the root on.
- `Move.goal?`: the place to which a move would lead.

Main results:

- Theorem `Cursor.descendsFrom_iff`: a descent is given by its place.
- Theorem `Walk.go_answers`: a move leads to the node at its goal and says so, or there is none and
  nothing changes.
- Theorem `Walk.exists_runs_moves`: after any moves, the path of a cursor records a descent.
- Theorem `Walk.runs_parent_of_siblings`: behind a node that was entered and any steps to the right,
  the parent is the node that was entered.
-/

namespace Offside

variable {root : SyntaxNode} {c d : Cursor} {index : Nat} {q : List Nat}

namespace Cursor

/-! ## Real descents -/

/-- The path of a cursor records a real descent from a root: each ancestor on it has the next node
of the path, or the current node, as its child at the index on the path, and the first one is the
root. -/
inductive DescendsFrom (root : SyntaxNode) : Cursor → Prop
  | top : DescendsFrom root (.top root)
  | child {node child path index} (above : DescendsFrom root ⟨node, path⟩)
      (isChild : node.children[index]? = some child) :
      DescendsFrom root ⟨child, (node, index) :: path⟩

/-- The indices of the children through which the way of a cursor goes, from the root on. -/
def place (c : Cursor) : List Nat := (c.path.map Prod.snd).reverse

/-- The way to a child is that to its parent, and then its index. -/
@[simp]
theorem place_child (node parent : SyntaxNode) (index : Nat) (path : List (SyntaxNode × Nat)) :
    place ⟨node, (parent, index) :: path⟩ = place ⟨parent, path⟩ ++ [index] := by
  simp [place]

/-- A step down to a child adds its index to the way. -/
theorem place_of_child? (h : c.child? index = some d) : d.place = c.place ++ [index] := by
  rcases child?_eq_some h with ⟨child, -, rfl⟩
  exact place_child child c.node index c.path

/-- Who descends twice descends along both ways. -/
theorem descend?_append (c : Cursor) (p q : List Nat) :
    c.descend? (p ++ q) = (c.descend? p).bind (·.descend? q) := by
  induction p generalizing c with
  | nil => rfl
  | cons index p ih =>
    rw [List.cons_append, descend?, descend?, Option.bind_assoc]
    exact Option.bind_congr fun d _ => ih d

/-- A way of one step leads to a child. -/
@[simp]
theorem descend?_singleton (c : Cursor) (index : Nat) : c.descend? [index] = c.child? index := by
  rw [descend?]
  exact Option.bind_fun_some (c.child? index)

/-- A descent adds its steps to the way. -/
theorem place_of_descend? (h : c.descend? q = some d) : d.place = c.place ++ q := by
  induction q generalizing c with
  | nil =>
    cases h
    exact (List.append_nil _).symm
  | cons index q ih =>
    obtain ⟨e, he, hd⟩ := Option.bind_eq_some_iff.mp h
    rw [ih hd, place_of_child? he, List.append_assoc]
    rfl

/-- What is reached by a descent records it. -/
theorem DescendsFrom.of_descend? (h : c.DescendsFrom root) (hd : c.descend? q = some d) :
    d.DescendsFrom root := by
  induction q generalizing c with
  | nil =>
    cases hd
    exact h
  | cons index q ih =>
    obtain ⟨e, he, hd⟩ := Option.bind_eq_some_iff.mp hd
    rcases child?_eq_some he with ⟨child, hchild, rfl⟩
    exact ih (.child h hchild) hd

/-- A cursor records a real descent if it is the one that is reached by descending to its place. -/
theorem descendsFrom_iff : c.DescendsFrom root ↔ (top root).descend? c.place = some c := by
  constructor
  · intro h
    induction h with
    | top => rfl
    | @child node child path index _ hchild ih =>
      rw [place_child, descend?_append, ih, Option.bind_some, descend?_singleton, child?, hchild]
      rfl
  · exact DescendsFrom.top.of_descend?

end Cursor

/-! ## Moves -/

/-- The place to which a move would lead from a place, if there is a node.  The root has no sibling
and no parent. -/
def Move.goal? : Move → List Nat → Option (List Nat)
  | .firstChild, place => some (place ++ [0])
  | .nextSibling, place => place.getLast?.map fun index => place.dropLast ++ [index + 1]
  | .parent, place => if place = [] then none else some place.dropLast

namespace Cursor

/-- Where a move of a cursor leads is the node at the goal of the move. -/
theorem DescendsFrom.target?_eq (h : c.DescendsFrom root) (move : Move) :
    move.target? c = (move.goal? c.place).bind (Cursor.top root).descend? := by
  have hself := descendsFrom_iff.mp h
  cases move with
  | firstChild =>
    have hchild : c.firstChild? = c.child? 0 := by
      unfold firstChild? child?
      cases c.node.children <;> rfl
    rw [Move.goal?, Option.bind_some, descend?_append, hself, Option.bind_some,
      descend?_singleton]
    exact hchild
  | nextSibling =>
    cases h with
    | top => rfl
    | @child node child path index above hchild =>
      have habove := descendsFrom_iff.mp above
      rw [place_child, Move.goal?, List.getLast?_concat, List.dropLast_concat, Option.map_some,
        Option.bind_some, descend?_append, habove, Option.bind_some, descend?_singleton]
      rfl
  | parent =>
    cases h with
    | top => rfl
    | @child node child path index above hchild =>
      have hne : place ⟨node, path⟩ ++ [index] ≠ [] := by simp
      rw [place_child, Move.goal?, if_neg hne, List.dropLast_concat, Option.bind_some,
        descendsFrom_iff.mp above]
      rfl

end Cursor

/-- A move leads to the node at a goal, and says so; or there is no such node, and it says so and
changes nothing. -/
def Move.Answers (root : SyntaxNode) (move : Move) (c : Cursor) (moved : Bool) (d : Cursor) :
    Prop :=
  (moved = true ∧ ∃ goal, move.goal? c.place = some goal ∧
      (Cursor.top root).descend? goal = some d) ∨
    (moved = false ∧ d = c ∧
      ∀ goal, move.goal? c.place = some goal → (Cursor.top root).descend? goal = none)

namespace Walk

/-- A move from a cursor that records a descent answers as it has to, and leads to one that does. -/
theorem go_answers (h : c.DescendsFrom root) (move : Move) :
    ∃ moved d, Runs (go move) c moved d ∧ move.Answers root c moved d ∧ d.DescendsFrom root := by
  have htarget := h.target?_eq move
  cases hmove : move.target? c with
  | none =>
    have hruns : Runs (go move) c false c := by simp [Runs, go, hmove]
    refine ⟨false, c, hruns, .inr ⟨rfl, rfl, fun goal hgoal => ?_⟩, h⟩
    rw [hmove, hgoal] at htarget
    exact htarget.symm
  | some d =>
    have hruns : Runs (go move) c true d := by simp [Runs, go, hmove]
    rw [hmove] at htarget
    obtain ⟨goal, hgoal, hd⟩ := Option.bind_eq_some_iff.mp htarget.symm
    exact ⟨true, d, hruns, .inl ⟨rfl, goal, hgoal, hd⟩, Cursor.DescendsFrom.top.of_descend? hd⟩

/-- A row of moves from a cursor that records a descent ends at one that does. -/
theorem exists_runs_moves (h : c.DescendsFrom root) (moves : List Move) :
    ∃ answers d, Runs (moves.mapM go) c answers d ∧ d.DescendsFrom root := by
  induction moves generalizing c with
  | nil => exact ⟨[], c, .pure _ _, h⟩
  | cons move moves ih =>
    obtain ⟨moved, e, hmove, -, he⟩ := go_answers h move
    obtain ⟨answers, d, hmoves, hd⟩ := ih he
    refine ⟨moved :: answers, d, ?_, hd⟩
    rw [List.mapM_cons]
    exact .bind hmove (.bind hmoves (.pure _ _))

/-- Steps to the right stay among the children of a node. -/
theorem siblings_under (hd : c.Under d) (count : Nat) :
    Terminates ((List.replicate count Move.nextSibling).mapM go) d fun _ e => c.Under e := by
  induction count generalizing d with
  | zero => exact .pure hd
  | succ count ih =>
    rw [List.replicate_succ, List.mapM_cons]
    apply (nextSibling_under hd).bind
    intro moved e he
    apply (ih he).bind
    intro answers last hlast
    exact .pure hlast

/-- Whoever enters a node, steps to the right as often as they like and goes to the parent is back
at the node on the same path. -/
theorem runs_parent_of_siblings {count : Nat} {answers : List Bool} {e : Cursor}
    (hfirst : Runs (go .firstChild) c true d)
    (hsiblings : Runs ((List.replicate count Move.nextSibling).mapM go) d answers e) :
    Runs (go .parent) e true c := by
  have hchild : c.child? 0 = some d := by
    rcases firstChild_terminates.of_runs hfirst with ⟨-, hchild⟩ | ⟨hfalse, -⟩
    · exact hchild
    · nomatch hfalse
  obtain ⟨index, hunder⟩ := (siblings_under ⟨0, hchild⟩ count).of_runs hsiblings
  rcases Cursor.child?_eq_some hunder with ⟨child, -, rfl⟩
  rfl

end Walk
end Offside
