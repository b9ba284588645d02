import Offside.Proofs.Syntax.Descents

/-!
# Depth-first walks

A cursor can go through a whole tree without any memory but its path: into the first child of a
node, or else to the nearest node to the right, which is the next sibling of the node or of one of
its ancestors.  The order in which it comes to the nodes is that of their places, as words are in a
dictionary.

Main definitions:

- `Walk.stepOut`: the step to the nearest node to the right.
- `Walk.depthFirst`: the walk through all nodes from some node on.
- `Cursor.below`: the cursors at a node and at all nodes below it.

Main results:

- Theorem `Cursor.mem_below`: below a node is what can be reached from it by a descent.
- Theorem `Cursor.below_ordered`: what is below a node is in the order of its places.
- Theorem `Walk.runs_depthFirst`: the walk goes through what is below a node, and then on.
- Theorem `cursor_walks`: what is known of a cursor after any moves, and of the walk through a tree.
-/

namespace Offside

variable {root : SyntaxNode} {c d : Cursor}

namespace Walk

/-! ## The walk -/

/-- Steps to the next sibling, or else to that of the nearest ancestor that has one, at most `limit`
levels up.  Without one, the walk ends at the last ancestor. -/
def stepOut : Nat → Walk Bool
  | 0 => nextSibling
  | limit + 1 => do
    if ← nextSibling then return true
    else if ← parent then stepOut limit
    else return false

/-- Goes on to the next node: the first child, or else the nearest node to the right. -/
def goOn : Walk Bool := do
  if ← firstChild then return true else fun c => stepOut c.path.length c

/-- Goes on from node to node as far as there are any, and gives the cursors on the way; at most
`limit` nodes. -/
def depthFirst : Nat → Walk (List Cursor)
  | 0 => throw .unfinished
  | limit + 1 => do
    let here ← get
    if ← goOn then
      let more ← depthFirst limit
      return here :: more
    else return [here]

/-- Behind a node, the walk steps out and goes through some more nodes, or it ends there. -/
def GoesOn (limit : Nat) (c : Cursor) (visits : List Cursor) (last : Cursor) : Prop :=
  (∃ next, Runs (stepOut c.path.length) c true next ∧ Runs (depthFirst limit) next visits last) ∨
    (Runs (stepOut c.path.length) c false last ∧ visits = [])

end Walk

namespace Cursor

/-! ## What is below a node -/

mutual

/-- The cursors at a node on some path and at all nodes below it, each before those below it. -/
def below : SyntaxNode → List (SyntaxNode × Nat) → List Cursor
  | ⟨kind, span, children⟩, path =>
    ⟨⟨kind, span, children⟩, path⟩ :: belowRow ⟨kind, span, children⟩ path 0 children

/-- The cursors at and below the children of a node from an index on. -/
def belowRow (parent : SyntaxNode) (path : List (SyntaxNode × Nat)) (index : Nat) :
    List SyntaxNode → List Cursor
  | [] => []
  | child :: rest =>
    below child ((parent, index) :: path) ++ belowRow parent path (index + 1) rest

end

mutual

/-- The nodes below a node are those of its tree, in order. -/
theorem map_node_below (node : SyntaxNode) (path : List (SyntaxNode × Nat)) :
    (below node path).map Cursor.node = node.nodes := by
  match node with
  | ⟨kind, span, children⟩ =>
    rw [below, List.map_cons, map_node_belowRow ⟨kind, span, children⟩ path 0 children,
      SyntaxNode.nodes]

/-- The nodes below a row are those of its trees. -/
theorem map_node_belowRow (parent : SyntaxNode) (path : List (SyntaxNode × Nat)) (index : Nat)
    (children : List SyntaxNode) :
    (belowRow parent path index children).map Cursor.node = SyntaxNode.nodesOf children := by
  match children with
  | [] => rfl
  | child :: rest =>
    rw [belowRow, List.map_append, map_node_below child ((parent, index) :: path),
      map_node_belowRow parent path (index + 1) rest, SyntaxNode.nodesOf]

end

mutual

/-- Below a node is what can be reached from it by a descent. -/
theorem mem_below (node : SyntaxNode) (path : List (SyntaxNode × Nat)) {d : Cursor} :
    d ∈ below node path ↔ ∃ q, (⟨node, path⟩ : Cursor).descend? q = some d := by
  match node with
  | ⟨kind, span, children⟩ =>
    rw [below, List.mem_cons,
      mem_belowRow ⟨kind, span, children⟩ path 0 children (List.drop_zero)]
    constructor
    · rintro (rfl | ⟨index, q, -, hd⟩)
      · exact ⟨[], rfl⟩
      · exact ⟨index :: q, hd⟩
    · rintro ⟨_ | ⟨index, q⟩, hd⟩
      · exact .inl (Option.some.inj hd).symm
      · exact .inr ⟨index, q, Nat.zero_le _, hd⟩

/-- What is below a row is reached through one of its trees. -/
theorem mem_belowRow (parent : SyntaxNode) (path : List (SyntaxNode × Nat)) (index : Nat)
    (children : List SyntaxNode) {d : Cursor} (hchildren : parent.children.drop index = children) :
    d ∈ belowRow parent path index children ↔
      ∃ other q, index ≤ other ∧ (⟨parent, path⟩ : Cursor).descend? (other :: q) = some d := by
  match children with
  | [] =>
    have hlength : parent.children.length ≤ index := List.drop_eq_nil_iff.mp hchildren
    refine ⟨nofun, ?_⟩
    rintro ⟨other, q, hother, hd⟩
    obtain ⟨e, he, -⟩ := Option.bind_eq_some_iff.mp hd
    have hlt := lt_length_of_child? he
    exact absurd (Nat.lt_of_lt_of_le hlt (Nat.le_trans hlength hother)) (Nat.lt_irrefl other)
  | child :: rest =>
    have hchild : parent.children[index]? = some child := by
      rw [← List.head?_drop, hchildren, List.head?_cons]
    have hrest : parent.children.drop (index + 1) = rest := by
      rw [← List.tail_drop, hchildren, List.tail_cons]
    have hdescends (q : List Nat) : (⟨parent, path⟩ : Cursor).descend? (index :: q) =
        (⟨child, (parent, index) :: path⟩ : Cursor).descend? q := by
      rw [descend?, child?, hchild]
      rfl
    rw [belowRow, List.mem_append, mem_below child ((parent, index) :: path),
      mem_belowRow parent path (index + 1) rest hrest]
    constructor
    · rintro (⟨q, hd⟩ | ⟨other, q, hother, hd⟩)
      · exact ⟨index, q, Nat.le_refl index, (hdescends q).trans hd⟩
      · exact ⟨other, q, Nat.le_of_succ_le hother, hd⟩
    · rintro ⟨other, q, hother, hd⟩
      rcases Nat.eq_or_lt_of_le hother with rfl | hlt
      · exact .inl ⟨q, (hdescends q).symm.trans hd⟩
      · exact .inr ⟨other, q, hlt, hd⟩

end

/-! ## The order of places -/

/-- The places of children are in the order of the children, and so is what is below them. -/
theorem belowRow_ordered_of {parent : SyntaxNode} {path : List (SyntaxNode × Nat)} {index : Nat}
    {children : List SyntaxNode} (hchildren : parent.children.drop index = children) :
    ∀ d ∈ belowRow parent path index children,
      ∃ other q, index ≤ other ∧ d.place = place ⟨parent, path⟩ ++ other :: q := by
  intro d hd
  obtain ⟨other, q, hother, hdescends⟩ := (mem_belowRow parent path index children hchildren).mp hd
  exact ⟨other, q, hother, place_of_descend? hdescends⟩

mutual

/-- What is below a node is in the order of its places. -/
theorem below_ordered (node : SyntaxNode) (path : List (SyntaxNode × Nat)) :
    (below node path).Pairwise fun earlier later => earlier.place < later.place := by
  match node with
  | ⟨kind, span, children⟩ =>
    have hrow := belowRow_ordered ⟨kind, span, children⟩ path 0 children List.drop_zero
    refine .cons (fun d hd => ?_) hrow
    obtain ⟨other, q, -, hplace⟩ := belowRow_ordered_of List.drop_zero d hd
    rw [hplace]
    have hbehind : place ⟨⟨kind, span, children⟩, path⟩ ++ [] <
        place ⟨⟨kind, span, children⟩, path⟩ ++ other :: q :=
      List.append_left_lt (List.nil_lt_cons other q)
    simpa using hbehind

/-- What is below a row comes in the order of places. -/
theorem belowRow_ordered (parent : SyntaxNode) (path : List (SyntaxNode × Nat)) (index : Nat)
    (children : List SyntaxNode) (hchildren : parent.children.drop index = children) :
    (belowRow parent path index children).Pairwise
      fun earlier later => earlier.place < later.place := by
  match children with
  | [] => exact .nil
  | child :: rest =>
    have hrest : parent.children.drop (index + 1) = rest := by
      rw [← List.tail_drop, hchildren, List.tail_cons]
    refine List.pairwise_append.mpr ⟨below_ordered child ((parent, index) :: path),
      belowRow_ordered parent path (index + 1) rest hrest, fun c hc d hd => ?_⟩
    obtain ⟨q, hdescends⟩ := (mem_below child ((parent, index) :: path)).mp hc
    obtain ⟨other, q', hother, hplace⟩ := belowRow_ordered_of hrest d hd
    rw [hplace, place_of_descend? hdescends, place_child, List.append_assoc]
    exact List.append_left_lt (List.cons_lt_cons_iff.mpr (.inl hother))

end

end Cursor

namespace Walk

/-! ## The walk goes through all that is below a node -/

variable {limit index : Nat} {visits : List Cursor} {last e : Cursor}

/-- From a child that is not the last one, the next sibling is stepped to. -/
theorem runs_stepOut (hd : c.child? index = some d) (he : c.child? (index + 1) = some e)
    (limit : Nat) : Runs (stepOut limit) d true e := by
  cases limit with
  | zero => exact runs_nextSibling hd he
  | succ limit => exact .bind (runs_nextSibling hd he) (.pure _ _)

/-- From the last child, the walk steps out of the parent. -/
theorem runs_stepOut_last {moved : Bool} (hd : c.child? index = some d)
    (hlast : c.child? (index + 1) = none) (h : Runs (stepOut c.path.length) c moved last) :
    Runs (stepOut d.path.length) d moved last := by
  have hstays : Runs nextSibling d false d := by
    simp [Runs, nextSibling, go, Move.target?, nextSibling?_of_child? hd, hlast]
  rcases Cursor.child?_eq_some hd with ⟨child, -, rfl⟩
  have hparent : Runs parent ⟨child, (c.node, index) :: c.path⟩ true c := rfl
  exact .bind hstays (.bind hparent h)

/-- At the root, there is nowhere to step out to. -/
theorem runs_stepOut_top (root : SyntaxNode) :
    Runs (stepOut (Cursor.top root).path.length) (.top root) false (.top root) := rfl

/-- Behind the whole tree the walk is over. -/
theorem goesOn_top (root : SyntaxNode) (limit : Nat) : GoesOn limit (.top root) [] (.top root) :=
  .inr ⟨runs_stepOut_top root, rfl⟩

/-- What is behind the last child of a node is behind the node. -/
theorem GoesOn.of_last (h : GoesOn limit c visits last) (hd : c.child? index = some d)
    (hlast : c.child? (index + 1) = none) : GoesOn limit d visits last :=
  h.imp (fun ⟨next, hstep, hmore⟩ => ⟨next, runs_stepOut_last hd hlast hstep, hmore⟩)
    fun ⟨hstep, hnil⟩ => ⟨runs_stepOut_last hd hlast hstep, hnil⟩

/-- A node without children is visited, and then what is behind it. -/
theorem runs_depthFirst_leaf (hchildren : c.node.children = []) (h : GoesOn limit c visits last) :
    Runs (depthFirst (limit + 1)) c (c :: visits) last := by
  have hhere : Runs (get : Walk Cursor) c c c := rfl
  have hgoOn {moved : Bool} {next : Cursor} (hstep : Runs (stepOut c.path.length) c moved next) :
      Runs goOn c moved next := .bind (runs_firstChild_nil hchildren) hstep
  rcases h with ⟨next, hstep, hmore⟩ | ⟨hstep, rfl⟩
  · exact .bind hhere (.bind (hgoOn hstep) (.bind hmore (.pure _ _)))
  · exact .bind hhere (.bind (hgoOn hstep) (.pure _ _))

/-- A node with children is visited, and then what comes from the first child on. -/
theorem runs_depthFirst_branch (hd : c.child? 0 = some d)
    (h : Runs (depthFirst limit) d visits last) :
    Runs (depthFirst (limit + 1)) c (c :: visits) last := by
  have hhere : Runs (get : Walk Cursor) c c c := rfl
  have hgoOn : Runs goOn c true d := .bind (runs_firstChild hd) (.pure _ _)
  exact .bind hhere (.bind hgoOn (.bind h (.pure _ _)))

mutual

/-- The walk goes through a node and all that is below it, and then through what is behind it. -/
theorem runs_depthFirst (node : SyntaxNode) (path : List (SyntaxNode × Nat)) {limit : Nat}
    {visits : List Cursor} {last : Cursor} (h : GoesOn limit ⟨node, path⟩ visits last) :
    Runs (depthFirst (node.size + limit)) ⟨node, path⟩ (Cursor.below node path ++ visits) last := by
  match node with
  | ⟨kind, span, []⟩ =>
    have hsize : SyntaxNode.size ⟨kind, span, []⟩ + limit = limit + 1 := Nat.add_comm 1 limit
    rw [hsize]
    exact runs_depthFirst_leaf rfl h
  | ⟨kind, span, child :: rest⟩ =>
    have hsize : SyntaxNode.size ⟨kind, span, child :: rest⟩ + limit =
        SyntaxNode.sizes (child :: rest) + limit + 1 := Nat.add_right_comm _ 1 limit
    rw [hsize]
    exact runs_depthFirst_branch rfl
      (runs_depthFirstRow ⟨kind, span, child :: rest⟩ path 0 (child :: rest) List.drop_zero rfl h)

/-- The walk over a row visits what is below it, and goes on behind. -/
theorem runs_depthFirstRow (parent : SyntaxNode) (path : List (SyntaxNode × Nat)) (index : Nat)
    (children : List SyntaxNode) {limit : Nat} {visits : List Cursor} {d last : Cursor}
    (hchildren : parent.children.drop index = children)
    (hd : (⟨parent, path⟩ : Cursor).child? index = some d)
    (h : GoesOn limit ⟨parent, path⟩ visits last) :
    Runs (depthFirst (SyntaxNode.sizes children + limit)) d
      (Cursor.belowRow parent path index children ++ visits) last := by
  match children with
  | [] =>
    rw [Cursor.child?, ← List.head?_drop, hchildren] at hd
    nomatch hd
  | child :: rest =>
    have hrest : parent.children.drop (index + 1) = rest := by
      rw [← List.tail_drop, hchildren, List.tail_cons]
    have hself : d = ⟨child, (parent, index) :: path⟩ := by
      rw [Cursor.child?, ← List.head?_drop, hchildren] at hd
      exact (Option.some.inj hd).symm
    subst hself
    rw [SyntaxNode.sizes_cons, Nat.add_assoc, Cursor.belowRow, List.append_assoc]
    apply runs_depthFirst child ((parent, index) :: path)
    -- the next child comes next, or else what is behind the parent
    cases hnext : (⟨parent, path⟩ : Cursor).child? (index + 1) with
    | none =>
      have hnil : rest = [] := by
        rw [Cursor.child?, ← List.head?_drop, hrest] at hnext
        simpa using hnext
      subst hnil
      rw [SyntaxNode.sizes_nil, Nat.zero_add]
      exact h.of_last hd hnext
    | some e =>
      exact .inl ⟨e, runs_stepOut hd hnext _,
        runs_depthFirstRow parent path (index + 1) rest hrest hnext h⟩

end

end Walk

/-! ## Cursors over a tree -/

/-- What is known of the cursor over a tree.  After any moves from the root, its path records a real
descent; each move leads to the node where it has to, and says so, or says that there is none and
changes nothing; and whoever enters a node, steps to the right as often as they like and goes to the
parent is back where they were.  The walk that goes from node to node by these moves visits what can
be reached by a descent from the root and nothing else, in the order of the places and so each node
once, as the nodes of the tree are listed; it ends back at the root. -/
theorem cursor_walks (root : SyntaxNode) :
    (∀ moves : List Move, ∃ answers c, Runs (moves.mapM Walk.go) (.top root) answers c ∧
      c.DescendsFrom root ∧
      (∀ move, ∃ moved d, Runs (Walk.go move) c moved d ∧ move.Answers root c moved d) ∧
      ∀ count answers d e, Runs (Walk.go .firstChild) c true d →
        Runs ((List.replicate count Move.nextSibling).mapM Walk.go) d answers e →
        Runs (Walk.go .parent) e true c) ∧
    ∃ visits, Runs (Walk.depthFirst root.size) (.top root) visits (.top root) ∧
      (∀ d, d ∈ visits ↔ ∃ place, (Cursor.top root).descend? place = some d) ∧
      (visits.Pairwise fun earlier later => earlier.place < later.place) ∧
      visits.map Cursor.node = root.nodes := by
  constructor
  · intro moves
    obtain ⟨answers, c, hmoves, hc⟩ := Walk.exists_runs_moves .top moves
    refine ⟨answers, c, hmoves, hc, fun move => ?_, fun count answers d e hfirst hsiblings => ?_⟩
    · obtain ⟨moved, d, hmove, hanswers, -⟩ := Walk.go_answers hc move
      exact ⟨moved, d, hmove, hanswers⟩
    · exact Walk.runs_parent_of_siblings hfirst hsiblings
  · have hwalk := Walk.runs_depthFirst root [] (Walk.goesOn_top root 0)
    rw [List.append_nil] at hwalk
    exact ⟨Cursor.below root [], hwalk, fun d => Cursor.mem_below root [],
      Cursor.below_ordered root [], Cursor.map_node_below root []⟩

end Offside
