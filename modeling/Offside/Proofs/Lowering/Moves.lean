import Offside.Lowering.Walk
import Offside.Proofs.Runs
import Offside.Proofs.Syntax.Nodes

/-!
# Moves of a walk

A walk over the tree of a phrase enters the phrase, stays among its children, and leaves it.
There is one rule for each move: what the rest of the walk has to do wherever the move may
have led.  Looks at a node and whole walks that come back are passed over by one more rule.

Main definitions:

- `Cursor.Under`: a cursor at a child of the node under another one.
- `SyntaxNode.Filled`: phrases have children where they need them.
- `Lowering.Covers`: the limit of a lowering is enough for a node.
- `Walk.ComesBack`: a walk ends, and gives a result only where it started.

Main results:

- Theorem `siblings_induction`: what a step to the right keeps holds at each child.
- Theorem `collect_forall`: a repetition over the siblings to the right ends among them.
-/

namespace Offside

/-! ## Looks -/

namespace Runs

variable {c : Cursor} {l : Lowering}

/-- A look at the kind does not move. -/
theorem kind : Runs Walk.kind c c.node.kind c := rfl

/-- Neither does a look at the text. -/
theorem text : Runs l.text c (l.textOf c.node.span) c := rfl

/-- A test for a kind tells whether it is the kind of the node. -/
theorem isAt (kind : SyntaxKind) : Runs (Walk.isAt kind) c (decide (c.node.kind = kind)) c := rfl

/-- The test holds at a node of the kind. -/
theorem isAt_true {kind : SyntaxKind} (h : c.node.kind = kind) :
    Runs (Walk.isAt kind) c true c := by
  rw [← decide_eq_true h]
  exact .isAt kind

/-- The test fails at a node of another kind. -/
theorem isAt_false {kind : SyntaxKind} (h : c.node.kind ≠ kind) :
    Runs (Walk.isAt kind) c false c := by
  rw [← decide_eq_false h]
  exact .isAt kind

end Runs

/-! ## Places among children -/

namespace Cursor

variable {c d : Cursor} {index : Nat}

/-- A cursor at a child of the node under another one, on the way through this node. -/
def Under (c d : Cursor) : Prop := ∃ index, c.child? index = some d

/-- A child is reached from its parent, and the way back is kept. -/
theorem child?_eq_some (h : c.child? index = some d) :
    ∃ child, c.node.children[index]? = some child ∧ d = ⟨child, (c.node, index) :: c.path⟩ := by
  rcases Option.map_eq_some_iff.mp h with ⟨child, hchild, hd⟩
  exact ⟨child, hchild, hd.symm⟩

/-- A child that is reached is one of the children. -/
theorem lt_length_of_child? (h : c.child? index = some d) : index < c.node.children.length := by
  rcases child?_eq_some h with ⟨child, hchild, -⟩
  exact (List.getElem?_eq_some_iff.mp hchild).1

/-- The node of the child is the one at the index. -/
theorem getElem?_of_child? (h : c.child? index = some d) :
    c.node.children[index]? = some d.node := by
  rcases child?_eq_some h with ⟨child, hchild, rfl⟩
  exact hchild

/-- The children from some place on start with the one at this place. -/
theorem drop_of_child? (h : c.child? index = some d) :
    c.node.children.drop index = d.node :: c.node.children.drop (index + 1) := by
  obtain ⟨hlt, hnode⟩ := List.getElem?_eq_some_iff.mp (getElem?_of_child? h)
  rw [List.drop_eq_getElem_cons hlt, hnode]

/-- A cursor below another one is at one of its children. -/
theorem Under.mem (h : c.Under d) : d.node ∈ c.node.children := by
  rcases h with ⟨index, hindex⟩
  exact List.mem_of_getElem? (getElem?_of_child? hindex)

/-- What children have from their parents, all nodes have that are reached by descending. -/
theorem of_descend? {P : SyntaxNode → Prop} {path : List Nat}
    (hchild : ∀ {node child}, P node → child ∈ node.children → P child) (h : P c.node)
    (hpath : c.descend? path = some d) : P d.node := by
  induction path generalizing c with
  | nil =>
    cases hpath
    exact h
  | cons index path ih =>
    rcases Option.bind_eq_some_iff.mp hpath with ⟨e, he, hmore⟩
    exact ih (hchild h (Under.mem ⟨index, he⟩)) hmore

end Cursor

namespace SyntaxNode

/-- A node has fewer children than the tree below it has nodes. -/
theorem length_children_lt (node : SyntaxNode) : node.children.length < node.size := by
  rcases node with ⟨kind, span, children⟩
  exact Nat.lt_succ_of_le (length_le_sizes children)

end SyntaxNode

/-! ## Trees that can be walked over -/

/-- The kinds of phrases that are entered without a look at whether they have children. -/
def SyntaxKind.hasParts : SyntaxKind → Bool
  | .assignStatement | .expressionStatement | .returnStatement | .ifStatement | .whileStatement
  | .forStatement | .functionDefinition | .classDefinition | .typeDef
  | .callExpression | .memberExpression | .binaryExpression | .unaryExpression
  | .parenthesizedExpression | .arrayExpression | .conditionalExpression
  | .comprehensionExpression | .arrayComprehensionExpression | .setComprehensionExpression => true
  | _ => false

/-- All phrases in a tree that are entered without a look have children. -/
def SyntaxNode.Filled (tree : SyntaxNode) : Prop :=
  ∀ node ∈ tree.nodes, node.kind.hasParts = true → node.children ≠ []

namespace SyntaxNode

/-- In a filled tree, a phrase that is entered without a look has children. -/
theorem Filled.children_ne {tree : SyntaxNode} (h : tree.Filled)
    (hkind : tree.kind.hasParts = true) : tree.children ≠ [] :=
  h tree tree.mem_nodes_self hkind

/-- The trees below a filled tree are filled. -/
theorem Filled.of_mem {tree child : SyntaxNode} (h : tree.Filled) (hmem : child ∈ tree.children) :
    child.Filled :=
  fun node hnode => h node (mem_nodes_of_mem hmem hnode)

end SyntaxNode

/-- A node can be walked over: its phrases have children, and the limit of the lowering is
enough for it. -/
structure Lowering.Covers (l : Lowering) (node : SyntaxNode) : Prop where
  filled : node.Filled
  size_le : node.size ≤ l.limit

namespace Lowering.Covers

variable {l : Lowering} {node child : SyntaxNode}

/-- What can be walked over has children that can be walked over. -/
theorem of_mem (h : l.Covers node) (hmem : child ∈ node.children) : l.Covers child where
  filled := h.filled.of_mem hmem
  size_le := Nat.le_of_lt (Nat.lt_of_lt_of_le (SyntaxNode.size_lt_of_mem hmem) h.size_le)

/-- A phrase that can be walked over, and is entered without a look, has children. -/
theorem children_ne {kind : SyntaxKind} (h : l.Covers node) (hkind : node.kind = kind)
    (hparts : kind.hasParts = true) : node.children ≠ [] :=
  h.filled.children_ne (hkind ▸ hparts)

/-- The limit is above the number of children, from wherever they are counted. -/
theorem length_children_lt (h : l.Covers node) (index : Nat) :
    node.children.length < index + l.limit := by
  have hlt := node.length_children_lt
  have hsize := h.size_le
  omega

/-- So it suffices for a repetition over the children. -/
theorem length_children_le (h : l.Covers node) (index : Nat) :
    node.children.length ≤ index + l.limit :=
  Nat.le_of_lt (h.length_children_lt index)

end Lowering.Covers

namespace Walk

variable {α β : Type} {walk : Walk α} {next : α → Walk β} {c d : Cursor} {index : Nat}
  {post : β → Cursor → Prop}

/-! ## Moves -/

/-- The first child is entered if there is one. -/
theorem runs_firstChild (hd : c.child? 0 = some d) : Runs firstChild c true d := by
  rcases Cursor.child?_eq_some hd with ⟨child, hchild, rfl⟩
  cases hchildren : c.node.children with
  | nil => simp [hchildren] at hchild
  | cons first rest =>
    have hfirst : first = child := by simpa [hchildren] using hchild
    simp [Runs, firstChild, go, Move.target?, Cursor.firstChild?, hchildren, hfirst]

/-- Without children the cursor stays where it is. -/
theorem runs_firstChild_nil (h : c.node.children = []) : Runs firstChild c false c := by
  simp [Runs, firstChild, go, Move.target?, Cursor.firstChild?, h]

/-- The sibling behind a child is the child at the next index. -/
theorem nextSibling?_of_child? (hd : c.child? index = some d) :
    d.nextSibling? = c.child? (index + 1) := by
  rcases Cursor.child?_eq_some hd with ⟨child, hchild, rfl⟩
  rfl

/-- So a step leads from one child to the next. -/
theorem runs_nextSibling {e : Cursor} (hd : c.child? index = some d)
    (he : c.child? (index + 1) = some e) : Runs nextSibling d true e := by
  simp [Runs, nextSibling, go, Move.target?, nextSibling?_of_child? hd, he]

/-- From each child the way leads back to the parent. -/
theorem runs_leave (hd : c.Under d) : Runs leave d () c := by
  rcases hd with ⟨index, hindex⟩
  rcases Cursor.child?_eq_some hindex with ⟨child, hchild, rfl⟩
  rfl

/-- The first child is entered, or there is none. -/
theorem firstChild_terminates : Terminates firstChild c fun found last =>
    found = true ∧ c.child? 0 = some last ∨
      found = false ∧ last = c ∧ c.node.children = [] := by
  cases hchildren : c.node.children with
  | nil => exact .runs (runs_firstChild_nil hchildren) (.inr ⟨rfl, rfl, rfl⟩)
  | cons child rest =>
    have hd : c.child? 0 = some ⟨child, (c.node, 0) :: c.path⟩ := by
      simp [Cursor.child?, hchildren]
    exact .runs (runs_firstChild hd) (.inl ⟨rfl, hd⟩)

/-- A walk that tries to enter goes on at the first child, or at the node if it has none. -/
theorem firstChild_bind {next : Bool → Walk β}
    (hentered : ∀ d, c.child? 0 = some d → Terminates (next true) d post)
    (hstays : c.node.children = [] → Terminates (next false) c post) :
    Terminates (firstChild >>= next) c post := by
  apply firstChild_terminates.bind
  rintro found last (⟨rfl, hd⟩ | ⟨rfl, rfl, hnil⟩)
  · exact hentered last hd
  · exact hstays hnil

/-- A walk that enters a phrase with children goes on at one of them. -/
theorem enter_bind {next : Unit → Walk β} (hchildren : c.node.children ≠ [])
    (hnext : ∀ d, c.Under d → Terminates (next ()) d post) :
    Terminates (enter >>= next) c post := by
  have henter : Terminates enter c fun _ d => c.Under d := by
    apply firstChild_bind
    · intro d hd
      exact .pure ⟨0, hd⟩
    · intro hnil
      exact absurd hnil hchildren
  exact henter.bind fun _ d hd => hnext d hd

/-- The next sibling is stepped to, or there is none. -/
theorem nextSibling_terminates (hd : c.child? index = some d) :
    Terminates nextSibling d fun found last =>
      found = true ∧ c.child? (index + 1) = some last ∨ found = false ∧ last = d := by
  cases hnext : c.child? (index + 1) with
  | none =>
    have hruns : Runs nextSibling d false d := by
      simp [Runs, nextSibling, go, Move.target?, nextSibling?_of_child? hd, hnext]
    exact .runs hruns (.inr ⟨rfl, rfl⟩)
  | some e => exact .runs (runs_nextSibling hd hnext) (.inl ⟨rfl, rfl⟩)

/-- A walk that tries to step goes on at the next child, or stays at the last one. -/
theorem nextSibling_bind {next : Bool → Walk β} (hd : c.child? index = some d)
    (hmoved : ∀ e, c.child? (index + 1) = some e → Terminates (next true) e post)
    (hstays : Terminates (next false) d post) : Terminates (nextSibling >>= next) d post := by
  apply (nextSibling_terminates hd).bind
  rintro found last (⟨rfl, he⟩ | ⟨rfl, rfl⟩)
  · exact hmoved last he
  · exact hstays

/-- A step keeps to the children of a node. -/
theorem nextSibling_under (hd : c.Under d) : Terminates nextSibling d fun _ e => c.Under e := by
  rcases hd with ⟨index, hindex⟩
  apply (nextSibling_terminates hindex).mono
  rintro found last (⟨-, he⟩ | ⟨-, rfl⟩)
  · exact ⟨index + 1, he⟩
  · exact ⟨index, hindex⟩

/-- A step leads to the right, or nowhere. -/
theorem step_bind_behind {next : Unit → Walk β} (hd : c.child? index = some d)
    (hnext : ∀ behind e, index ≤ behind → c.child? behind = some e →
      Terminates (next ()) e post) : Terminates (step >>= next) d post := by
  have hstep : Terminates step d fun _ e =>
      ∃ behind, index ≤ behind ∧ c.child? behind = some e := by
    apply nextSibling_bind hd
    · intro e he
      exact .pure ⟨index + 1, Nat.le_succ index, he⟩
    · exact .pure ⟨index, Nat.le_refl index, hd⟩
  apply hstep.bind
  rintro _ e ⟨behind, hbehind, he⟩
  exact hnext behind e hbehind he

/-- A walk that steps goes on at some child of the same node. -/
theorem step_bind {next : Unit → Walk β} (hd : c.Under d)
    (hnext : ∀ e, c.Under e → Terminates (next ()) e post) :
    Terminates (step >>= next) d post := by
  rcases hd with ⟨index, hindex⟩
  apply step_bind_behind hindex
  intro behind e _ he
  exact hnext e ⟨behind, he⟩

/-- A walk that goes back goes on at the parent. -/
theorem leave_bind {next : Unit → Walk β} (hd : c.Under d)
    (hnext : Terminates (next ()) c post) : Terminates (leave >>= next) d post :=
  .bind_runs (runs_leave hd) hnext

/-- A walk that tests for a kind may use the answer. -/
theorem isAt_bind {kind : SyntaxKind} {next : Bool → Walk β}
    (hyes : c.node.kind = kind → Terminates (next true) c post)
    (hno : Terminates (next false) c post) : Terminates (isAt kind >>= next) c post := by
  have hruns : Runs (isAt kind) c (decide (c.node.kind = kind)) c := rfl
  apply Meets.bind_runs hruns
  cases hkind : decide (c.node.kind = kind) with
  | true => exact hyes (of_decide_eq_true hkind)
  | false => exact hno

/-- A move is tried only from a node of some kind. -/
theorem isAt_andAlso_bind {kind : SyntaxKind} {move : Walk Bool} {target : Cursor → Prop}
    {next : Bool → Walk β}
    (hmove : Terminates move c fun found last =>
      found = true ∧ target last ∨ found = false ∧ last = c)
    (hmoved : ∀ d, c.node.kind = kind → target d → Terminates (next true) d post)
    (hstays : Terminates (next false) c post) :
    Terminates (andAlso (isAt kind) move >>= next) c post := by
  have htest : Terminates (andAlso (isAt kind) move) c fun found last =>
      found = true ∧ c.node.kind = kind ∧ target last ∨ found = false ∧ last = c := by
    apply isAt_bind
    · intro hkind
      apply hmove.mono
      rintro found last (⟨hfound, hlast⟩ | hother)
      · exact .inl ⟨hfound, hkind, hlast⟩
      · exact .inr hother
    · exact .pure (.inr ⟨rfl, rfl⟩)
  apply htest.bind
  rintro found last (⟨rfl, hkind, hlast⟩ | ⟨rfl, rfl⟩)
  · exact hmoved last hkind hlast
  · exact hstays

/-- A node of some kind is entered, if it is of this kind and has children. -/
theorem isAt_firstChild_bind {kind : SyntaxKind} {next : Bool → Walk β}
    (hentered : ∀ d, c.node.kind = kind → c.child? 0 = some d → Terminates (next true) d post)
    (hother : Terminates (next false) c post) :
    Terminates (andAlso (isAt kind) firstChild >>= next) c post := by
  apply isAt_andAlso_bind ?_ hentered hother
  apply firstChild_terminates.mono
  rintro found last (hd | ⟨hfound, hlast, -⟩)
  · exact .inl hd
  · exact .inr ⟨hfound, hlast⟩

/-- Two tests among the children of a node stay there. -/
theorem andAlso_under {first second : Walk Bool}
    (hfirst : Terminates first d fun _ e => c.Under e)
    (hsecond : ∀ e, c.Under e → Terminates second e fun _ f => c.Under f) :
    Terminates (andAlso first second) d fun _ e => c.Under e := by
  apply Meets.bind hfirst
  rintro (_ | _) e he
  · exact .pure he
  · exact hsecond e he

/-! ## Walks that come back -/

/-- A walk ends: perhaps in a failure, but not because it went on for too long; and it gives a
result only where it started, at the same node on the same way. -/
def ComesBack (walk : Walk α) (c : Cursor) : Prop := Terminates walk c fun _ last => last = c

/-- A walk that comes back is followed by one that starts at the same node. -/
theorem ComesBack.bind (h : ComesBack walk c)
    (hnext : ∀ value, Terminates (next value) c post) : Terminates (walk >>= next) c post := by
  apply Meets.bind h
  rintro value _ rfl
  exact hnext value

/-- At a child, a walk that comes back ends at a child. -/
theorem ComesBack.under {walk : Walk α} (h : ComesBack walk d) (hd : c.Under d) :
    Terminates walk d fun _ e => c.Under e :=
  h.mono fun _ _ hlast => hlast ▸ hd

/-- A walk that is known to end where it started comes back. -/
theorem comesBack_of_runs {value : α} (h : Runs walk c value c) : ComesBack walk c := .runs h rfl

/-- A walk that looks at the kind goes on with it. -/
theorem kind_bind {next : SyntaxKind → Walk β} (hnext : Terminates (next c.node.kind) c post) :
    Terminates (kind >>= next) c post :=
  .bind_runs rfl hnext

/-- A test for a kind comes back. -/
theorem isAt_comesBack (kind : SyntaxKind) (c : Cursor) : ComesBack (isAt kind) c :=
  comesBack_of_runs rfl

end Walk

namespace Lowering

open Walk

variable {β : Type} {l : Lowering} {c d : Cursor} {post : β → Cursor → Prop}

/-- A look at the text comes back. -/
theorem text_comesBack (c : Cursor) : ComesBack l.text c := comesBack_of_runs rfl

/-- So does a look at the location. -/
theorem location_comesBack (c : Cursor) : ComesBack l.location c := by
  have hlocation : l.location c =
      (Outcome.locate l.source c.node.span.start).bind fun location => .ok (location, c) := rfl
  unfold ComesBack Terminates Meets
  rw [hlocation, Outcome.locate]
  cases Source.location? l.source c.node.span.start with
  | none => exact nofun
  | some location => rfl

/-- So does a test for a keyword or mark. -/
theorem isToken_comesBack (word : String) (c : Cursor) : ComesBack (l.isToken word) c := by
  apply kind_bind
  split
  · exact (text_comesBack c).bind fun _ => .pure rfl
  · exact .pure rfl

/-- A refusal ends the walk, whatever is asked of its end. -/
theorem refuseAt_terminates {location : Location} {cause : Cause} :
    Terminates (refuseAt location cause : Walk β) c post := .throw nofun

/-- So does a refusal at the node under the cursor. -/
theorem refuse_terminates {cause : Cause} : Terminates (l.refuse cause : Walk β) c post :=
  (location_comesBack c).bind fun _ => refuseAt_terminates

/-- Stepping to a keyword or mark keeps to the children of a node. -/
theorem stepTo_under (word : String) (hd : c.Under d) :
    Terminates (l.stepTo word) d fun _ e => c.Under e := by
  rcases hd with ⟨index, hindex⟩
  apply nextSibling_bind hindex
  · intro e he
    exact (isToken_comesBack word e).under ⟨index + 1, he⟩
  · exact .pure ⟨index, hindex⟩

/-- A walk comes back from all places with a smaller node. -/
def ComesBackBelow {α : Type} (l : Lowering) (walk : Walk α) (c : Cursor) : Prop :=
  ∀ d : Cursor, l.Covers d.node → d.node.size < c.node.size → ComesBack walk d

namespace ComesBackBelow

variable {α : Type} {walk : Walk α}

/-- A walk that comes back below a node comes back at its children. -/
theorem under (h : l.ComesBackBelow walk c) (hcovers : l.Covers c.node) (hd : c.Under d) :
    ComesBack walk d :=
  h d (hcovers.of_mem hd.mem) (SyntaxNode.size_lt_of_mem hd.mem)

/-- It comes back below each of the children, too. -/
theorem descend (h : l.ComesBackBelow walk c) (hd : c.Under d) : l.ComesBackBelow walk d :=
  fun e hcovers hsize => h e hcovers (Nat.lt_trans hsize (SyntaxNode.size_lt_of_mem hd.mem))

end ComesBackBelow
end Lowering

/-! ## Repetitions -/

/-- A loop over the children of a node goes to the right in each round.  What holds of it at a
child, provided that it holds at all children further right with one round less, holds at each
child, if there are as many rounds as children to the right. -/
theorem Cursor.siblings_induction {c d : Cursor} {index limit : Nat}
    {motive : Nat → Cursor → Prop}
    (hstep : ∀ {limit index d}, c.child? index = some d →
      (∀ {behind e}, index < behind → c.child? behind = some e → motive limit e) →
      motive (limit + 1) d)
    (hd : c.child? index = some d) (hlimit : c.node.children.length ≤ index + limit) :
    motive limit d := by
  induction limit generalizing index d with
  | zero =>
    have hlt := lt_length_of_child? hd
    omega
  | succ limit ih =>
    apply hstep hd
    intro behind e hbehind he
    exact ih he (by omega)

namespace Walk

variable {α : Type} {c d : Cursor} {index limit : Nat}

/-- A repetition over the siblings to the right ends among them, also if its item steps to
the right itself.  It collects what all items give. -/
theorem collect_forall {P : α → Prop} {stop : Walk Bool} {item : Walk (List α)}
    (hstop : ∀ d, c.Under d → ComesBack stop d)
    (hitem : ∀ index d, c.child? index = some d → Terminates item d fun values last =>
      (∃ behind, index ≤ behind ∧ c.child? behind = some last) ∧ ∀ value ∈ values, P value)
    (hd : c.child? index = some d) (hlimit : c.node.children.length ≤ index + limit) :
    Terminates (collect stop item limit) d fun values last =>
      c.Under last ∧ ∀ value ∈ values, P value := by
  refine Cursor.siblings_induction (motive := fun limit d =>
    Terminates (collect stop item limit) d fun values last =>
      c.Under last ∧ ∀ value ∈ values, P value) ?_ hd hlimit
  intro limit index d hd ih
  apply nextSibling_bind hd
  · intro e he
    apply (hstop e ⟨_, he⟩).bind
    intro stops
    split
    · exact .pure ⟨⟨_, he⟩, nofun⟩
    · apply Meets.bind (hitem _ e he)
      rintro first last ⟨⟨behind, hbehind, hlast⟩, hfirst⟩
      apply Meets.bind (ih hbehind hlast)
      rintro more after ⟨hafter, hmore⟩
      exact .pure ⟨hafter, List.forall_mem_append.mpr ⟨hfirst, hmore⟩⟩
  · exact .pure ⟨⟨_, hd⟩, nofun⟩

/-- A repetition over siblings ends at one of them if its limit covers them. -/
theorem collect_under {stop : Walk Bool} {item : Walk (List α)}
    (hstop : ∀ d, c.Under d → ComesBack stop d)
    (hitem : ∀ index d, c.child? index = some d →
      Terminates item d fun _ last => ∃ behind, index ≤ behind ∧ c.child? behind = some last)
    (hd : c.child? index = some d) (hlimit : c.node.children.length ≤ index + limit) :
    Terminates (collect stop item limit) d fun _ last => c.Under last := by
  have hall : Terminates (collect stop item limit) d fun values last =>
      c.Under last ∧ ∀ value ∈ values, True :=
    collect_forall hstop (fun index e he =>
      (hitem index e he).mono fun _ _ hlast => ⟨hlast, fun _ _ => trivial⟩) hd hlimit
  exact hall.mono fun _ _ hlast => hlast.1

/-- Rounds that go on at the next sibling, and are told whether there is one, end among the
siblings: without a sibling there is no round, and a round hands over to the next. -/
theorem rounds_under {loop : Nat → Bool → Walk α}
    (hstop : ∀ limit d, ComesBack (loop (limit + 1) false) d)
    (hround : ∀ limit d, c.Under d →
      (∀ {next : α → Walk α},
        (∀ value e, c.Under e → Terminates (next value) e fun _ f => c.Under f) →
        Terminates (nextSibling >>= fun moved => loop limit moved >>= next) d
          fun _ f => c.Under f) →
      Terminates (loop (limit + 1) true) d fun _ e => c.Under e)
    {here : Bool} (hd : c.child? index = some d)
    (hlimit : c.node.children.length < index + limit) :
    Terminates (loop limit here) d fun _ e => c.Under e := by
  induction limit generalizing index d here with
  | zero =>
    have hlt := Cursor.lt_length_of_child? hd
    omega
  | succ limit ih =>
    cases here with
    | false => exact (hstop limit d).under ⟨index, hd⟩
    | true =>
      apply hround limit d ⟨index, hd⟩
      intro next hnext
      apply nextSibling_bind hd
      · intro e he
        exact (ih he (by omega)).bind hnext
      -- The round that finds no sibling still counts, hence the strict bound.
      · have hpos : 0 < limit := by
          have hlt := Cursor.lt_length_of_child? hd
          omega
        rcases Nat.exists_eq_succ_of_ne_zero (Nat.ne_of_gt hpos) with ⟨less, rfl⟩
        exact ((hstop less d).under ⟨index, hd⟩).bind hnext

end Walk

namespace Lowering

open Walk

variable {α : Type} {l : Lowering} {c d : Cursor} {item : Walk (List α)}

/-- A list whose items may step to the right themselves. -/
theorem listUntil_forall {P : α → Prop} (hcovers : l.Covers c.node) (closing : String)
    (hd : c.Under d) (hitem : ∀ index d, c.child? index = some d →
      Terminates item d fun values last =>
        (∃ behind, index ≤ behind ∧ c.child? behind = some last) ∧ ∀ value ∈ values, P value) :
    Terminates (l.listUntil closing item) d fun values e =>
      c.Under e ∧ ∀ value ∈ values, P value := by
  rcases hd with ⟨index, hindex⟩
  apply collect_forall (fun e _ => isToken_comesBack closing e) ?_ hindex
    (hcovers.length_children_le index)
  intro index e he
  apply (isToken_comesBack "," e).bind
  intro isComma
  split
  · exact .pure ⟨⟨index, Nat.le_refl index, he⟩, nofun⟩
  · exact hitem index e he

/-- A list up to a closing bracket ends among its siblings, if no item goes back to the left. -/
theorem listUntil_under_of_advances (hcovers : l.Covers c.node) (closing : String)
    (hd : c.Under d) (hitem : ∀ index d, c.child? index = some d →
      Terminates item d fun _ last => ∃ behind, index ≤ behind ∧ c.child? behind = some last) :
    Terminates (l.listUntil closing item) d fun _ e => c.Under e := by
  have hall : Terminates (l.listUntil closing item) d fun values e =>
      c.Under e ∧ ∀ value ∈ values, True :=
    listUntil_forall hcovers closing hd fun index e he =>
      (hitem index e he).mono fun _ _ hlast => ⟨hlast, fun _ _ => trivial⟩
  exact hall.mono fun _ _ hlast => hlast.1

/-- So it does if its items come back to where they start. -/
theorem listUntil_under (hcovers : l.Covers c.node) (closing : String) (hd : c.Under d)
    (hitem : ∀ e, c.Under e → ComesBack item e) :
    Terminates (l.listUntil closing item) d fun _ e => c.Under e := by
  apply listUntil_under_of_advances hcovers closing hd
  intro index e he
  apply (hitem e ⟨index, he⟩).mono
  rintro _ _ rfl
  exact ⟨index, Nat.le_refl index, he⟩

end Lowering
end Offside
