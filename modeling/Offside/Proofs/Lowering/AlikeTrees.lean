import Offside.Proofs.Lowering.Names
import Offside.Proofs.Parsing.AlikeTokens

/-!
# Walks over alike trees

Two trees of the same shape, of two sources, are walked over together: each move leads to nodes that
go together or nowhere in both, and what is seen there is the same.  Nodes that are not leaves may
have different texts, as long as no keyword or mark is the text of only one of them.

Main definitions:

- `Lowering.Alike`: two lowerings keep to a likeness of their nodes.
- `Cursor.Level`: two cursors are at the same child of nodes that go together.
- `Walk.Together`: two walks end at places and with values that go together, or fail alike.
- `Lowering.Agree`: two walks go together from all nodes that do, and come back.

Main results:

- Theorem `collect_together`: repetitions over the siblings to the right go together.
- Theorem `listUntil_together`: so do lists up to a closing bracket.
-/

namespace Offside

open Walk

variable {m : Likeness} {l l' : Lowering} {c c' d d' e e' : Cursor} {index : Nat} {α β γ δ : Type}

/-! ## Sources -/

/-- Two texts of which both or none are a text of one line. -/
def TextsAlike (text text' : String) : Prop :=
  ∀ word : String, '\n' ∉ word.toList → (text = word ↔ text' = word)

/-- Alike brackets stand for the same comprehension. -/
theorem ofBrackets?_alike {opening opening' closing closing' : String}
    (hopening : TextsAlike opening opening') (hclosing : TextsAlike closing closing') :
    ComprehensionKind.ofBrackets? opening closing =
      ComprehensionKind.ofBrackets? opening' closing' := by
  unfold ComprehensionKind.ofBrackets?
  congr 1
  funext kind
  have hlines : '\n' ∉ kind.brackets.1.toList ∧ '\n' ∉ kind.brackets.2.toList := by
    cases kind <;> decide
  have hopens := hopening kind.brackets.1 hlines.1
  have hcloses := hclosing kind.brackets.2 hlines.2
  rw [decide_eq_decide, Prod.ext_iff, Prod.ext_iff, eq_comm, hopens]
  rw [eq_comm, @eq_comm _ _ closing, hcloses, @eq_comm _ closing']

/-- Whether a cause says that a tree does not fit the walk over it. -/
def Cause.isMismatch : Cause → Bool
  | .invalidProgram | .unknownOperator _ | .malformedList _ => true
  | _ => false

/-- Two lowerings keep to a likeness: nodes that go together are as the grammar says, have the same
location, the same text if they are leaves, and otherwise texts that are alike; refusals at the same
location go together if their names are the same.  Nodes that are as the grammar says fit the walks
over them, so that nothing is asked of refusals for a mismatch. -/
structure Lowering.Alike (m : Likeness) (l l' : Lowering) : Prop where
  limit : l.limit = l'.limit
  content : ∀ {node node' : SyntaxNode}, m.node node node' → node.HasContent l.source
  location : ∀ {node node' : SyntaxNode}, m.node node node' → ∃ location,
    Outcome.locate l.source node.span.start = .ok location ∧
      Outcome.locate l'.source node'.span.start = .ok location
  leaf : ∀ {node node' : SyntaxNode}, m.node node node' → node.kind.isLeaf = true →
    l.textOf node.span = l'.textOf node'.span
  text : ∀ {node node' : SyntaxNode}, m.node node node' →
    TextsAlike (l.textOf node.span) (l'.textOf node'.span)
  refused : ∀ {location : Location} {cause cause' : Cause}, cause.isMismatch = false →
    cause.name = cause'.name → m.failure (.refused ⟨cause, location⟩) (.refused ⟨cause', location⟩)
  unfinished : m.failure .unfinished .unfinished

/-! ## Places -/

/-- Rows that go together have entries that go together, or none, at the same places. -/
theorem rel_getElem? {rel : α → β → Prop} {row : List α} {row' : List β}
    (h : List.Forall₂ rel row row') (index : Nat) : Option.Rel rel row[index]? row'[index]? := by
  induction h generalizing index with
  | nil => exact .none
  | cons hfirst _ ih =>
    cases index with
    | zero => exact .some hfirst
    | succ index => exact ih index

namespace Cursor

/-- Two cursors are at the same child of two nodes that go together. -/
structure Level (m : Likeness) (c c' : Cursor) (index : Nat) (d d' : Cursor) : Prop where
  parents : c.node.Alike m.node c'.node
  left : c.child? index = some d
  right : c'.child? index = some d'

/-- Two cursors are at the same child, whichever it is. -/
def Below (m : Likeness) (c c' d d' : Cursor) : Prop := ∃ index, Level m c c' index d d'

/-- Two cursors are back where they were. -/
def Back (c c' d d' : Cursor) : Prop := d = c ∧ d' = c'

/-- Children in the same place go together. -/
theorem Level.node (h : Level m c c' index d d') : d.node.Alike m.node d'.node := by
  have hchildren := rel_getElem? h.parents.children index
  rw [getElem?_of_child? h.left, getElem?_of_child? h.right] at hchildren
  cases hchildren with
  | some hnode => exact hnode

/-- A certain child is one of the children. -/
theorem Level.below (h : Level m c c' index d d') : Below m c c' d d' := ⟨index, h⟩

/-- So all children go together. -/
theorem Below.node (h : Below m c c' d d') : d.node.Alike m.node d'.node :=
  h.elim fun _ => Level.node

/-- In each place there are children that go together, or there is none. -/
theorem child?_level (hc : c.node.Alike m.node c'.node) (index : Nat) :
    (c.child? index = none ∧ c'.child? index = none) ∨ ∃ d d', Level m c c' index d d' := by
  have hchildren := rel_getElem? hc.children index
  cases hleft : c.child? index with
  | none =>
    cases hright : c'.child? index with
    | none => exact .inl ⟨rfl, rfl⟩
    | some d' =>
      rw [Option.map_eq_none_iff.mp hleft, getElem?_of_child? hright] at hchildren
      nomatch hchildren
  | some d =>
    cases hright : c'.child? index with
    | none =>
      rw [getElem?_of_child? hleft, Option.map_eq_none_iff.mp hright] at hchildren
      nomatch hchildren
    | some d' => exact .inr ⟨d, d', hc, hleft, hright⟩

/-- Behind children that go together, the next ones do, or there are none. -/
theorem Level.nextSibling? (h : Level m c c' index d d') :
    (d.nextSibling? = none ∧ d'.nextSibling? = none) ∨
      ∃ e e', Level m c c' (index + 1) e e' ∧ d.nextSibling? = some e ∧
        d'.nextSibling? = some e' := by
  rw [nextSibling?_of_child? h.left, nextSibling?_of_child? h.right]
  rcases child?_level h.parents (index + 1) with hnone | ⟨e, e', he⟩
  · exact .inl hnone
  · exact .inr ⟨e, e', he, he.left, he.right⟩

end Cursor

open Cursor

/-! ## Walks in a row -/

/-- Two walks go together: both end, with values that go together and at places as told, or both
fail alike. -/
def Walk.Together (m : Likeness) (rel : α → β → Prop) (place : Cursor → Cursor → Prop)
    (walk : Walk α) (walk' : Walk β) (c c' : Cursor) : Prop :=
  Abreast m.failure walk walk' c c' fun value d value' d' => rel value value' ∧ place d d'

/-- Two walks go together wherever they start at nodes that do, and come back. -/
def Lowering.Agree (m : Likeness) (rel : α → β → Prop) (walk : Walk α) (walk' : Walk β) : Prop :=
  ∀ c c' : Cursor, c.node.Alike m.node c'.node → Together m rel (Back c c') walk walk' c c'

namespace Walk.Together

variable {rel : α → β → Prop} {rel' : γ → δ → Prop} {place place' : Cursor → Cursor → Prop}
  {walk : Walk α} {walk' : Walk β} {next : α → Walk γ} {next' : β → Walk δ}

/-- Values that go together are given where the walks start. -/
theorem pure {value : α} {value' : β} (h : rel value value') (hplace : place c c') :
    Together m rel place (Pure.pure value) (Pure.pure value') c c' :=
  Abreast.pure ⟨h, hplace⟩

/-- Failures that go together are failures alike. -/
theorem throw {failure failure' : Failure} (h : m.failure failure failure') :
    Together m rel place (MonadExcept.throw failure) (MonadExcept.throw failure') c c' :=
  .error h

/-- Of two pairs of walks in a row, the second goes on from where the first has ended. -/
theorem bind (h : Together m rel place walk walk' c c')
    (hnext : ∀ value value' d d', rel value value' → place d d' →
      Together m rel' place' (next value) (next' value') d d') :
    Together m rel' place' (walk >>= next) (walk' >>= next') c c' :=
  Abreast.bind h fun value d value' d' hends => hnext value value' d d' hends.1 hends.2

/-- Walks that are known to run hand on their values and places. -/
theorem bind_runs {value : α} {value' : β} (h : Runs walk c value d) (h' : Runs walk' c' value' d')
    (hnext : Together m rel' place' (next value) (next' value') d d') :
    Together m rel' place' (walk >>= next) (walk' >>= next') c c' :=
  Abreast.bind_runs h h' hnext

/-- Walks that are known to run go together as their ends do. -/
theorem runs {value : α} {value' : β} (h : Runs walk c value d) (h' : Runs walk' c' value' d')
    (hrel : rel value value') (hplace : place d d') : Together m rel place walk walk' c c' := by
  unfold Together Abreast
  rw [h, h']
  exact .ok ⟨hrel, hplace⟩

/-- What is asked of values and places may be weakened. -/
theorem mono {weaker : α → β → Prop} {wider : Cursor → Cursor → Prop}
    (h : Together m rel place walk walk' c c')
    (himp : ∀ value value', rel value value' → weaker value value')
    (hplace : ∀ d d', place d d' → wider d d') : Together m weaker wider walk walk' c c' :=
  Abreast.mono h fun _ _ _ _ hends => ⟨himp _ _ hends.1, hplace _ _ hends.2⟩

/-- The places are of a wider kind. -/
theorem widen {wider : Cursor → Cursor → Prop} (h : Together m rel place walk walk' c c')
    (hplace : ∀ d d', place d d' → wider d d') : Together m rel wider walk walk' c c' :=
  h.mono (fun _ _ hrel => hrel) hplace

/-- Walks with the same value are followed by walks that go together for it. -/
theorem bind_eq {walk walk' : Walk α} {next : α → Walk γ} {next' : α → Walk δ}
    (h : Together m Eq place walk walk' c c')
    (hnext : ∀ value d d', place d d' → Together m rel' place' (next value) (next' value) d d') :
    Together m rel' place' (walk >>= next) (walk' >>= next') c c' :=
  h.bind fun value _ d d' hvalue hplace => hvalue ▸ hnext value d d' hplace

/-- Walks that come back are passed over. -/
theorem bind_back (h : Together m rel (Back c c') walk walk' c c')
    (hnext : ∀ value value', rel value value' →
      Together m rel' place' (next value) (next' value') c c') :
    Together m rel' place' (walk >>= next) (walk' >>= next') c c' := by
  refine h.bind fun value value' d d' hvalue hback => ?_
  obtain ⟨rfl, rfl⟩ := hback
  exact hnext value value' hvalue

/-- Walks that come back with the same value are passed over. -/
theorem bind_eq_back {walk walk' : Walk α} {next : α → Walk γ} {next' : α → Walk δ}
    (h : Together m Eq (Back c c') walk walk' c c')
    (hnext : ∀ value, Together m rel' place' (next value) (next' value) c c') :
    Together m rel' place' (walk >>= next) (walk' >>= next') c c' :=
  h.bind_back fun value _ hvalue => hvalue ▸ hnext value

/-- A value that is given at once is handed on. -/
theorem pure_bind {value : α} {value' : β}
    (h : Together m rel' place' (next value) (next' value') c c') :
    Together m rel' place' (Pure.pure value >>= next) (Pure.pure value' >>= next') c c' := h

/-- A choice for the same reason. -/
theorem ite {choice : Prop} [Decidable choice] {other : Walk α} {other' : Walk β}
    (hyes : choice → Together m rel place walk walk' c c')
    (hno : ¬choice → Together m rel place other other' c c') :
    Together m rel place (if choice then walk else other) (if choice then walk' else other')
      c c' := by
  split
  · next hchoice => exact hyes hchoice
  · next hchoice => exact hno hchoice

/-- Walks that come back to a child are at a child. -/
theorem below (h : Together m rel (Back d d') walk walk' d d') (hd : c.Below m c' d d') :
    Together m rel (c.Below m c') walk walk' d d' := by
  refine h.widen fun _ _ hback => ?_
  obtain ⟨rfl, rfl⟩ := hback
  exact hd

end Walk.Together

namespace Lowering.Agree

variable {rel : α → β → Prop} {rel' : γ → δ → Prop} {place : Cursor → Cursor → Prop}
  {walk : Walk α} {walk' : Walk β} {next : α → Walk γ} {next' : β → Walk δ}

/-- Walks that agree are passed over. -/
theorem bind (h : Agree m rel walk walk') (hc : c.node.Alike m.node c'.node)
    (hnext : ∀ value value', rel value value' →
      Together m rel' place (next value) (next' value') c c') :
    Together m rel' place (walk >>= next) (walk' >>= next') c c' :=
  (h c c' hc).bind_back hnext

/-- Walks that agree with the same value are passed over. -/
theorem bind_eq {walk walk' : Walk α} {next : α → Walk γ} {next' : α → Walk δ}
    (h : Agree m Eq walk walk') (hc : c.node.Alike m.node c'.node)
    (hnext : ∀ value, Together m rel' place (next value) (next' value) c c') :
    Together m rel' place (walk >>= next) (walk' >>= next') c c' :=
  (h c c' hc).bind_eq_back hnext

/-- Walks that agree come back to each child. -/
theorem below (h : Agree m rel walk walk') (hd : c.Below m c' d d') :
    Together m rel (c.Below m c') walk walk' d d' :=
  (h d d' hd.node).below hd

/-- The same value of two walks, in a row. -/
theorem single {walk walk' : Walk α} (h : Agree m Eq walk walk') :
    Agree m Eq (do return [← walk]) (do return [← walk']) :=
  fun _ _ hc => h.bind_eq hc fun _ => .pure rfl ⟨rfl, rfl⟩

end Lowering.Agree

/-! ## Moves -/

namespace Walk

variable {rel : α → β → Prop} {place : Cursor → Cursor → Prop}

/-- The first child is the child at the first index. -/
theorem firstChild?_eq (c : Cursor) : c.firstChild? = c.child? 0 := by
  rcases c with ⟨⟨kind, span, _ | ⟨child, children⟩⟩, path⟩ <;> rfl

/-- A move leads where it is aimed at, if there is such a place. -/
theorem runs_go {move : Move} {found : Option Cursor} (h : move.target? c = found) :
    Runs (go move) c found.isSome (found.getD c) := by
  unfold Runs go
  rw [h]
  cases found <;> rfl

/-- The first child is entered. -/
theorem runs_enter (hd : c.child? 0 = some d) : Runs enter c () d :=
  (runs_firstChild hd).bind (.pure () d)

/-- A step leads to the next sibling. -/
theorem runs_step (h : d.nextSibling? = some e) : Runs step d () e :=
  Runs.bind (@runs_go _ .nextSibling _ h) (.pure () e)

/-- The first child is entered in both trees, or there is none. -/
theorem firstChild_bind_together {next : Bool → Walk α} {next' : Bool → Walk β}
    (hc : c.node.Alike m.node c'.node)
    (hentered : ∀ d d', c.Level m c' 0 d d' → Together m rel place (next true) (next' true) d d')
    (hstays : Together m rel place (next false) (next' false) c c') :
    Together m rel place (firstChild >>= next) (firstChild >>= next') c c' := by
  rcases child?_level hc 0 with ⟨hleft, hright⟩ | ⟨d, d', hd⟩
  · exact .bind_runs (runs_go ((firstChild?_eq c).trans hleft))
      (runs_go ((firstChild?_eq c').trans hright)) hstays
  · exact .bind_runs (runs_firstChild hd.left) (runs_firstChild hd.right) (hentered d d' hd)

/-- The next sibling is stepped to in both trees, or there is none. -/
theorem nextSibling_bind_together {next : Bool → Walk α} {next' : Bool → Walk β}
    (hd : c.Level m c' index d d')
    (hmoved : ∀ e e', c.Level m c' (index + 1) e e' →
      Together m rel place (next true) (next' true) e e')
    (hstays : Together m rel place (next false) (next' false) d d') :
    Together m rel place (nextSibling >>= next) (nextSibling >>= next') d d' := by
  rcases hd.nextSibling? with ⟨hleft, hright⟩ | ⟨e, e', he, hleft, hright⟩
  · exact .bind_runs (runs_go hleft) (runs_go hright) hstays
  · exact .bind_runs (runs_go hleft) (runs_go hright) (hmoved e e' he)

/-- A step keeps to children that go together. -/
theorem nextSibling_together (hd : c.Below m c' d d') :
    Together m Eq (c.Below m c') nextSibling nextSibling d d' := by
  obtain ⟨index, hindex⟩ := hd
  have hnext : Together m Eq (c.Below m c') (nextSibling >>= Pure.pure) (nextSibling >>= Pure.pure)
      d d' :=
    nextSibling_bind_together hindex (fun e e' he => .pure rfl he.below) (.pure rfl hindex.below)
  rwa [bind_pure] at hnext

/-- Between siblings, one more step is made in both trees, or in none. -/
theorem step_bind_together {next : Unit → Walk α} {next' : Unit → Walk β} (hd : c.Below m c' d d')
    (hnext : ∀ e e', c.Below m c' e e' → Together m rel place (next ()) (next' ()) e e') :
    Together m rel place (step >>= next) (step >>= next') d d' := by
  have hstep : Together m Eq (c.Below m c') step step d d' :=
    (nextSibling_together hd).bind fun _ _ _ _ _ he => .pure rfl he
  exact hstep.bind fun _ _ e e' _ he => hnext e e' he

/-- Where there is a sibling to the right, a step leads there. -/
theorem step_to_together {next : Unit → Walk α} {next' : Unit → Walk β} {sibling : SyntaxNode}
    (hd : c.Level m c' index d d') (hsibling : c.node.children[index + 1]? = some sibling)
    (hnext : ∀ e e', c.Level m c' (index + 1) e e' → e.node = sibling →
      Together m rel place (next ()) (next' ()) e e') :
    Together m rel place (step >>= next) (step >>= next') d d' := by
  rcases hd.nextSibling? with ⟨hleft, -⟩ | ⟨e, e', he, hleft, hright⟩
  · rw [nextSibling?_of_child? hd.left, child?, hsibling] at hleft
    nomatch hleft
  · refine .bind_runs (runs_step hleft) (runs_step hright) ?_
    exact hnext e e' he (Option.some.inj ((getElem?_of_child? he.left).symm.trans hsibling))

/-- From children, both walks go back to the parents. -/
theorem leave_bind_together {next : Unit → Walk α} {next' : Unit → Walk β} (hd : c.Below m c' d d')
    (hnext : Together m rel place (next ()) (next' ()) c c') :
    Together m rel place (leave >>= next) (leave >>= next') d d' := by
  obtain ⟨index, hindex⟩ := hd
  exact .bind_runs (runs_leave ⟨index, hindex.left⟩) (runs_leave ⟨index, hindex.right⟩) hnext

/-! ## Looks -/

/-- The kind under the cursor is the same in both trees. -/
theorem kind_bind_together {next : SyntaxKind → Walk α} {next' : SyntaxKind → Walk β}
    (hc : c.node.Alike m.node c'.node)
    (hnext : Together m rel place (next c.node.kind) (next' c.node.kind) c c') :
    Together m rel place (kind >>= next) (kind >>= next') c c' := by
  have hruns : Runs kind c c.node.kind c := rfl
  have hruns' : Runs kind c' c.node.kind c' := hc.kind_eq ▸ rfl
  exact .bind_runs hruns hruns' hnext

/-! ## Tests -/

/-- Two answers are the same, and yes only if something holds. -/
def Tells (holds : Prop) (found found' : Bool) : Prop := found = found' ∧ (found = true → holds)

namespace Together

variable {holds : Prop} {walk walk' : Walk Bool} {between : Cursor → Cursor → Prop}

/-- After a test, walks go together if they do for either answer. -/
theorem bind_tells {next : Bool → Walk α} {next' : Bool → Walk β}
    (h : Together m (Tells holds) between walk walk' c c')
    (hyes : holds → ∀ d d', between d d' → Together m rel place (next true) (next' true) d d')
    (hno : ∀ d d', between d d' → Together m rel place (next false) (next' false) d d') :
    Together m rel place (walk >>= next) (walk' >>= next') c c' :=
  h.bind fun found _ d d' hfound hd => by
    obtain ⟨rfl, hholds⟩ := hfound
    cases found with
    | true => exact hyes (hholds rfl) d d' hd
    | false => exact hno d d' hd

/-- After a test that comes back, walks go on from where it started. -/
theorem bind_tells_back {next : Bool → Walk α} {next' : Bool → Walk β}
    (h : Together m (Tells holds) (Back c c') walk walk' c c')
    (hyes : holds → Together m rel place (next true) (next' true) c c')
    (hno : Together m rel place (next false) (next' false) c c') :
    Together m rel place (walk >>= next) (walk' >>= next') c c' := by
  refine h.bind_tells (fun hholds d d' hback => ?_) fun d d' hback => ?_
  · obtain ⟨rfl, rfl⟩ := hback
    exact hyes hholds
  · obtain ⟨rfl, rfl⟩ := hback
    exact hno

/-- Two tests in turn go together if each does; the first is made for what it tells. -/
theorem andAlso {second second' : Walk Bool}
    (h : Together m (Tells holds) between walk walk' c c')
    (hsecond : holds → ∀ d d', between d d' → Together m Eq place second second' d d')
    (hstays : ∀ d d', between d d' → place d d') :
    Together m (Tells holds) place (Walk.andAlso walk second) (Walk.andAlso walk' second') c c' :=
  h.bind_tells
    (fun hholds d d' hd => (hsecond hholds d d' hd).mono
      (fun _ _ hanswer => ⟨hanswer, fun _ => hholds⟩) fun _ _ hplace => hplace)
    fun d d' hd => .pure ⟨rfl, nofun⟩ (hstays d d' hd)

/-- A test that tells nothing but its answer. -/
theorem tells (h : Together m Eq place walk walk' c c') :
    Together m (Tells True) place walk walk' c c' :=
  h.mono (fun _ _ hanswer => ⟨hanswer, fun _ => trivial⟩) fun _ _ hplace => hplace

/-- The answer of a test is the same on both sides. -/
theorem answer (h : Together m (Tells holds) place walk walk' c c') :
    Together m Eq place walk walk' c c' :=
  h.mono (fun _ _ hanswer => hanswer.1) fun _ _ hplace => hplace

end Together

/-- A look at the kind has the same result in both trees. -/
theorem isAt_tells {kind : SyntaxKind}
    (hc : c.node.Alike m.node c'.node) :
    Together m (Tells (c.node.kind = kind)) (Back c c') (isAt kind) (isAt kind) c c' := by
  have hruns : Runs (isAt kind) c (decide (c.node.kind = kind)) c := rfl
  have hruns' : Runs (isAt kind) c' (decide (c.node.kind = kind)) c' := hc.kind_eq ▸ rfl
  exact .runs hruns hruns' ⟨rfl, of_decide_eq_true⟩ ⟨rfl, rfl⟩

/-- After a look at the kind, walks go on together if they do for either answer. -/
theorem isAt_bind_together {kind : SyntaxKind} {next : Bool → Walk α} {next' : Bool → Walk β}
    (hc : c.node.Alike m.node c'.node)
    (hyes : c.node.kind = kind → Together m rel place (next true) (next' true) c c')
    (hno : Together m rel place (next false) (next' false) c c') :
    Together m rel place (isAt kind >>= next) (isAt kind >>= next') c c' :=
  (isAt_tells hc).bind_tells_back hyes hno

/-- A look at a kind that is known. -/
theorem knownKind_bind_together {kind : SyntaxKind} {next : Bool → Walk α} {next' : Bool → Walk β}
    (hc : c.node.Alike m.node c'.node) (hkind : c.node.kind = kind)
    (hnext : Together m rel place (next true) (next' true) c c') :
    Together m rel place (isAt kind >>= next) (isAt kind >>= next') c c' := by
  have hruns {c : Cursor} (h : c.node.kind = kind) : Runs (isAt kind) c true c :=
    decide_eq_true h ▸ rfl
  exact .bind_runs (hruns hkind) (hruns (hc.kind_eq ▸ hkind)) hnext

/-- A node of some kind is entered, if it is of this kind and has children. -/
theorem isAt_firstChild_bind_together {kind : SyntaxKind} {next : Bool → Walk α}
    {next' : Bool → Walk β} (hc : c.node.Alike m.node c'.node)
    (hentered : ∀ d d', c.node.kind = kind → c.Level m c' 0 d d' →
      Together m rel place (next true) (next' true) d d')
    (hno : Together m rel place (next false) (next' false) c c') :
    Together m rel place (andAlso (isAt kind) firstChild >>= next)
      (andAlso (isAt kind) firstChild >>= next') c c' := by
  rw [andAlso, bind_assoc, bind_assoc]
  refine isAt_bind_together hc (fun hkind => ?_) hno
  exact firstChild_bind_together hc (fun d d' hd => hentered d d' hkind hd) hno

/-- A look at the kind of the next sibling, if there is one. -/
theorem nextSibling_isAt_bind_together {kind : SyntaxKind} {next : Bool → Walk α}
    {next' : Bool → Walk β} (hd : c.Level m c' index d d')
    (hyes : ∀ e e', c.Level m c' (index + 1) e e' → e.node.kind = kind →
      Together m rel place (next true) (next' true) e e')
    (hno : ∀ e e', c.Below m c' e e' → Together m rel place (next false) (next' false) e e') :
    Together m rel place (andAlso nextSibling (isAt kind) >>= next)
      (andAlso nextSibling (isAt kind) >>= next') d d' := by
  rw [andAlso, bind_assoc, bind_assoc]
  refine nextSibling_bind_together hd (fun e e' he => ?_) (hno d d' hd.below)
  exact isAt_bind_together he.node (hyes e e' he) (hno e e' he.below)

end Walk

namespace Lowering

variable {rel : α → β → Prop} {place : Cursor → Cursor → Prop}

/-- The text under the cursor: the same at a leaf, and else an alike one. -/
theorem text_bind_together {next : String → Walk α} {next' : String → Walk β}
    (hl : Alike m l l') (hc : c.node.Alike m.node c'.node)
    (hnext : ∀ text other, TextsAlike text other → (c.node.kind.isLeaf = true → text = other) →
      Together m rel place (next text) (next' other) c c') :
    Together m rel place (l.text >>= next) (l'.text >>= next') c c' := by
  have hruns (l : Lowering) (c : Cursor) : Runs l.text c (l.textOf c.node.span) c := rfl
  exact .bind_runs (hruns l c) (hruns l' c') (hnext _ _ (hl.text hc.root) (hl.leaf hc.root))

/-- The text of a leaf is the same in both sources. -/
theorem leafText_bind_together {next : String → Walk α} {next' : String → Walk β}
    (hl : Alike m l l') (hc : c.node.Alike m.node c'.node) (hleaf : c.node.kind.isLeaf = true)
    (hnext : ∀ text, Together m rel place (next text) (next' text) c c') :
    Together m rel place (l.text >>= next) (l'.text >>= next') c c' :=
  text_bind_together hl hc fun text _ _ hsame => hsame hleaf ▸ hnext text

/-- A text of one line is the same in both sources. -/
theorem knownText_bind_together {next : String → Walk α} {next' : String → Walk β} {word : String}
    (hl : Alike m l l') (hc : c.node.Alike m.node c'.node) (hword : l.textOf c.node.span = word)
    (hline : '\n' ∉ word.toList)
    (hnext : Together m rel place (next word) (next' word) c c') :
    Together m rel place (l.text >>= next) (l'.text >>= next') c c' := by
  have hword' : l'.textOf c'.node.span = word := (hl.text hc.root word hline).mp hword
  have hruns {l : Lowering} {c : Cursor} (h : l.textOf c.node.span = word) :
      Runs l.text c word c := h ▸ rfl
  exact .bind_runs (hruns hword) (hruns hword') hnext

/-- A location that is found is the result of the look for it. -/
theorem runs_location {location : Location}
    (h : Outcome.locate l.source c.node.span.start = .ok location) :
    Runs l.location c location c := by
  have hlocation : l.location c = (Outcome.locate l.source c.node.span.start).bind
      fun location => .ok (location, c) := rfl
  rw [Runs, hlocation, h]
  rfl

/-- The locations under the cursors are the same. -/
theorem location_bind_together {next : Location → Walk α} {next' : Location → Walk β}
    (hl : Alike m l l') (hc : c.node.Alike m.node c'.node)
    (hnext : ∀ location, Together m rel place (next location) (next' location) c c') :
    Together m rel place (l.location >>= next) (l'.location >>= next') c c' := by
  obtain ⟨location, hlocate, hlocate'⟩ := hl.location hc.root
  exact .bind_runs (runs_location hlocate) (runs_location hlocate') (hnext location)

/-- Refusals at the same location go together if their names are the same. -/
theorem refuseAt_together (hl : Alike m l l') {location : Location} {cause cause' : Cause}
    (hfits : cause.isMismatch = false) (hname : cause.name = cause'.name) :
    Together m rel place (refuseAt location cause) (refuseAt location cause') c c' :=
  .throw (hl.refused hfits hname)

/-- So do refusals at nodes that go together. -/
theorem refuse_together (hl : Alike m l l') (hc : c.node.Alike m.node c'.node)
    {cause cause' : Cause} (hfits : cause.isMismatch = false) (hname : cause.name = cause'.name) :
    Together m rel place (l.refuse cause) (l'.refuse cause') c c' :=
  location_bind_together hl hc fun _ => refuseAt_together hl hfits hname

/-- Keywords and marks are leaves. -/
theorem isLeaf_of_isFixedText {kind : SyntaxKind} (h : kind.isFixedText = true) :
    kind.isLeaf = true := by
  cases kind <;> first | rfl | nomatch h

/-- Nodes that go together read as the same keywords and marks. -/
theorem reads_eq (hl : Alike m l l') (hc : c.node.Alike m.node c'.node) (word : String) :
    l'.reads c'.node word = l.reads c.node word := by
  unfold reads
  rw [← hc.kind_eq]
  cases hfixed : c.node.kind.isFixedText with
  | true => rw [hl.leaf hc.root (isLeaf_of_isFixedText hfixed)]
  | false => rfl

/-- A look at a keyword or mark has the same result in both trees. -/
theorem isToken_bind_reads {word : String} {next : Bool → Walk α} {next' : Bool → Walk β}
    (hl : Alike m l l') (hc : c.node.Alike m.node c'.node)
    (hyes : l.reads c.node word = true → Together m rel place (next true) (next' true) c c')
    (hno : l.reads c.node word = false → Together m rel place (next false) (next' false) c c') :
    Together m rel place (l.isToken word >>= next) (l'.isToken word >>= next') c c' := by
  have hruns : Runs (l'.isToken word) c' (l.reads c.node word) c' :=
    reads_eq hl hc word ▸ runs_isToken word c'
  refine .bind_runs (runs_isToken word c) hruns ?_
  cases hreads : l.reads c.node word with
  | true => exact hyes hreads
  | false => exact hno hreads

/-- A look at a keyword or mark that tells something only if it finds it. -/
theorem isToken_bind_together {word : String} {next : Bool → Walk α} {next' : Bool → Walk β}
    (hl : Alike m l l') (hc : c.node.Alike m.node c'.node)
    (hyes : l.reads c.node word = true → Together m rel place (next true) (next' true) c c')
    (hno : Together m rel place (next false) (next' false) c c') :
    Together m rel place (l.isToken word >>= next) (l'.isToken word >>= next') c c' :=
  isToken_bind_reads hl hc hyes fun _ => hno

/-- Looks at a keyword or mark go together. -/
theorem isToken_agree (hl : Alike m l l') (word : String) :
    Agree m Eq (l.isToken word) (l'.isToken word) :=
  fun c c' hc => by
    have hlook : Together m Eq (Back c c') (l.isToken word >>= Pure.pure)
        (l'.isToken word >>= Pure.pure) c c' :=
      isToken_bind_together hl hc (fun _ => .pure rfl ⟨rfl, rfl⟩) (.pure rfl ⟨rfl, rfl⟩)
    rwa [bind_pure, bind_pure] at hlook

/-- So do steps to one. -/
theorem stepTo_together (hl : Alike m l l') (word : String) (hd : c.Below m c' d d') :
    Together m Eq (c.Below m c') (l.stepTo word) (l'.stepTo word) d d' :=
  ((nextSibling_together hd).tells.andAlso
    (fun _ _ _ he => (isToken_agree hl word).below he) fun _ _ he => he).answer

/-! ## Phrases -/

/-- A phrase is entered. -/
theorem enter_bind_together {next : Unit → Walk α} {next' : Unit → Walk β} (hl : Alike m l l')
    (hc : c.node.Alike m.node c'.node) (hparts : c.node.kind.hasParts = true)
    (hnext : ∀ d d', c.Level m c' 0 d d' → Together m rel place (next ()) (next' ()) d d') :
    Together m rel place (enter >>= next) (enter >>= next') c c' := by
  rcases child?_level hc 0 with ⟨hleft, -⟩ | ⟨d, d', hd⟩
  · have hchildren := (hl.content hc.root).children_ne hparts
    rw [Cursor.child?, Option.map_eq_none_iff, List.getElem?_eq_none_iff] at hleft
    exact absurd (List.length_eq_zero_iff.mp (Nat.le_zero.mp hleft)) hchildren
  · exact .bind_runs (runs_enter hd.left) (runs_enter hd.right) (hnext d d' hd)

/-! ## Repetitions -/

/-- Repetitions over the siblings to the right go together. -/
theorem collect_together (hl : Alike m l l') {stop stop' : Walk Bool}
    {item item' : Walk (List α)} (hstop : Agree m Eq stop stop')
    (hitem : ∀ {index e e'}, c.Level m c' index e e' →
      Together m Eq (c.Below m c') item item' e e')
    (limit : Nat) (hd : c.Below m c' d d') :
    Together m Eq (c.Below m c') (collect stop item limit) (collect stop' item' limit) d d' := by
  induction limit generalizing d d' with
  | zero => exact .throw hl.unfinished
  | succ limit ih =>
    obtain ⟨index, hindex⟩ := hd
    refine nextSibling_bind_together hindex (fun e e' he => ?_) (.pure rfl hindex.below)
    refine hstop.bind_eq he.node fun stops => ?_
    split
    · exact .pure rfl he.below
    · refine (hitem he).bind_eq fun first f f' hf => ?_
      refine (ih hf).bind_eq fun more k k' hk => ?_
      exact .pure rfl hk

/-- Lists up to a closing bracket go together. -/
theorem listUntil_together (hl : Alike m l l') (closing : String) {item item' : Walk (List α)}
    (hitem : ∀ {index e e'}, c.Level m c' index e e' →
      Together m Eq (c.Below m c') item item' e e')
    (hd : c.Below m c' d d') :
    Together m Eq (c.Below m c') (l.listUntil closing item) (l'.listUntil closing item') d d' := by
  rw [listUntil, listUntil, ← hl.limit]
  refine collect_together hl (isToken_agree hl closing) (fun {index e e'} he => ?_) l.limit hd
  refine (isToken_agree hl ",").bind_eq he.node fun isComma => ?_
  split
  · exact .pure rfl he.below
  · exact hitem he

end Lowering
end Offside
