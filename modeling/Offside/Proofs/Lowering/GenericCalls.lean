import Offside.Proofs.Lowering.ComesBack
import Offside.Proofs.Lowering.Limits
import Offside.Proofs.Lowering.Rows

/-!
# Calls with type arguments

Brackets behind the callee of a call hold type arguments or an index.  A first look at the kinds of
the nodes between them decides which; the types are read only then.  The look knows names, `None`
and lists of a type, but not that a name with type arguments is a type as well: a call with such a
type argument is taken for a call of an element, and refused.

Main definitions:

- `Walk.Gives`: a walk succeeds with a value.
- `TypeRow`: types in a row up to a closing bracket.
- `TypedCall`: a call of a name with type arguments, each of which is a type on its own.

Main results:

- Theorem `genericCallee_runs`: what the look at a callee with type arguments gives.
- Theorem `expr_typedCall`: which calls with type arguments are lowered as such.
-/

namespace Offside

/-- The kinds of nodes that can be types. -/
def SyntaxKind.canBeType : SyntaxKind → Bool
  | .variableName | .none | .arrayExpression | .memberExpression => true
  | _ => false

theorem SyntaxKind.isFixedText_of_canBeType {kind : SyntaxKind} (h : kind.canBeType = true) :
    kind.isFixedText = false := by
  cases kind <;> first | rfl | cases h

/-- Started at a cursor, a walk succeeds with a value. -/
def Walk.Gives {α : Type} (walk : Walk α) (c : Cursor) (value : α) : Prop :=
  ∃ last, Runs walk c value last

/-- From one child of a node on stand types in a row, with a comma between one and the next and a
closing bracket behind the last.  Each of them is a type on its own. -/
inductive TypeRow (l : Lowering) (c : Cursor) : Nat → List (SyntaxNode × Ty) → Prop
  | last {index d closing ty} (isChild : c.child? index = some d) (isType : l.ty.Gives d ty)
      (isBehind : c.child? (index + 1) = some closing)
      (closes : l.reads closing.node "]" = true) : TypeRow l c index [(d.node, ty)]
  | more {index d comma ty row} (isChild : c.child? index = some d) (isType : l.ty.Gives d ty)
      (isBehind : c.child? (index + 1) = some comma) (isMark : comma.node.kind = .punctuation)
      (separates : l.reads comma.node "," = true) (onMore : TypeRow l c (index + 2) row) :
      TypeRow l c index ((d.node, ty) :: row)

/-- A name with type arguments in brackets. -/
structure TypedName (l : Lowering) (c : Cursor) (name : String) (row : List (SyntaxNode × Ty)) :
    Prop where
  isMember : c.node.kind = .memberExpression
  object : ∃ d, c.child? 0 = some d ∧ d.node.kind = .variableName ∧ l.textOf d.node.span = name
  opening : ∃ d, c.child? 1 = some d ∧ l.reads d.node "[" = true
  types : TypeRow l c 2 row

/-- A call of a name with type arguments, with arguments that are lowered on their own. -/
structure TypedCall (l : Lowering) (c : Cursor) (a : Location) (name : String)
    (row : List (SyntaxNode × Ty)) (arguments : List (Expr Location)) : Prop where
  covers : l.Covers c.node
  located : l.location.Gives c a
  isCall : c.node.kind = .callExpression
  callee : ∃ d, c.child? 0 = some d ∧ TypedName l d name row
  onArguments : ∃ d, c.child? 1 = some d ∧ l.arguments.Gives d arguments

/-! ## Walks that succeed -/

namespace Walk

variable {α : Type} {c : Cursor}

/-- A walk that comes back ends where it started. -/
theorem Gives.runs {walk : Walk α} {value : α} (h : walk.Gives c value) (hback : ComesBack walk c) :
    Runs walk c value c := by
  rcases h with ⟨last, hruns⟩
  rwa [Meets.of_runs hback hruns] at hruns

end Walk

namespace Lowering

open Walk

variable {l : Lowering} {c d : Cursor} {index limit : Nat} {row : List (SyntaxNode × Ty)}
  {name : String}

/-- There are two rounds left in a repetition, if there are two more children. -/
theorem two_rounds_left (h : c.child? (index + 1 + 1) = some d)
    (hlimit : c.node.children.length ≤ index + limit) : ∃ less, limit = less + 2 := by
  have hlt := Cursor.lt_length_of_child? h
  exact ⟨limit - 2, by omega⟩

/-! ## Types -/

/-- A type is a name, `None`, a list of one type, or a name with type arguments. -/
theorem canBeType_of_ty {ty : Ty} (hcovers : l.Covers c.node) (h : l.ty.Gives c ty) :
    c.node.kind.canBeType = true := by
  rcases h with ⟨last, hruns⟩
  have hkinds : OnSuccess (l.tyWith l.ty) c fun _ _ => c.node.kind.canBeType = true := by
    refine .bind_runs .kind ?_
    split
    · next hkind => exact (onSuccess_true _).mono fun _ _ _ => by rw [hkind]; rfl
    · next hkind => exact (onSuccess_true _).mono fun _ _ _ => by rw [hkind]; rfl
    · next hkind => exact (onSuccess_true _).mono fun _ _ _ => by rw [hkind]; rfl
    · next hkind => exact (onSuccess_true _).mono fun _ _ _ => by rw [hkind]; rfl
    · exact onSuccess_throws
  have htyWith : Runs (l.tyWith l.ty) c ty last := (ty_unfold hcovers).symm.trans hruns
  have hkind := Meets.of_runs hkinds htyWith
  exact hkind

/-! ## The first look -/

section Look

variable {found : Bool} {e : Cursor} (hd : c.child? index = some d)
  (he : c.child? (index + 1) = some e)
include hd he

/-- The look ends at the closing bracket. -/
theorem areTypes_closing (hcloses : l.reads e.node "]" = true) :
    Runs (l.areTypes (limit + 1) found) d found e := by
  refine Runs.bind (runs_nextSibling hd he) (Runs.bind (runs_isToken "]" e) ?_)
  rw [hcloses]
  exact .pure found e

/-- The look passes over a comma. -/
theorem areTypes_comma (hmark : e.node.kind = .punctuation)
    (hseparates : l.reads e.node "," = true) :
    l.areTypes (limit + 1) found d = l.areTypes limit found e := by
  refine Eq.trans (Runs.bind_eq (runs_nextSibling hd he)) ?_
  refine Eq.trans (Runs.bind_eq (runs_isToken "]" e)) ?_
  rw [reads_eq_false hseparates (by decide)]
  refine Eq.trans (Runs.bind_eq .kind) ?_
  rw [hmark]
  refine Eq.trans (Runs.bind_eq (runs_isToken "," e)) ?_
  rw [hseparates]
  rfl

/-- The look goes on behind a type, unless this is a name with type arguments. -/
theorem areTypes_type {more : Bool} (hkind : e.node.kind.canBeType = true)
    (hmore : e.node.kind ≠ .memberExpression →
      ∃ last, c.Under last ∧ Runs (l.areTypes limit true) e more last) :
    ∃ last, c.Under last ∧
      Runs (l.areTypes (limit + 1) found) d (e.node.kind ≠ .memberExpression && more) last := by
  have hlook : l.areTypes (limit + 1) found d =
      if e.node.kind = .memberExpression then .ok (false, e) else l.areTypes limit true e := by
    refine Eq.trans (Runs.bind_eq (runs_nextSibling hd he)) ?_
    refine Eq.trans (Runs.bind_eq (runs_isToken "]" e)) ?_
    rw [reads_of_not_fixed (SyntaxKind.isFixedText_of_canBeType hkind)]
    refine Eq.trans (Runs.bind_eq .kind) ?_
    generalize e.node.kind = kind at hkind
    cases kind <;> first | rfl | cases hkind
  by_cases hmember : e.node.kind = .memberExpression
  · refine ⟨e, ⟨_, he⟩, hlook.trans ?_⟩
    simp [hmember]
  · obtain ⟨last, hlast, hruns⟩ := hmore hmember
    refine ⟨last, hlast, hlook.trans ?_⟩
    simpa [Runs, hmember] using hruns

end Look

/-- Whether the look knows all types of a row: none is a name with type arguments. -/
def seesAll (row : List (SyntaxNode × Ty)) : Bool :=
  row.all fun entry => entry.1.kind ≠ .memberExpression

theorem seesAll_iff : seesAll row = true ↔ ∀ entry ∈ row, entry.1.kind ≠ .memberExpression := by
  simp [seesAll]

/-- The look tells whether it knows all types of a row. -/
theorem areTypes_row {first : Nat} (hcovers : l.Covers c.node) (h : TypeRow l c first row)
    (hfirst : first = index + 1) (hd : c.child? index = some d)
    (hlimit : c.node.children.length ≤ index + limit) (found : Bool) :
    ∃ last, c.Under last ∧ Runs (l.areTypes limit found) d (seesAll row) last := by
  -- Each round of the induction is two rounds of the look: at a type and at the mark behind it.
  induction h generalizing index d limit found with
  | @last _ e closing ty isChild isType isBehind closes =>
    subst hfirst
    have hkind := canBeType_of_ty (hcovers.of_mem (Cursor.Under.mem ⟨_, isChild⟩)) isType
    obtain ⟨limit, rfl⟩ := two_rounds_left isBehind hlimit
    apply areTypes_type hd isChild hkind
    intro _
    exact ⟨closing, ⟨_, isBehind⟩, areTypes_closing isChild isBehind closes⟩
  | @more _ e comma ty row isChild isType isBehind isMark separates onMore ih =>
    subst hfirst
    have hkind := canBeType_of_ty (hcovers.of_mem (Cursor.Under.mem ⟨_, isChild⟩)) isType
    obtain ⟨limit, rfl⟩ := two_rounds_left isBehind hlimit
    apply areTypes_type hd isChild hkind
    intro _
    have hless : c.node.children.length ≤ index + 1 + 1 + limit := by omega
    obtain ⟨last, hlast, hruns⟩ := ih rfl isBehind hless true
    exact ⟨last, hlast, (areTypes_comma isChild isBehind isMark separates).trans hruns⟩

/-! ## The types of a row -/

section Collect

variable {e : Cursor} {tys : List Ty} {last : Cursor}

/-- The item of a list of types. -/
def typeItem (l : Lowering) : Walk (List Ty) := do
  if ← l.isToken "," then return [] else return [← l.ty]

theorem collect_type {ty : Ty} (hd : c.child? index = some d)
    (he : c.child? (index + 1) = some e) (hcovers : l.Covers e.node) (htype : l.ty.Gives e ty)
    (hmore : Runs (collect (l.isToken "]") l.typeItem limit) e tys last) :
    Runs (collect (l.isToken "]") l.typeItem (limit + 1)) d (ty :: tys) last := by
  have hfixed := SyntaxKind.isFixedText_of_canBeType (canBeType_of_ty hcovers htype)
  have hitem : Runs l.typeItem e [ty] e := by
    refine Runs.bind (runs_isToken "," e) ?_
    rw [reads_of_not_fixed hfixed]
    exact Runs.bind (htype.runs (ty_comesBack hcovers)) (.pure _ e)
  refine Runs.bind (runs_nextSibling hd he) (Runs.bind (runs_isToken "]" e) ?_)
  rw [reads_of_not_fixed hfixed]
  exact Runs.bind hitem (Runs.bind hmore (.pure _ last))

theorem collect_comma (hd : c.child? index = some d) (he : c.child? (index + 1) = some e)
    (hseparates : l.reads e.node "," = true)
    (hmore : Runs (collect (l.isToken "]") l.typeItem limit) e tys last) :
    Runs (collect (l.isToken "]") l.typeItem (limit + 1)) d tys last := by
  have hitem : Runs l.typeItem e [] e := by
    refine Runs.bind (runs_isToken "," e) ?_
    rw [hseparates]
    exact .pure _ e
  refine Runs.bind (runs_nextSibling hd he) (Runs.bind (runs_isToken "]" e) ?_)
  rw [reads_eq_false hseparates (by decide)]
  exact Runs.bind hitem (Runs.bind hmore (.pure _ last))

theorem collect_closing (hd : c.child? index = some d) (he : c.child? (index + 1) = some e)
    (hcloses : l.reads e.node "]" = true) :
    Runs (collect (l.isToken "]") l.typeItem (limit + 1)) d [] e := by
  refine Runs.bind (runs_nextSibling hd he) (Runs.bind (runs_isToken "]" e) ?_)
  rw [hcloses]
  exact .pure _ e

end Collect

/-- A list of types gives what each of them is on its own. -/
theorem collect_row {first : Nat} (hcovers : l.Covers c.node) (h : TypeRow l c first row)
    (hfirst : first = index + 1) (hd : c.child? index = some d)
    (hlimit : c.node.children.length ≤ index + limit) :
    ∃ last, c.Under last ∧
      Runs (collect (l.isToken "]") l.typeItem limit) d (row.map Prod.snd) last := by
  induction h generalizing index d limit with
  | @last _ e closing ty isChild isType isBehind closes =>
    subst hfirst
    have htype := hcovers.of_mem (Cursor.Under.mem ⟨_, isChild⟩)
    obtain ⟨limit, rfl⟩ := two_rounds_left isBehind hlimit
    refine ⟨closing, ⟨_, isBehind⟩, collect_type hd isChild htype isType ?_⟩
    exact collect_closing isChild isBehind closes
  | @more _ e comma ty row isChild isType isBehind isMark separates onMore ih =>
    subst hfirst
    have htype := hcovers.of_mem (Cursor.Under.mem ⟨_, isChild⟩)
    obtain ⟨limit, rfl⟩ := two_rounds_left isBehind hlimit
    have hless : c.node.children.length ≤ index + 1 + 1 + limit := by omega
    obtain ⟨last, hlast, hruns⟩ := ih rfl isBehind hless
    refine ⟨last, hlast, collect_type hd isChild htype isType ?_⟩
    exact collect_comma isChild isBehind separates hruns

/-! ## Callees with type arguments -/

/-- A callee with type arguments is one whose type arguments are all known to the first look. -/
theorem genericCallee_runs (hcovers : l.Covers c.node) (h : TypedName l c name row) :
    Runs l.genericCallee c (if seesAll row then some (name, row.map Prod.snd) else none) c := by
  rcases h with ⟨hmember, ⟨d, hd, hvariable, hname⟩, ⟨e, he, hopens⟩, htypes⟩
  obtain ⟨seen, hseen, hlook⟩ := areTypes_row hcovers htypes rfl he
    (hcovers.length_children_le 1) false
  obtain ⟨last, hlast, htys⟩ := collect_row hcovers htypes rfl he (hcovers.length_children_le 1)
  have hopening : Runs (l.stepTo "[") d true e := by
    have hruns : Runs (l.stepTo "[") d (l.reads e.node "[") e :=
      Runs.bind (runs_nextSibling hd he) (runs_isToken "[" e)
    rwa [hopens] at hruns
  have htext : Runs l.text d name d := hname ▸ .text
  refine Runs.bind (Runs.bind (.isAt_true hmember) (runs_firstChild hd)) (Runs.bind htext ?_)
  refine Runs.bind (Runs.bind (Runs.bind (.isAt_true hvariable) hopening) hlook) ?_
  refine Runs.bind (runs_leave hseen) ?_
  split
  · refine Runs.bind (Runs.bind (runs_firstChild hd) (.pure _ d)) ?_
    refine Runs.bind (Runs.bind (runs_nextSibling hd he) (.pure _ e)) ?_
    exact Runs.bind htys (Runs.bind (runs_leave hlast) (.pure _ c))
  · exact .pure _ c

/-! ## Calls -/

section Calls

variable {a : Location} {arguments : List (Expr Location)}

/-- Behind the name of a callee with type arguments is an opening bracket, so that it is read as
an element of a list unless it has been found to have type arguments. -/
theorem member_onSuccess (hcovers : l.Covers c.node) (h : TypedName l c name row) :
    OnSuccess l.expr c fun callee _ => ∃ b object index, callee = .index b object index := by
  rcases h with ⟨hmember, ⟨d, hd, -, -⟩, ⟨e, he, hopens⟩, -⟩
  have hwalk : OnSuccess (l.exprWith l.expr) c fun callee _ =>
      ∃ b object index, callee = .index b object index := by
    apply location_bind
    intro b _
    refine .bind_runs .kind ?_
    rw [hmember]
    refine .bind_runs (Runs.bind (runs_firstChild hd) (.pure _ d)) ?_
    apply Meets.bind (expr_comesBack (hcovers.of_mem (Cursor.Under.mem ⟨_, hd⟩))).onSuccess
    rintro object _ rfl
    refine .bind_runs (Runs.bind (runs_nextSibling hd he) (.pure _ e)) ?_
    refine .bind_runs (runs_isToken "." e) ?_
    rw [reads_eq_false hopens (by decide)]
    refine .bind_runs (runs_isToken "[" e) ?_
    rw [hopens]
    apply (onSuccess_true _).bind
    intro parts f _
    apply (onSuccess_true _).bind
    intro _ g _
    split
    · exact .throw trivial
    · split
      · exact .throw trivial
      · split
        · split
          · exact .throw trivial
          · exact .pure ⟨_, _, _, rfl⟩
        · exact .throw trivial
  unfold OnSuccess Meets at hwalk ⊢
  rwa [expr_unfold hcovers]

/-- A call whose callee has type arguments that the first look does not know is refused. -/
theorem call_onSuccess_none (hcovers : l.Covers c.node) (hd : c.child? 0 = some d)
    (h : TypedName l d name row) (hunseen : seesAll row = false) :
    OnSuccess (l.call l.expr) c fun _ _ => False := by
  have hcallee := hcovers.of_mem (Cursor.Under.mem ⟨_, hd⟩)
  have hgeneric := genericCallee_runs hcallee h
  rw [hunseen] at hgeneric
  apply location_bind
  intro a _
  refine .bind_runs (Runs.bind (runs_firstChild hd) (.pure _ d)) ?_
  refine .bind_runs hgeneric ?_
  apply (member_onSuccess hcallee h).bind
  rintro _ e ⟨b, object, index, rfl⟩
  apply (onSuccess_true _).bind
  intro calleeText f _
  apply (onSuccess_true _).bind
  intro _ g _
  apply (onSuccess_true _).bind
  intro arguments k _
  apply (onSuccess_true _).bind
  intro _ m _
  exact .throw trivial

theorem expr_call_eq (hcovers : l.Covers c.node) (hcall : c.node.kind = .callExpression)
    (located : l.location.Gives c a) : l.expr c = l.call l.expr c := by
  have ha := located.runs (location_comesBack c)
  rw [expr_unfold hcovers]
  refine Eq.trans (Runs.bind_eq ha) ?_
  refine Eq.trans (Runs.bind_eq .kind) ?_
  rw [hcall]

/-- Type arguments that the first look knows make a call with just these type arguments. -/
theorem typedCall_runs (h : TypedCall l c a name row arguments) (hseen : seesAll row = true) :
    Runs l.expr c (.call a name (row.map Prod.snd) arguments) c := by
  rcases h with ⟨hcovers, located, hcall, ⟨d, hd, hcallee⟩, ⟨e, he, harguments⟩⟩
  have hgeneric := genericCallee_runs (hcovers.of_mem (Cursor.Under.mem ⟨_, hd⟩)) hcallee
  rw [hseen] at hgeneric
  refine (expr_call_eq hcovers hcall located).trans ?_
  refine Runs.bind (located.runs (location_comesBack c)) ?_
  refine Runs.bind (Runs.bind (runs_firstChild hd) (.pure _ d)) (Runs.bind hgeneric ?_)
  refine Runs.bind (Runs.bind (runs_nextSibling hd he) (.pure _ e)) ?_
  have hback := arguments_comesBack (hcovers.of_mem (Cursor.Under.mem ⟨_, he⟩))
  refine Runs.bind (harguments.runs hback) ?_
  exact Runs.bind (runs_leave ⟨_, he⟩) (.pure _ c)

/-- A call with type arguments that becomes anything has none that the first look does not know. -/
theorem seen_of_gives {e : Expr Location} (h : TypedCall l c a name row arguments)
    (hgives : l.expr.Gives c e) : seesAll row = true := by
  rcases hgives with ⟨last, hruns⟩
  obtain ⟨d, hd, hcallee⟩ := h.callee
  by_contra hunseen
  have hfails := call_onSuccess_none h.covers hd hcallee (Bool.eq_false_iff.mpr hunseen)
  have hcall := (expr_call_eq h.covers h.isCall h.located).symm.trans hruns
  have hnothing := Meets.of_runs hfails hcall
  exact hnothing

/-- A call of a name with type arguments, each of which is a type on its own, becomes the call with
these type arguments if none of them is a name with type arguments itself.  Otherwise, it does not
become anything. -/
theorem expr_typedCall (h : TypedCall l c a name row arguments) :
    (l.expr.Gives c (.call a name (row.map Prod.snd) arguments) ↔
      ∀ entry ∈ row, entry.1.kind ≠ .memberExpression) ∧
    ((∃ e, l.expr.Gives c e) ↔ ∀ entry ∈ row, entry.1.kind ≠ .memberExpression) := by
  have hif (hseen : ∀ entry ∈ row, entry.1.kind ≠ .memberExpression) :
      l.expr.Gives c (.call a name (row.map Prod.snd) arguments) :=
    ⟨c, typedCall_runs h (seesAll_iff.mpr hseen)⟩
  have honly {e : Expr Location} (hgives : l.expr.Gives c e) :
      ∀ entry ∈ row, entry.1.kind ≠ .memberExpression := seesAll_iff.mp (seen_of_gives h hgives)
  exact ⟨⟨honly, hif⟩, fun ⟨_, hgives⟩ => honly hgives, fun hseen => ⟨_, hif hseen⟩⟩

end Calls

/-- The tree of `f[...]`, where something stands between the brackets up to some position. -/
def typedCallee (inside : List SyntaxNode) (stop : Nat) : SyntaxNode :=
  .branch .memberExpression (.leaf .variableName ⟨0, 1⟩ :: .leaf .punctuation ⟨1, 2⟩ ::
    inside ++ [.leaf .punctuation ⟨stop, stop + 1⟩])

/-- The tree of `f[...](1)`. -/
def callOfOne (inside : List SyntaxNode) (stop : Nat) : SyntaxNode :=
  .branch .callExpression
    [typedCallee inside stop,
      .branch .argList [.leaf .punctuation ⟨stop + 1, stop + 2⟩,
        .leaf .number ⟨stop + 2, stop + 3⟩, .leaf .punctuation ⟨stop + 3, stop + 4⟩]]

/-- The number `1` in a source of one line. -/
def oneAt (column : Nat) (text : String) : Expr Location :=
  .literal ⟨1, column, text⟩ ⟨⟨1, column, text⟩, .num 1⟩

/-- The type `[C]` in `f[int,[C]](1)`. -/
def listOfC : SyntaxNode :=
  .branch .arrayExpression
    [.leaf .punctuation ⟨6, 7⟩, .leaf .variableName ⟨7, 8⟩, .leaf .punctuation ⟨8, 9⟩]

/-- The tree of `f[int,[C]](1)`. -/
def listTypeCall : SyntaxNode :=
  callOfOne [.leaf .variableName ⟨2, 5⟩, .leaf .punctuation ⟨5, 6⟩, listOfC] 9

/-- The lowering of `f[int,[C]](1)`. -/
def listTypeLowering : Lowering := ofTree "f[int,[C]](1)".toList listTypeCall

/-- The types `int` and `[C]` are found, and `f[int,[C]](1)` is the call with them. -/
theorem expr_typedCall_list :
    TypedCall listTypeLowering (.top listTypeCall) ⟨1, 1, "f[int,[C]](1)"⟩ "f"
        [(.leaf .variableName ⟨2, 5⟩, .num), (listOfC, .list (.plain "C"))]
        [oneAt 12 "f[int,[C]](1)"] ∧
      listTypeLowering.expr.Gives (.top listTypeCall) (.call ⟨1, 1, "f[int,[C]](1)"⟩ "f"
        [.num, .list (.plain "C")] [oneAt 12 "f[int,[C]](1)"]) := by
  have hfilled : listTypeCall.Filled := by
    unfold SyntaxNode.Filled
    decide
  have hcallee : ∃ d, (Cursor.top listTypeCall).child? 0 = some d ∧
      TypedName listTypeLowering d "f"
        [(.leaf .variableName ⟨2, 5⟩, .num), (listOfC, .list (.plain "C"))] := by
    refine ⟨_, rfl, rfl, ⟨_, rfl, rfl, rfl⟩, ⟨_, rfl, rfl⟩, ?_⟩
    exact .more (d := ⟨.leaf .variableName ⟨2, 5⟩, _⟩) rfl ⟨_, rfl⟩ rfl rfl rfl
      (.last (d := ⟨listOfC, _⟩) rfl ⟨_, rfl⟩ rfl rfl)
  have harguments : ∃ d, (Cursor.top listTypeCall).child? 1 = some d ∧
      listTypeLowering.arguments.Gives d [oneAt 12 "f[int,[C]](1)"] := ⟨_, rfl, _, rfl⟩
  have hcall : TypedCall listTypeLowering (.top listTypeCall) ⟨1, 1, "f[int,[C]](1)"⟩ "f"
      [(.leaf .variableName ⟨2, 5⟩, .num), (listOfC, .list (.plain "C"))]
      [oneAt 12 "f[int,[C]](1)"] :=
    ⟨covers_ofTree _ hfilled, ⟨_, rfl⟩, rfl, hcallee, harguments⟩
  exact ⟨hcall, (expr_typedCall hcall).1.mpr (by decide)⟩

/-- The type `C[int]` in `f[C[int]](1)`. -/
def nestedType : SyntaxNode :=
  .branch .memberExpression
    [.leaf .variableName ⟨2, 3⟩, .leaf .punctuation ⟨3, 4⟩, .leaf .variableName ⟨4, 7⟩,
      .leaf .punctuation ⟨7, 8⟩]

/-- The tree of `f[C[int]](1)`. -/
def nestedTypeCall : SyntaxNode := callOfOne [nestedType] 8

/-- The lowering of `f[C[int]](1)`. -/
def nestedTypeLowering : Lowering := ofTree "f[C[int]](1)".toList nestedTypeCall

/-- The type `C[int]` is a type on its own, but `f[C[int]](1)` is refused. -/
theorem expr_typedCall_nested :
    TypedCall nestedTypeLowering (.top nestedTypeCall) ⟨1, 1, "f[C[int]](1)"⟩ "f"
        [(nestedType, .object "C" [.num])] [oneAt 11 "f[C[int]](1)"] ∧
      (¬ ∃ e, nestedTypeLowering.expr.Gives (.top nestedTypeCall) e) ∧
      ¬ ∃ program, parseProgram "f[C[int]](1)".toList = .ok program := by
  have hfilled : nestedTypeCall.Filled := by
    unfold SyntaxNode.Filled
    decide
  have hcallee : ∃ d, (Cursor.top nestedTypeCall).child? 0 = some d ∧
      TypedName nestedTypeLowering d "f" [(nestedType, .object "C" [.num])] := by
    refine ⟨_, rfl, rfl, ⟨_, rfl, rfl, rfl⟩, ⟨_, rfl, rfl⟩, ?_⟩
    exact .last (d := ⟨nestedType, _⟩) rfl ⟨_, rfl⟩ rfl rfl
  have harguments : ∃ d, (Cursor.top nestedTypeCall).child? 1 = some d ∧
      nestedTypeLowering.arguments.Gives d [oneAt 11 "f[C[int]](1)"] := ⟨_, rfl, _, rfl⟩
  have hcall : TypedCall nestedTypeLowering (.top nestedTypeCall) ⟨1, 1, "f[C[int]](1)"⟩ "f"
      [(nestedType, .object "C" [.num])] [oneAt 11 "f[C[int]](1)"] :=
    ⟨covers_ofTree _ hfilled, ⟨_, rfl⟩, rfl, hcallee, harguments⟩
  have hrefused : (parseProgram "f[C[int]](1)".toList).isOk = false := by decide +kernel
  refine ⟨hcall, fun ⟨_, hgives⟩ => Bool.false_ne_true (seen_of_gives hcall hgives), ?_⟩
  rintro ⟨program, hprogram⟩
  rw [hprogram] at hrefused
  nomatch hrefused

end Lowering
end Offside
