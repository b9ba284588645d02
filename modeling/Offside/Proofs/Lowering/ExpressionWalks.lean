import Offside.Lowering.Expressions
import Offside.Proofs.Lowering.Moves

/-!
# Walks over types and expressions

Every walk over a type or an expression comes back, as long as the phrases in it have the
children that it enters.  For each form there is one lemma about any walk over the smaller
phrases; the knot is tied by induction on the fuel, which the size of a node bounds.

Main results:

- Theorem `ty_comesBack`: the walk over a type comes back.
- Theorem `expr_comesBack`: the walk over an expression comes back.
-/

namespace Offside
namespace Lowering

open Walk

variable {l : Lowering} {c d : Cursor}

/-! ## Types -/

/-- What is thrown for a type does not say that the fuel was used up. -/
theorem invalidType_bind {β : Type} {next : Failure → Walk β} {post : β → Cursor → Prop}
    (hnext : ∀ failure, failure ≠ .unfinished → Terminates (next failure) c post) :
    Terminates (l.invalidType >>= next) c post := by
  have hinvalid : Terminates l.invalidType c fun failure last =>
      failure ≠ .unfinished ∧ last = c := by
    apply (text_comesBack c).bind
    intro text
    apply (location_comesBack c).bind
    intro location
    exact .pure ⟨nofun, rfl⟩
  apply hinvalid.bind
  rintro failure _ ⟨hfailure, rfl⟩
  exact hnext failure hfailure

/-- A type, over a walk for the types inside. -/
theorem tyWith_comesBack {inner : Walk Ty} (hcovers : l.Covers c.node)
    (hinner : ∀ d, c.Under d → ComesBack inner d) : ComesBack (l.tyWith inner) c := by
  apply kind_bind
  split
  · exact (text_comesBack c).bind fun _ => .pure rfl
  · exact .pure rfl
  · next hkind =>
    apply invalidType_bind
    intro invalid hinvalid
    apply enter_bind (hcovers.children_ne hkind rfl)
    rintro d ⟨index, hd⟩
    apply nextSibling_bind hd
    · intro e he
      apply (isToken_comesBack "]" e).bind
      intro isClosing
      split
      · exact leave_bind ⟨_, he⟩ (.throw hinvalid)
      · apply (hinner e ⟨_, he⟩).bind
        intro element
        apply (stepTo_under "]" ⟨_, he⟩).bind
        intro closed f hf
        apply leave_bind hf
        split
        · exact .pure rfl
        · exact .throw hinvalid
    · exact leave_bind ⟨_, hd⟩ (.throw hinvalid)
  · next hkind =>
    apply invalidType_bind
    intro invalid hinvalid
    apply enter_bind (hcovers.children_ne hkind rfl)
    intro d hd
    apply (text_comesBack d).bind
    intro name
    apply (andAlso_under ((isAt_comesBack _ d).under hd) fun e he => stepTo_under "[" he).bind
    intro opened e he
    split
    · apply (listUntil_under hcovers "]" he ?_).bind
      · intro arguments f hf
        exact leave_bind hf (.pure rfl)
      · intro f hf
        exact (hinner f hf).bind fun _ => .pure rfl
    · exact leave_bind he (.throw hinvalid)
  · apply invalidType_bind
    intro invalid hinvalid
    exact .throw hinvalid

/-- A type comes back within a limit that is enough for its tree. -/
theorem tyWithin_comesBack {fuel : Nat} (hcovers : l.Covers c.node) (hfuel : c.node.size ≤ fuel) :
    ComesBack (l.tyWithin fuel) c := by
  induction fuel generalizing c with
  | zero =>
    have hpos := c.node.size_pos
    omega
  | succ fuel ih =>
    apply tyWith_comesBack hcovers
    intro d hd
    have hsize := SyntaxNode.size_lt_of_mem hd.mem
    exact ih (hcovers.of_mem hd.mem) (by omega)

/-- The walk over a type comes back. -/
theorem ty_comesBack (hcovers : l.Covers c.node) : ComesBack l.ty c :=
  tyWithin_comesBack hcovers hcovers.size_le

/-- The type behind a colon or an arrow comes back to its phrase. -/
theorem typeDef_comesBack (hcovers : l.Covers c.node) (hkind : c.node.kind = .typeDef) :
    ComesBack l.typeDef c := by
  apply enter_bind (hcovers.children_ne hkind rfl)
  intro d hd
  apply step_bind hd
  intro e he
  apply (ty_comesBack (hcovers.of_mem he.mem)).bind
  intro ty
  exact leave_bind he (.pure rfl)

/-! ## Literals -/

/-- A look at the text of a callee comes back. -/
theorem calleeText_comesBack (c : Cursor) : ComesBack l.calleeText c := by
  apply firstChild_bind
  · intro d hd
    apply (text_comesBack d).bind
    intro text
    exact leave_bind ⟨0, hd⟩ (.pure rfl)
  · intro _
    exact .pure rfl

/-- A literal comes back. -/
theorem literal_comesBack (c : Cursor) : ComesBack l.literal c := by
  apply (location_comesBack c).bind
  intro location
  apply (text_comesBack c).bind
  intro text
  apply kind_bind
  split
  · split
    · exact .pure rfl
    · exact refuse_terminates
  · exact .pure rfl
  · exact .pure rfl
  · apply (calleeText_comesBack c).bind
    intro callee
    split
    · exact .pure rfl
    · exact refuse_terminates
  · exact refuse_terminates

/-! ## Expressions -/

section Parts

variable {inner : Walk (Expr Location)}

/-- Arguments come back to their list. -/
theorem argumentsWith_comesBack (hcovers : l.Covers c.node)
    (hinner : ∀ d, c.Under d → ComesBack inner d) : ComesBack (l.argumentsWith inner) c := by
  apply firstChild_bind
  · intro d hd
    apply (listUntil_under hcovers ")" ⟨0, hd⟩ ?_).bind
    · intro arguments e he
      exact leave_bind he (.pure rfl)
    · intro e he
      exact (hinner e he).bind fun _ => .pure rfl
  · intro _
    exact .pure rfl

/-- The look at whether siblings could be types ends among them. -/
theorem areTypes_under {limit index : Nat} {found : Bool} (hd : c.child? index = some d)
    (hlimit : c.node.children.length ≤ index + limit) :
    Terminates (l.areTypes limit found) d fun _ e => c.Under e := by
  refine Cursor.siblings_induction (motive := fun limit d =>
    ∀ found, Terminates (l.areTypes limit found) d fun _ e => c.Under e) ?_ hd hlimit found
  intro limit index d hd ih found
  apply nextSibling_bind hd
  · intro e he
    have hmore (found : Bool) := ih (Nat.lt_succ_self index) he found
    apply (isToken_comesBack "]" e).bind
    intro isClosing
    split
    · exact .pure ⟨_, he⟩
    · apply kind_bind
      split
      · exact hmore _
      · exact hmore _
      · exact hmore _
      · apply (isToken_comesBack "," e).bind
        intro isComma
        split
        · exact hmore _
        · exact .pure ⟨_, he⟩
      · exact .pure ⟨_, he⟩
  · exact .pure ⟨_, hd⟩

/-- The look at a callee with type arguments comes back, whether there are some or not. -/
theorem genericCallee_comesBack (hcovers : l.Covers c.node) : ComesBack l.genericCallee c := by
  apply isAt_firstChild_bind
  · intro d hkind hd
    have hunder : c.Under d := ⟨0, hd⟩
    apply (text_comesBack d).bind
    intro name
    have htest : Terminates (andAlso (andAlso (isAt .variableName) (l.stepTo "["))
        (l.areTypes l.limit false)) d fun _ e => c.Under e := by
      apply andAlso_under
      · apply andAlso_under ((isAt_comesBack _ d).under hunder)
        intro e he
        exact stepTo_under "[" he
      · rintro e ⟨index, he⟩
        exact areTypes_under he (hcovers.length_children_le index)
    -- Wherever the test has stopped, the walk leaves, and enters once more.
    apply htest.bind
    intro generic e he
    apply leave_bind he
    split
    · apply enter_bind (hcovers.children_ne hkind rfl)
      intro f hf
      apply step_bind hf
      intro g hg
      apply (listUntil_under hcovers "]" hg ?_).bind
      · intro arguments h hh
        exact leave_bind hh (.pure rfl)
      · intro h hh
        exact (ty_comesBack (hcovers.of_mem hh.mem)).bind fun _ => .pure rfl
    · exact .pure rfl
  · exact .pure rfl

/-- The call of a name does not move. -/
theorem callOfName_comesBack (a : Location) (name : String) (arguments : List (Expr Location))
    (c : Cursor) : ComesBack (callOfName a name arguments) c := by
  unfold ComesBack callOfName
  split
  · split
    · exact .pure rfl
    · exact refuseAt_terminates
  · split
    · split
      · exact .pure rfl
      · exact refuseAt_terminates
    · exact .pure rfl

/-- A call comes back to its phrase. -/
theorem call_comesBack (hcovers : l.Covers c.node) (hchildren : c.node.children ≠ [])
    (hinner : l.ComesBackBelow inner c) : ComesBack (l.call inner) c := by
  have harguments {d : Cursor} (hd : c.Under d) : ComesBack (l.argumentsWith inner) d :=
    argumentsWith_comesBack (hcovers.of_mem hd.mem) fun e he =>
      (hinner.descend hd).under (hcovers.of_mem hd.mem) he
  apply (location_comesBack c).bind
  intro location
  apply enter_bind hchildren
  intro d hd
  apply (genericCallee_comesBack (hcovers.of_mem hd.mem)).bind
  intro generic
  split
  · apply step_bind hd
    intro e he
    apply (harguments he).bind
    intro arguments
    exact leave_bind he (.pure rfl)
  · apply (hinner.under hcovers hd).bind
    intro callee
    apply (text_comesBack d).bind
    intro calleeText
    split
    · exact leave_bind hd (.pure rfl)
    · apply step_bind hd
      intro e he
      apply (harguments he).bind
      intro arguments
      apply leave_bind he
      split
      · exact .pure rfl
      · exact callOfName_comesBack _ _ _ c
      · exact refuseAt_terminates

/-! ### Lists, members and comprehensions -/

/-- The elements of a list end among the children of the list. -/
theorem elements_under {limit index : Nat} (hinner : ∀ d, c.Under d → ComesBack inner d)
    (hd : c.child? index = some d) (hlimit : c.node.children.length ≤ index + limit) :
    Terminates (l.elements inner limit) d fun _ e => c.Under e := by
  refine Cursor.siblings_induction (motive := fun limit d =>
    Terminates (l.elements inner limit) d fun _ e => c.Under e) ?_ hd hlimit
  intro limit index d hd ih
  apply nextSibling_bind hd
  · intro e he
    apply (isToken_comesBack "]" e).bind
    intro isClosing
    split
    · exact .pure ⟨_, he⟩
    · apply (isToken_comesBack "," e).bind
      intro isComma
      split
      · exact refuse_terminates
      · apply (hinner e ⟨_, he⟩).bind
        intro first
        apply nextSibling_bind he
        · intro f hf
          apply (isToken_comesBack "]" f).bind
          intro isClosing
          split
          · exact .pure ⟨_, hf⟩
          · apply (isToken_comesBack "," f).bind
            intro isComma
            split
            · apply (ih (by omega) hf).bind
              intro more g hg
              exact .pure hg
            · exact (text_comesBack f).bind fun _ => refuse_terminates
        · exact .pure ⟨_, he⟩
  · exact .pure ⟨_, hd⟩

/-- A list comes back to its phrase. -/
theorem list_comesBack (hcovers : l.Covers c.node) (hchildren : c.node.children ≠ [])
    (hinner : l.ComesBackBelow inner c) : ComesBack (l.list inner) c := by
  apply (location_comesBack c).bind
  intro location
  apply enter_bind hchildren
  rintro d ⟨index, hd⟩
  apply (elements_under (fun e he => hinner.under hcovers he) hd
    (hcovers.length_children_le index)).bind
  rintro ⟨elements, closed⟩ e he
  apply leave_bind he
  split
  · exact .pure rfl
  · exact refuseAt_terminates

/-- The look at what is in the brackets of an index ends among the children. -/
theorem indexParts_under {limit index : Nat} {parts : IndexParts}
    (hinner : ∀ d, c.Under d → ComesBack inner d) (hd : c.child? index = some d)
    (hlimit : c.node.children.length ≤ index + limit) :
    Terminates (l.indexParts inner limit parts) d fun _ e => c.Under e := by
  refine Cursor.siblings_induction (motive := fun limit d =>
    ∀ parts, Terminates (l.indexParts inner limit parts) d fun _ e => c.Under e) ?_ hd hlimit parts
  intro limit index d hd ih parts
  apply nextSibling_bind hd
  · intro e he
    have hmore (parts : IndexParts) := ih (Nat.lt_succ_self index) he parts
    apply (isToken_comesBack "]" e).bind
    intro isClosing
    split
    · exact .pure ⟨_, he⟩
    · apply (isToken_comesBack ":" e).bind
      intro isColon
      split
      · exact hmore _
      · apply (isToken_comesBack "," e).bind
        intro isComma
        split
        · exact hmore _
        · split
          · apply (hinner e ⟨_, he⟩).bind
            intro position
            exact hmore _
          · exact hmore _
  · exact .pure ⟨_, hd⟩

/-- A member comes back to its phrase. -/
theorem member_comesBack (a : Location) (hcovers : l.Covers c.node)
    (hchildren : c.node.children ≠ []) (hinner : l.ComesBackBelow inner c) :
    ComesBack (l.member inner a) c := by
  apply enter_bind hchildren
  intro d hd
  apply (hinner.under hcovers hd).bind
  intro object
  apply step_bind hd
  rintro e ⟨index, he⟩
  apply (isToken_comesBack "." e).bind
  intro isDot
  split
  · apply step_bind ⟨index, he⟩
    intro f hf
    apply (text_comesBack f).bind
    intro field
    exact leave_bind hf (.pure rfl)
  · apply (isToken_comesBack "[" e).bind
    intro isOpening
    split
    · apply (indexParts_under (fun f hf => hinner.under hcovers hf) he
        (hcovers.length_children_le index)).bind
      intro parts f hf
      apply leave_bind hf
      split
      · exact refuseAt_terminates
      · split
        · exact refuseAt_terminates
        · split
          · split
            · exact refuseAt_terminates
            · exact .pure rfl
          · exact refuseAt_terminates
    · exact (text_comesBack e).bind fun _ => refuse_terminates

/-- The end of a comprehension is among its children. -/
theorem comprehensionEnd_under (hinner : ∀ d, c.Under d → ComesBack inner d) (hd : c.Under d) :
    Terminates (l.comprehensionEnd inner) d fun _ e => c.Under e := by
  rcases hd with ⟨index, hindex⟩
  apply nextSibling_bind hindex
  · intro e he
    apply (isToken_comesBack "if" e).bind
    intro isFilter
    split
    · apply step_bind ⟨_, he⟩
      rintro f ⟨behind, hf⟩
      apply (hinner f ⟨_, hf⟩).bind
      intro filter
      apply nextSibling_bind hf
      · intro g hg
        exact (text_comesBack g).bind fun _ => .pure ⟨_, hg⟩
      · exact .pure ⟨_, hf⟩
    · exact (text_comesBack e).bind fun _ => .pure ⟨_, he⟩
  · exact .pure ⟨_, hindex⟩

/-- A comprehension comes back to its phrase. -/
theorem comprehension_comesBack (a : Location) (hcovers : l.Covers c.node)
    (hchildren : c.node.children ≠ []) (hinner : l.ComesBackBelow inner c) :
    ComesBack (l.comprehension inner a) c := by
  apply enter_bind hchildren
  intro d₁ hd₁
  apply (text_comesBack d₁).bind
  intro opening
  apply step_bind hd₁
  intro d₂ hd₂
  apply (hinner.under hcovers hd₂).bind
  intro result
  apply step_bind hd₂
  intro d₃ hd₃
  apply step_bind hd₃
  intro d₄ hd₄
  apply (text_comesBack d₄).bind
  intro item
  apply step_bind hd₄
  intro d₅ hd₅
  apply step_bind hd₅
  intro d₆ hd₆
  apply (hinner.under hcovers hd₆).bind
  intro iterable
  apply (comprehensionEnd_under (fun e he => hinner.under hcovers he) hd₆).bind
  rintro ⟨filter, closing⟩ d₇ hd₇
  apply leave_bind hd₇
  split
  · exact .pure rfl
  · exact refuseAt_terminates

/-! ### Operators -/

/-- An expression in parentheses comes back to its phrase. -/
theorem parenthesized_comesBack (a : Location) (hcovers : l.Covers c.node)
    (hchildren : c.node.children ≠ []) (hinner : l.ComesBackBelow inner c) :
    ComesBack (l.parenthesized inner a) c := by
  apply enter_bind hchildren
  intro d hd
  apply step_bind hd
  intro e he
  apply (hinner.under hcovers he).bind
  intro expr
  apply (stepTo_under ")" he).bind
  intro closed f hf
  apply leave_bind hf
  split
  · exact .pure rfl
  · exact refuseAt_terminates

/-- A binary operation comes back to its phrase. -/
theorem binary_comesBack (a : Location) (hcovers : l.Covers c.node)
    (hchildren : c.node.children ≠ []) (hinner : l.ComesBackBelow inner c) :
    ComesBack (l.binary inner a) c := by
  apply enter_bind hchildren
  intro d hd
  apply (hinner.under hcovers hd).bind
  intro left
  apply step_bind hd
  intro e he
  apply (text_comesBack e).bind
  intro text
  split
  · apply step_bind he
    intro f hf
    apply (hinner.under hcovers hf).bind
    intro right
    exact leave_bind hf (.pure rfl)
  · exact refuse_terminates

/-- A unary operation comes back to its phrase. -/
theorem unary_comesBack (a : Location) (hcovers : l.Covers c.node)
    (hchildren : c.node.children ≠ []) (hinner : l.ComesBackBelow inner c) :
    ComesBack (l.unary inner a) c := by
  apply enter_bind hchildren
  intro d hd
  apply (text_comesBack d).bind
  intro text
  split
  · apply step_bind hd
    intro e he
    apply (hinner.under hcovers he).bind
    intro operand
    exact leave_bind he (.pure rfl)
  · exact refuse_terminates

/-- A conditional expression comes back to its phrase. -/
theorem conditional_comesBack (a : Location) (hcovers : l.Covers c.node)
    (hchildren : c.node.children ≠ []) (hinner : l.ComesBackBelow inner c) :
    ComesBack (conditional inner a) c := by
  apply enter_bind hchildren
  intro d₁ hd₁
  apply (hinner.under hcovers hd₁).bind
  intro ifTrue
  apply step_bind hd₁
  intro d₂ hd₂
  apply step_bind hd₂
  intro d₃ hd₃
  apply (hinner.under hcovers hd₃).bind
  intro condition
  apply step_bind hd₃
  intro d₄ hd₄
  apply step_bind hd₄
  intro d₅ hd₅
  apply (hinner.under hcovers hd₅).bind
  intro ifFalse
  exact leave_bind hd₅ (.pure rfl)

/-- An expression, over a walk for the expressions inside. -/
theorem exprWith_comesBack (hcovers : l.Covers c.node) (hinner : l.ComesBackBelow inner c) :
    ComesBack (l.exprWith inner) c := by
  have hchildren {kind : SyntaxKind} (hkind : c.node.kind = kind) (hparts : kind.hasParts = true) :
      c.node.children ≠ [] := hcovers.children_ne hkind hparts
  apply (location_comesBack c).bind
  intro a
  apply kind_bind
  split
  · exact (literal_comesBack c).bind fun _ => .pure rfl
  · exact (literal_comesBack c).bind fun _ => .pure rfl
  · exact (literal_comesBack c).bind fun _ => .pure rfl
  · exact (text_comesBack c).bind fun _ => .pure rfl
  · next hkind => exact call_comesBack hcovers (hchildren hkind rfl) hinner
  · next hkind => exact list_comesBack hcovers (hchildren hkind rfl) hinner
  · next hkind => exact binary_comesBack a hcovers (hchildren hkind rfl) hinner
  · next hkind => exact unary_comesBack a hcovers (hchildren hkind rfl) hinner
  · next hkind => exact parenthesized_comesBack a hcovers (hchildren hkind rfl) hinner
  · next hkind => exact member_comesBack a hcovers (hchildren hkind rfl) hinner
  · next hkind => exact conditional_comesBack a hcovers (hchildren hkind rfl) hinner
  · next hkind => exact comprehension_comesBack a hcovers (hchildren hkind rfl) hinner
  · next hkind => exact comprehension_comesBack a hcovers (hchildren hkind rfl) hinner
  · next hkind => exact comprehension_comesBack a hcovers (hchildren hkind rfl) hinner
  · exact (text_comesBack c).bind fun _ => refuse_terminates

end Parts

/-- An expression comes back within a limit that is enough for its tree. -/
theorem exprWithin_comesBack {fuel : Nat} (hcovers : l.Covers c.node)
    (hfuel : c.node.size ≤ fuel) : ComesBack (l.exprWithin fuel) c := by
  induction fuel generalizing c with
  | zero =>
    have hpos := c.node.size_pos
    omega
  | succ fuel ih =>
    apply exprWith_comesBack hcovers
    intro d hd hsize
    exact ih hd (by omega)

/-- The walk over an expression comes back. -/
theorem expr_comesBack (hcovers : l.Covers c.node) : ComesBack l.expr c :=
  exprWithin_comesBack hcovers hcovers.size_le

/-- The walk over the arguments of a call comes back. -/
theorem arguments_comesBack (hcovers : l.Covers c.node) : ComesBack l.arguments c :=
  argumentsWith_comesBack hcovers fun _ hd => expr_comesBack (hcovers.of_mem hd.mem)

end Lowering
end Offside
