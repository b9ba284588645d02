import Offside.Lowering.Expressions
import Offside.Proofs.Lowering.AlikeTrees
import Offside.Proofs.Lowering.Marks

/-!
# Types and expressions of alike trees

Over trees that go together, the walks over types and expressions give the same types and
expressions, or both refuse their source for causes of the same name.

Main results:

- Theorem `ty_agree`: the walks over types go together.
- Theorem `expr_agree`: the walks over expressions go together.
-/

namespace Offside
namespace Lowering

open Walk Cursor

variable {m : Likeness} {l l' : Lowering} {c c' d d' : Cursor}

/-! ## Types -/

/-- The refusals of alike nodes as types go together. -/
theorem invalidType_agree (hl : Alike m l l') : Agree m m.failure l.invalidType l'.invalidType :=
  fun _ _ hc => text_bind_together hl hc fun text other _ _ =>
    location_bind_together hl hc fun _ => by
      have hname : (Cause.invalidType text).name = (Cause.invalidType other).name := rfl
      exact .pure (hl.refused rfl hname) ⟨rfl, rfl⟩

/-- A look for a name and an opening bracket behind it. -/
theorem opened_tells (hl : Alike m l l') (hd : c.Below m c' d d') :
    Together m (Tells (d.node.kind = .variableName)) (c.Below m c')
      (andAlso (isAt .variableName) (l.stepTo "["))
      (andAlso (isAt .variableName) (l'.stepTo "[")) d d' :=
  ((isAt_tells hd.node).below hd).andAlso (fun _ _ _ he => stepTo_together hl "[" he)
    fun _ _ he => he

/-- The walks over types go together if those over the types inside do. -/
theorem tyWith_agree (hl : Alike m l l') {inner inner' : Walk Ty}
    (hinner : Agree m Eq inner inner') : Agree m Eq (l.tyWith inner) (l'.tyWith inner') := by
  intro c c' hc
  refine kind_bind_together hc ?_
  split
  · next hkind =>
    exact leafText_bind_together hl hc (hkind ▸ rfl) fun text => .pure rfl ⟨rfl, rfl⟩
  · exact .pure rfl ⟨rfl, rfl⟩
  · next hkind =>
    refine (invalidType_agree hl).bind hc fun invalid invalid' hinvalid => ?_
    refine enter_bind_together hl hc (hkind ▸ rfl) fun d d' hd => ?_
    refine nextSibling_bind_together hd (fun e e' he => ?_) ?_
    · refine isToken_bind_together hl he.node (fun _ => ?_) ?_
      · exact leave_bind_together he.below (.throw hinvalid)
      · refine hinner.bind_eq he.node fun element => ?_
        refine (stepTo_together hl "]" he.below).bind_eq fun closed f f' hf => ?_
        refine leave_bind_together hf ?_
        split
        · exact .pure rfl ⟨rfl, rfl⟩
        · exact .throw hinvalid
    · exact leave_bind_together hd.below (.throw hinvalid)
  · next hkind =>
    refine (invalidType_agree hl).bind hc fun invalid invalid' hinvalid => ?_
    refine enter_bind_together hl hc (hkind ▸ rfl) fun d d' hd => ?_
    refine text_bind_together hl hd.node fun name other _ hsame => ?_
    refine (opened_tells hl hd.below).bind_tells (fun hname e e' he => ?_) fun e e' he => ?_
    · obtain rfl := hsame (hname ▸ rfl)
      refine (listUntil_together hl "]" (fun hf => hinner.single.below hf.below) he).bind_eq
        fun arguments f f' hf => ?_
      exact leave_bind_together hf (.pure rfl ⟨rfl, rfl⟩)
    · exact leave_bind_together he (.throw hinvalid)
  · exact (invalidType_agree hl).bind hc fun _ _ hinvalid => .throw hinvalid

/-- The walks over types go together with the same fuel. -/
theorem tyWithin_agree (hl : Alike m l l') (fuel : Nat) :
    Agree m Eq (l.tyWithin fuel) (l'.tyWithin fuel) := by
  induction fuel with
  | zero => exact fun _ _ _ => .throw hl.unfinished
  | succ fuel ih => exact tyWith_agree hl ih

/-- The walks over types go together. -/
theorem ty_agree (hl : Alike m l l') : Agree m Eq l.ty l'.ty := by
  rw [ty, ty, ← hl.limit]
  exact tyWithin_agree hl l.limit

/-- The walks over types behind marks go together. -/
theorem typeDef_together (hl : Alike m l l') (hc : c.node.Alike m.node c'.node)
    (hkind : c.node.kind = .typeDef) : Together m Eq (Back c c') l.typeDef l'.typeDef c c' := by
  refine enter_bind_together hl hc (hkind ▸ rfl) fun d d' hd => ?_
  refine step_bind_together hd.below fun e e' he => ?_
  refine (ty_agree hl).bind_eq he.node fun ty => ?_
  exact leave_bind_together he (.pure rfl ⟨rfl, rfl⟩)

/-! ## Literals -/

/-- The texts of first children are alike. -/
theorem calleeText_agree (hl : Alike m l l') : Agree m TextsAlike l.calleeText l'.calleeText := by
  intro c c' hc
  refine firstChild_bind_together hc (fun d d' hd => ?_)
    (.pure (fun _ _ => Iff.rfl) ⟨rfl, rfl⟩)
  refine text_bind_together hl hd.node fun text other halike _ => ?_
  exact leave_bind_together hd.below (.pure halike ⟨rfl, rfl⟩)

/-- The walks over literals go together. -/
theorem literal_agree (hl : Alike m l l') : Agree m Eq l.literal l'.literal := by
  intro c c' hc
  refine location_bind_together hl hc fun a => ?_
  refine text_bind_together hl hc fun text other _ hsame => ?_
  refine kind_bind_together hc ?_
  split
  · next hkind =>
    obtain rfl := hsame (hkind ▸ rfl)
    split
    · exact .pure rfl ⟨rfl, rfl⟩
    · exact refuse_together hl hc rfl rfl
  · next hkind =>
    obtain rfl := hsame (hkind ▸ rfl)
    exact .pure rfl ⟨rfl, rfl⟩
  · exact .pure rfl ⟨rfl, rfl⟩
  · next hkind =>
    refine (calleeText_agree hl).bind hc fun callee callee' halike => ?_
    have hcallee : callee = "TypeVar" ↔ callee' = "TypeVar" := halike "TypeVar" (by decide)
    by_cases htypeVar : callee = "TypeVar"
    · rw [if_pos htypeVar, if_pos (hcallee.mp htypeVar)]
      exact .pure rfl ⟨rfl, rfl⟩
    · rw [if_neg htypeVar, if_neg (mt hcallee.mpr htypeVar)]
      exact refuse_together hl hc rfl rfl
  · exact refuse_together hl hc rfl rfl

section Parts

variable {inner inner' : Walk (Expr Location)}

/-! ## Calls -/

/-- The walks over arguments go together if those over expressions do. -/
theorem argumentsWith_agree (hl : Alike m l l') (hinner : Agree m Eq inner inner') :
    Agree m Eq (l.argumentsWith inner) (l'.argumentsWith inner') := by
  intro c c' hc
  refine firstChild_bind_together hc (fun d d' hd => ?_) (.pure rfl ⟨rfl, rfl⟩)
  refine (listUntil_together hl ")" (fun he => hinner.single.below he.below) hd.below).bind_eq
    fun arguments e e' he => ?_
  exact leave_bind_together he (.pure rfl ⟨rfl, rfl⟩)

/-- The look ahead for type arguments has the same result in both trees. -/
theorem areTypes_together (hl : Alike m l l') (limit : Nat) (found : Bool)
    (hd : c.Below m c' d d') :
    Together m Eq (c.Below m c') (l.areTypes limit found) (l'.areTypes limit found) d d' := by
  induction limit generalizing found d d' with
  | zero => exact .throw hl.unfinished
  | succ limit ih =>
    obtain ⟨index, hindex⟩ := hd
    refine nextSibling_bind_together hindex (fun e e' he => ?_) (.pure rfl hindex.below)
    refine isToken_bind_together hl he.node (fun _ => .pure rfl he.below) ?_
    refine kind_bind_together he.node ?_
    split
    · exact ih true he.below
    · exact ih true he.below
    · exact ih true he.below
    · exact isToken_bind_together hl he.node (fun _ => ih found he.below) (.pure rfl he.below)
    · exact .pure rfl he.below

/-- The looks for a name with type arguments go together. -/
theorem genericCallee_agree (hl : Alike m l l') : Agree m Eq l.genericCallee l'.genericCallee := by
  intro c c' hc
  refine isAt_firstChild_bind_together hc (fun d d' hkind hd => ?_)
    (.pure rfl ⟨rfl, rfl⟩)
  refine text_bind_together hl hd.node fun name other _ hsame => ?_
  have hgeneric : Together m (Tells (d.node.kind = .variableName)) (c.Below m c')
      (andAlso (andAlso (isAt .variableName) (l.stepTo "[")) (l.areTypes l.limit false))
      (andAlso (andAlso (isAt .variableName) (l'.stepTo "[")) (l'.areTypes l'.limit false))
      d d' :=
    (opened_tells hl hd.below).andAlso
      (fun _ _ _ he => hl.limit ▸ areTypes_together hl l.limit false he) fun _ _ he => he
  refine hgeneric.bind_tells (fun hname e e' he => ?_) fun e e' he => ?_
  · obtain rfl := hsame (hname ▸ rfl)
    refine leave_bind_together he ?_
    refine enter_bind_together hl hc (hkind ▸ rfl) fun d d' hd => ?_
    refine step_bind_together hd.below fun f f' hf => ?_
    refine (listUntil_together hl "]" (fun hg => (ty_agree hl).single.below hg.below) hf).bind_eq
      fun arguments g g' hg => ?_
    exact leave_bind_together hg (.pure rfl ⟨rfl, rfl⟩)
  · exact leave_bind_together he (.pure rfl ⟨rfl, rfl⟩)

/-- The call of a name is the same for the same arguments. -/
theorem callOfName_together (hl : Alike m l l') (a : Location) (name : String)
    (arguments : List (Expr Location)) :
    Together m Eq (Back c c') (callOfName a name arguments) (callOfName a name arguments) c c' := by
  unfold callOfName
  split
  · split
    · exact .pure rfl ⟨rfl, rfl⟩
    · exact refuseAt_together hl rfl rfl
  · split
    · split
      · exact .pure rfl ⟨rfl, rfl⟩
      · exact refuseAt_together hl rfl rfl
    · exact .pure rfl ⟨rfl, rfl⟩

/-- Calls go together: first what is called, and then the arguments. -/
theorem call_together (hl : Alike m l l') (hinner : Agree m Eq inner inner')
    (hc : c.node.Alike m.node c'.node) (hkind : c.node.kind = .callExpression) :
    Together m Eq (Back c c') (l.call inner) (l'.call inner') c c' := by
  have harguments {d d' : Cursor} {next next' : List (Expr Location) → Walk (Expr Location)}
      (hd : c.Below m c' d d')
      (hnext : ∀ arguments, Together m Eq (Back c c') (next arguments) (next' arguments) c c') :
      Together m Eq (Back c c')
        (do step; let arguments ← l.argumentsWith inner; leave; next arguments)
        (do step; let arguments ← l'.argumentsWith inner'; leave; next' arguments) d d' := by
    refine step_bind_together hd fun e e' he => ?_
    refine (argumentsWith_agree hl hinner).bind_eq he.node fun arguments => ?_
    exact leave_bind_together he (hnext arguments)
  refine location_bind_together hl hc fun a => ?_
  refine enter_bind_together hl hc (hkind ▸ rfl) fun d d' hd => ?_
  refine (genericCallee_agree hl).bind_eq hd.node fun generic => ?_
  split
  · exact harguments hd.below fun arguments => .pure rfl ⟨rfl, rfl⟩
  · refine hinner.bind_eq hd.node fun callee => ?_
    refine text_bind_together hl hd.node fun calleeText other _ _ => ?_
    split
    · exact leave_bind_together hd.below (.pure rfl ⟨rfl, rfl⟩)
    · refine harguments hd.below fun arguments => ?_
      split
      · exact .pure rfl ⟨rfl, rfl⟩
      · exact callOfName_together hl a _ arguments
      · exact refuseAt_together hl rfl rfl

/-! ## Lists, members and comprehensions -/

/-- Where a list has elements and the marks that set them off, walks over them go together. -/
theorem elements_together (hl : Alike m l l') (hinner : Agree m Eq inner inner') (limit : Nat)
    {index : Nat} (hd : c.Level m c' index d d')
    (hrow : l.Elements (c.node.children.drop (index + 1))) :
    Together m Eq (c.Below m c') (l.elements inner limit) (l'.elements inner' limit) d d' := by
  induction limit generalizing index d d' with
  | zero => exact .throw hl.unfinished
  | succ limit ih =>
    refine nextSibling_bind_together hd (fun e e' he => ?_) (.pure rfl hd.below)
    rw [Cursor.drop_of_child? he.left] at hrow
    refine isToken_bind_together hl he.node (fun _ => .pure rfl he.below) ?_
    refine isToken_bind_together hl he.node (fun hcomma => ?_) ?_
    · exact absurd hcomma (Bool.eq_false_iff.mp hrow.first)
    refine hinner.bind_eq he.node fun first => ?_
    refine nextSibling_bind_together he (fun f f' hf => ?_) (.pure rfl he.below)
    rw [Cursor.drop_of_child? hf.left] at hrow
    refine isToken_bind_reads hl hf.node (fun _ => .pure rfl hf.below) fun hopen => ?_
    -- What stands behind an element and is no closing bracket is a comma.
    obtain ⟨hcomma, hmore⟩ := hrow.2.resolve_left (Bool.eq_false_iff.mp hopen)
    refine isToken_bind_reads hl hf.node (fun _ => ?_) fun hother => ?_
    · refine (ih hf hmore).bind_eq fun more g g' hg => ?_
      exact .pure rfl hg
    · exact absurd hcomma (Bool.eq_false_iff.mp hother)

/-- The walks over lists go together: each element has a comma or the closing bracket behind it. -/
theorem list_together (hl : Alike m l l')
    (hinner : Agree m Eq inner inner') (hc : c.node.Alike m.node c'.node)
    (hkind : c.node.kind = .arrayExpression) :
    Together m Eq (Back c c') (l.list inner) (l'.list inner') c c' := by
  refine location_bind_together hl hc fun a => ?_
  refine enter_bind_together hl hc (hkind ▸ rfl) fun d d' hd => ?_
  have hrow := (hl.content hc.root).elements hkind
  rw [← hl.limit]
  refine (elements_together hl hinner l.limit hd hrow).bind_eq fun row e e' he => ?_
  refine leave_bind_together he ?_
  rcases row with ⟨elements, closed⟩
  cases closed with
  | true => exact .pure rfl ⟨rfl, rfl⟩
  | false => exact refuseAt_together hl rfl rfl

/-- The looks at what is inside the brackets of an index go together. -/
theorem indexParts_together (hl : Alike m l l') (hinner : Agree m Eq inner inner') (limit : Nat)
    (parts : IndexParts) (hd : c.Below m c' d d') :
    Together m Eq (c.Below m c') (l.indexParts inner limit parts)
      (l'.indexParts inner' limit parts) d d' := by
  induction limit generalizing parts d d' with
  | zero => exact .throw hl.unfinished
  | succ limit ih =>
    obtain ⟨index, hindex⟩ := hd
    refine nextSibling_bind_together hindex (fun e e' he => ?_) (.pure rfl hindex.below)
    refine isToken_bind_together hl he.node (fun _ => .pure rfl he.below) ?_
    refine isToken_bind_together hl he.node (fun _ => ih _ he.below) ?_
    refine isToken_bind_together hl he.node (fun _ => ih _ he.below) ?_
    simp only [Bool.false_eq_true, if_false]
    refine .ite (fun _ => ?_) fun _ => ih _ he.below
    exact hinner.bind_eq he.node fun index => ih _ he.below

/-- The walks over members go together: behind a dot there is a leaf. -/
theorem member_together (hl : Alike m l l') (hinner : Agree m Eq inner inner') (a : Location)
    (hc : c.node.Alike m.node c'.node) (hkind : c.node.kind = .memberExpression) :
    Together m Eq (Back c c') (l.member inner a) (l'.member inner' a) c c' := by
  obtain ⟨mark, hmark, hfield⟩ := (hl.content hc.root).field_leaf hkind
  refine enter_bind_together hl hc (hkind ▸ rfl) fun d d' hd => ?_
  refine hinner.bind_eq hd.node fun object => ?_
  refine step_to_together hd hmark fun e e' he hnode => ?_
  refine isToken_bind_together hl he.node (fun hdot => ?_) ?_
  · obtain ⟨field, hchild, hleaf⟩ := hfield (hnode ▸ hdot)
    refine step_to_together he hchild fun f f' hf hnode => ?_
    refine leafText_bind_together hl hf.node (hnode ▸ hleaf) fun field => ?_
    exact leave_bind_together hf.below (.pure rfl ⟨rfl, rfl⟩)
  · refine isToken_bind_together hl he.node (fun _ => ?_) ?_
    · rw [← hl.limit]
      refine (indexParts_together hl hinner l.limit {} he.below).bind_eq fun parts f f' hf => ?_
      refine leave_bind_together hf ?_
      refine .ite (fun _ => refuseAt_together hl rfl rfl) fun _ => ?_
      refine .ite (fun _ => refuseAt_together hl rfl rfl) fun _ => ?_
      rcases parts with ⟨_ | index, isEmpty, startsWithColon, colons⟩
      · exact refuseAt_together hl rfl rfl
      · exact .ite (fun _ => refuseAt_together hl rfl rfl) fun _ => .pure rfl ⟨rfl, rfl⟩
    · exact text_bind_together hl he.node fun _ _ _ _ => refuse_together hl he.node rfl rfl

/-- The end of a comprehension: the same filter, and alike closing brackets. -/
theorem comprehensionEnd_together (hl : Alike m l l')
    (hinner : Agree m Eq inner inner') (hd : c.Below m c' d d') :
    Together m (fun found found' => found.1 = found'.1 ∧
        TextsAlike found.2 found'.2) (c.Below m c')
      (l.comprehensionEnd inner) (l'.comprehensionEnd inner') d d' := by
  have hsame (text : String) : TextsAlike text text := fun _ _ => Iff.rfl
  obtain ⟨index, hindex⟩ := hd
  refine nextSibling_bind_together hindex (fun e e' he => ?_)
    (.pure ⟨rfl, hsame ""⟩ hindex.below)
  refine isToken_bind_together hl he.node (fun _ => ?_) ?_
  · refine step_bind_together he.below fun f f' hf => ?_
    refine hinner.bind_eq hf.node fun filter => ?_
    refine (nextSibling_together hf).bind_eq fun found g g' hg => ?_
    split
    · exact text_bind_together hl hg.node fun _ _ halike _ => .pure ⟨rfl, halike⟩ hg
    · exact .pure ⟨rfl, hsame ""⟩ hg
  · exact text_bind_together hl he.node fun _ _ halike _ => .pure ⟨rfl, halike⟩ he.below

/-- The walks over comprehensions go together: the name of the item is a leaf. -/
theorem comprehension_together (hl : Alike m l l') (hinner : Agree m Eq inner inner') (a : Location)
    (hc : c.node.Alike m.node c'.node) (hparts : c.node.kind.hasParts = true)
    (opening : TokenKind) (htable : Content.table c.node.kind = [Content.comprehension opening]) :
    Together m Eq (Back c c') (l.comprehension inner a) (l'.comprehension inner' a) c c' := by
  obtain ⟨item, hitem, hleaf⟩ := (hl.content hc.root).item_leaf htable
  have hlength : 3 < c.node.children.length := (List.getElem?_eq_some_iff.mp hitem).1
  refine enter_bind_together hl hc hparts fun d₀ d₀' hd₀ => ?_
  refine text_bind_together hl hd₀.node fun opening opening' hopening _ => ?_
  refine step_to_together hd₀ (List.getElem?_eq_getElem (by omega)) fun d₁ d₁' hd₁ _ => ?_
  refine hinner.bind_eq hd₁.node fun result => ?_
  refine step_to_together hd₁ (List.getElem?_eq_getElem (by omega)) fun d₂ d₂' hd₂ _ => ?_
  refine step_to_together hd₂ hitem fun d₃ d₃' hd₃ hnode => ?_
  refine leafText_bind_together hl hd₃.node (hnode ▸ hleaf) fun name => ?_
  refine step_bind_together hd₃.below fun d₄ d₄' hd₄ => ?_
  refine step_bind_together hd₄ fun d₅ d₅' hd₅ => ?_
  refine hinner.bind_eq hd₅.node fun iterable => ?_
  refine (comprehensionEnd_together hl hinner hd₅).bind fun found found' e e' hfound he => ?_
  rcases found with ⟨filter, closing⟩
  rcases found' with ⟨filter', closing'⟩
  obtain ⟨rfl, hclosing⟩ := hfound
  refine leave_bind_together he ?_
  have hbrackets : ComprehensionKind.ofBrackets? opening closing =
      ComprehensionKind.ofBrackets? opening' closing' := ofBrackets?_alike hopening hclosing
  dsimp only
  rw [← hbrackets]
  split
  · exact .pure rfl ⟨rfl, rfl⟩
  · exact refuseAt_together hl rfl rfl

/-! ## Expressions -/

/-- The walks over expressions in parentheses go together. -/
theorem parenthesized_together (hl : Alike m l l') (hinner : Agree m Eq inner inner') (a : Location)
    (hc : c.node.Alike m.node c'.node) (hkind : c.node.kind = .parenthesizedExpression) :
    Together m Eq (Back c c') (l.parenthesized inner a) (l'.parenthesized inner' a) c c' := by
  refine enter_bind_together hl hc (hkind ▸ rfl) fun d d' hd => ?_
  refine step_bind_together hd.below fun e e' he => ?_
  refine hinner.bind_eq he.node fun expr => ?_
  refine (stepTo_together hl ")" he).bind_eq fun closed f f' hf => ?_
  refine leave_bind_together hf ?_
  split
  · exact .pure rfl ⟨rfl, rfl⟩
  · exact refuseAt_together hl rfl rfl

/-- The walks over binary operations go together: both operators are the same. -/
theorem binary_together (hl : Alike m l l') (hinner : Agree m Eq inner inner') (a : Location)
    (hc : c.node.Alike m.node c'.node) (hkind : c.node.kind = .binaryExpression) :
    Together m Eq (Back c c') (l.binary inner a) (l'.binary inner' a) c c' := by
  obtain ⟨operator, hoperator, op, hop⟩ := (hl.content hc.root).binary_operator hkind
  have hline : '\n' ∉ op.lexeme.toList := by cases op <;> decide
  refine enter_bind_together hl hc (hkind ▸ rfl) fun d d' hd => ?_
  refine hinner.bind_eq hd.node fun left => ?_
  refine step_to_together hd hoperator fun e e' he hnode => ?_
  refine knownText_bind_together hl he.node (hnode ▸ hop) hline ?_
  rw [BinOp.ofLexeme?_lexeme]
  refine step_bind_together he.below fun f f' hf => ?_
  refine hinner.bind_eq hf.node fun right => ?_
  exact leave_bind_together hf (.pure rfl ⟨rfl, rfl⟩)

/-- The walks over unary operations go together. -/
theorem unary_together (hl : Alike m l l') (hinner : Agree m Eq inner inner') (a : Location)
    (hc : c.node.Alike m.node c'.node) (hkind : c.node.kind = .unaryExpression) :
    Together m Eq (Back c c') (l.unary inner a) (l'.unary inner' a) c c' := by
  obtain ⟨operator, hoperator, op, hop⟩ := (hl.content hc.root).unary_operator hkind
  have hline : '\n' ∉ op.lexeme.toList := by cases op <;> decide
  refine enter_bind_together hl hc (hkind ▸ rfl) fun d d' hd => ?_
  obtain rfl := Option.some.inj (hoperator.symm.trans (Cursor.getElem?_of_child? hd.left))
  refine knownText_bind_together hl hd.node hop hline ?_
  rw [UniOp.ofLexeme?_lexeme]
  refine step_bind_together hd.below fun e e' he => ?_
  refine hinner.bind_eq he.node fun operand => ?_
  exact leave_bind_together he (.pure rfl ⟨rfl, rfl⟩)

/-- The walks over conditional expressions go together. -/
theorem conditional_together (hl : Alike m l l') (hinner : Agree m Eq inner inner') (a : Location)
    (hc : c.node.Alike m.node c'.node) (hkind : c.node.kind = .conditionalExpression) :
    Together m Eq (Back c c') (conditional inner a) (conditional inner' a) c c' := by
  refine enter_bind_together hl hc (hkind ▸ rfl) fun d₀ d₀' hd₀ => ?_
  refine hinner.bind_eq hd₀.node fun ifTrue => ?_
  refine step_bind_together hd₀.below fun d₁ d₁' hd₁ => ?_
  refine step_bind_together hd₁ fun d₂ d₂' hd₂ => ?_
  refine hinner.bind_eq hd₂.node fun condition => ?_
  refine step_bind_together hd₂ fun d₃ d₃' hd₃ => ?_
  refine step_bind_together hd₃ fun d₄ d₄' hd₄ => ?_
  refine hinner.bind_eq hd₄.node fun ifFalse => ?_
  exact leave_bind_together hd₄ (.pure rfl ⟨rfl, rfl⟩)

/-- The walks over expressions go together if those over the expressions inside do. -/
theorem exprWith_agree (hl : Alike m l l') (hinner : Agree m Eq inner inner') :
    Agree m Eq (l.exprWith inner) (l'.exprWith inner') := by
  intro c c' hc
  have hliteral (a : Location) : Together m Eq (Back c c')
      (do return .literal a (← l.literal) : Walk (Expr Location))
      (do return .literal a (← l'.literal)) c c' :=
    (literal_agree hl).bind_eq hc fun _ => .pure rfl ⟨rfl, rfl⟩
  refine location_bind_together hl hc fun a => ?_
  refine kind_bind_together hc ?_
  split
  · exact hliteral a
  · exact hliteral a
  · exact hliteral a
  · next hkind =>
    exact leafText_bind_together hl hc (hkind ▸ rfl) fun name => .pure rfl ⟨rfl, rfl⟩
  · next hkind => exact call_together hl hinner hc hkind
  · next hkind => exact list_together hl hinner hc hkind
  · next hkind => exact binary_together hl hinner a hc hkind
  · next hkind => exact unary_together hl hinner a hc hkind
  · next hkind => exact parenthesized_together hl hinner a hc hkind
  · next hkind => exact member_together hl hinner a hc hkind
  · next hkind => exact conditional_together hl hinner a hc hkind
  · next hkind =>
    exact comprehension_together hl hinner a hc (hkind ▸ rfl) .openParen (hkind ▸ rfl)
  · next hkind =>
    exact comprehension_together hl hinner a hc (hkind ▸ rfl) .openBracket (hkind ▸ rfl)
  · next hkind =>
    exact comprehension_together hl hinner a hc (hkind ▸ rfl) .openCurly (hkind ▸ rfl)
  · exact text_bind_together hl hc fun _ _ _ _ => refuse_together hl hc rfl rfl

end Parts

/-- The walks over expressions go together with the same fuel. -/
theorem exprWithin_agree (hl : Alike m l l') (fuel : Nat) :
    Agree m Eq (l.exprWithin fuel) (l'.exprWithin fuel) := by
  induction fuel with
  | zero => exact fun _ _ _ => .throw hl.unfinished
  | succ fuel ih => exact exprWith_agree hl ih

/-- The walks over expressions go together. -/
theorem expr_agree (hl : Alike m l l') : Agree m Eq l.expr l'.expr := by
  rw [expr, expr, ← hl.limit]
  exact exprWithin_agree hl l.limit

end Lowering
end Offside
