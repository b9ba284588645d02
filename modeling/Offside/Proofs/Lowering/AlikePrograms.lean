import Offside.Lowering.Declarations
import Offside.Proofs.Lowering.AlikeExpressions

/-!
# Programs of alike trees

Over trees that go together, the walks over statements and declarations give the same statements and
declarations, or both refuse their source for causes of the same name; and so the programs are the
same.

Main results:

- Theorem `stmt_agree`: the walks over statements go together.
- Theorem `lower_alike`: alike trees are lowered to the same program, or both are refused.
-/

namespace Offside
namespace Lowering

open Walk Cursor

variable {m : Likeness} {l l' : Lowering} {c c' d d' : Cursor} {α β : Type}
  {rel : α → β → Prop} {place : Cursor → Cursor → Prop}

/-! ## Blocks -/

/-- A block is entered, or refused. -/
theorem openBody_bind_together (hl : Alike m l l') {owner : Location} {next : Unit → Walk α}
    {next' : Unit → Walk β} (hc : c.node.Alike m.node c'.node)
    (hnext : ∀ d d', c.Level m c' 0 d d' → Together m rel place (next ()) (next' ()) d d') :
    Together m rel place (l.openBody owner >>= next) (l'.openBody owner >>= next') c c' := by
  have hopen : Together m Eq (c.Level m c' 0) (l.openBody owner) (l'.openBody owner) c c' := by
    refine isAt_firstChild_bind_together hc (fun d d' _ hd => ?_)
      (refuseAt_together hl rfl rfl)
    refine isToken_bind_together hl hd.node (fun _ => .pure rfl hd) ?_
    exact leave_bind_together hd.below (refuseAt_together hl rfl rfl)
  exact hopen.bind fun _ _ d d' _ hd => hnext d d' hd

/-- A repetition that does not stop before the last sibling. -/
theorem collectAll_together (hl : Alike m l l') {item item' : Walk (List α)}
    (hitem : ∀ {index e e'}, c.Level m c' index e e' →
      Together m Eq (c.Below m c') item item' e e')
    (hd : c.Below m c' d d') :
    Together m Eq (c.Below m c') (collect (pure false) item l.limit)
      (collect (pure false) item' l'.limit) d d' := by
  rw [← hl.limit]
  exact collect_together hl (fun _ _ _ => .pure rfl ⟨rfl, rfl⟩) hitem l.limit hd

section Parts

variable {inner inner' : Walk (Stmt Location)}

/-- The walks over blocks go together if those over statements do. -/
theorem blockWith_agree (hl : Alike m l l') (hinner : Agree m Eq inner inner')
    (owner : Location) : Agree m Eq (l.blockWith inner owner) (l'.blockWith inner' owner) := by
  intro c c' hc
  refine openBody_bind_together hl hc fun d d' hd => ?_
  refine (collectAll_together hl (fun he => hinner.single.below he.below) hd.below).bind_eq
    fun stmts e e' he => ?_
  exact leave_bind_together he (.pure rfl ⟨rfl, rfl⟩)

/-- What follows the first blocks of conditionals. -/
theorem ifTail_together (hl : Alike m l l') (hinner : Agree m Eq inner inner') (limit : Nat)
    (owner : Location) (hd : c.Below m c' d d') :
    Together m Eq (c.Below m c') (l.ifTail inner limit owner) (l'.ifTail inner' limit owner)
      d d' := by
  induction limit generalizing owner d d' with
  | zero => exact .throw hl.unfinished
  | succ limit ih =>
    obtain ⟨index, hindex⟩ := hd
    refine nextSibling_bind_together hindex (fun e e' he => ?_) (.pure rfl hindex.below)
    refine isToken_bind_together hl he.node (fun _ => ?_) ?_
    · exact step_bind_together he.below fun f f' hf => (blockWith_agree hl hinner owner).below hf
    refine isToken_bind_together hl he.node (fun _ => ?_) ?_
    · refine location_bind_together hl he.node fun a => ?_
      refine step_bind_together he.below fun f f' hf => ?_
      refine (expr_agree hl).bind_eq hf.node fun condition => ?_
      refine step_bind_together hf fun g g' hg => ?_
      refine (blockWith_agree hl hinner a).bind_eq hg.node fun body => ?_
      refine (ih a hg).bind_eq fun otherwise k k' hk => ?_
      exact .pure rfl hk
    · exact text_bind_together hl he.node fun _ _ _ _ => refuse_together hl he.node rfl rfl

/-! ## Statements -/

/-- The walks over returns go together, with a value or without. -/
theorem returnStatement_together (hl : Alike m l l') (a : Location)
    (hc : c.node.Alike m.node c'.node) (hkind : c.node.kind = .returnStatement) :
    Together m Eq (Back c c') (l.returnStatement a) (l'.returnStatement a) c c' := by
  refine enter_bind_together hl hc (hkind ▸ rfl) fun d d' hd => ?_
  refine nextSibling_bind_together hd (fun e e' he => ?_) ?_
  · refine (expr_agree hl).bind_eq he.node fun value => ?_
    exact leave_bind_together he.below (.pure rfl ⟨rfl, rfl⟩)
  · refine .pure_bind (leave_bind_together hd.below ?_)
    exact .pure rfl ⟨rfl, rfl⟩

/-- The walks over assignments go together, and refuse the same targets. -/
theorem assignStatement_together (hl : Alike m l l') (a : Location)
    (hc : c.node.Alike m.node c'.node) (hkind : c.node.kind = .assignStatement) :
    Together m Eq (Back c c') (l.assignStatement a) (l'.assignStatement a) c c' := by
  refine enter_bind_together hl hc (hkind ▸ rfl) fun d d' hd => ?_
  refine text_bind_together hl hd.node fun _ _ _ _ => ?_
  refine (expr_agree hl).bind_eq hd.node fun target => ?_
  refine step_bind_together hd.below fun e e' he => ?_
  refine isAt_bind_together he.node (fun _ => ?_) ?_
  · exact leave_bind_together he (refuseAt_together hl rfl rfl)
  · refine step_bind_together he fun f f' hf => ?_
    refine (expr_agree hl).bind_eq hf.node fun value => ?_
    refine leave_bind_together hf ?_
    cases target with
    | id | lookup | index => exact .pure rfl ⟨rfl, rfl⟩
    | _ => exact refuseAt_together hl rfl rfl

/-- The walks over expressions as statements go together. -/
theorem expressionStatement_together (hl : Alike m l l') (a : Location)
    (hc : c.node.Alike m.node c'.node) (hkind : c.node.kind = .expressionStatement) :
    Together m Eq (Back c c') (l.expressionStatement a) (l'.expressionStatement a) c c' := by
  refine enter_bind_together hl hc (hkind ▸ rfl) fun d d' hd => ?_
  refine (expr_agree hl).bind_eq hd.node fun value => ?_
  exact leave_bind_together hd.below (.pure rfl ⟨rfl, rfl⟩)

/-- The walks over conditionals go together. -/
theorem ifStatement_together (hl : Alike m l l') (hinner : Agree m Eq inner inner')
    (a : Location) (hc : c.node.Alike m.node c'.node) (hkind : c.node.kind = .ifStatement) :
    Together m Eq (Back c c') (l.ifStatement inner a) (l'.ifStatement inner' a) c c' := by
  refine enter_bind_together hl hc (hkind ▸ rfl) fun d d' hd => ?_
  refine step_bind_together hd.below fun e e' he => ?_
  refine (expr_agree hl).bind_eq he.node fun condition => ?_
  refine step_bind_together he fun f f' hf => ?_
  refine (blockWith_agree hl hinner a).bind_eq hf.node fun body => ?_
  rw [← hl.limit]
  refine (ifTail_together hl hinner l.limit a hf).bind_eq fun otherwise g g' hg => ?_
  exact leave_bind_together hg (.pure rfl ⟨rfl, rfl⟩)

/-- The walks over loops under a condition go together. -/
theorem whileStatement_together (hl : Alike m l l') (hinner : Agree m Eq inner inner')
    (a : Location) (hc : c.node.Alike m.node c'.node) (hkind : c.node.kind = .whileStatement) :
    Together m Eq (Back c c') (l.whileStatement inner a) (l'.whileStatement inner' a) c c' := by
  refine enter_bind_together hl hc (hkind ▸ rfl) fun d d' hd => ?_
  refine step_bind_together hd.below fun e e' he => ?_
  refine (expr_agree hl).bind_eq he.node fun condition => ?_
  refine step_bind_together he fun f f' hf => ?_
  refine (blockWith_agree hl hinner a).bind_eq hf.node fun body => ?_
  exact leave_bind_together hf (.pure rfl ⟨rfl, rfl⟩)

/-- The walks over loops over elements go together: the name of the item is a leaf. -/
theorem forStatement_together (hl : Alike m l l') (hinner : Agree m Eq inner inner')
    (a : Location) (hc : c.node.Alike m.node c'.node) (hkind : c.node.kind = .forStatement) :
    Together m Eq (Back c c') (l.forStatement inner a) (l'.forStatement inner' a) c c' := by
  refine enter_bind_together hl hc (hkind ▸ rfl) fun d d' hd => ?_
  refine step_bind_together hd.below fun e e' he => ?_
  refine isAt_bind_together he.node (fun hname => ?_) ?_
  · refine leafText_bind_together hl he.node (hname ▸ rfl) fun item => ?_
    refine step_bind_together he fun f f' hf => ?_
    refine step_bind_together hf fun g g' hg => ?_
    refine (expr_agree hl).bind_eq hg.node fun iterable => ?_
    refine step_bind_together hg fun k k' hk => ?_
    refine (blockWith_agree hl hinner a).bind_eq hk.node fun body => ?_
    refine (stepTo_together hl "else" hk).bind_eq fun found n n' hn => ?_
    cases found with
    | true =>
      refine step_bind_together hn fun o o' ho => ?_
      refine (blockWith_agree hl hinner a).bind_eq ho.node fun otherwise => ?_
      exact leave_bind_together ho (.pure rfl ⟨rfl, rfl⟩)
    | false =>
      refine .pure_bind (leave_bind_together hn ?_)
      exact .pure rfl ⟨rfl, rfl⟩
  · exact text_bind_together hl he.node fun _ _ _ _ => refuse_together hl he.node rfl rfl

/-- The walks over statements go together if those over the statements inside do. -/
theorem stmtWith_agree (hl : Alike m l l') (hinner : Agree m Eq inner inner') :
    Agree m Eq (l.stmtWith inner) (l'.stmtWith inner') := by
  intro c c' hc
  refine location_bind_together hl hc fun a => ?_
  refine kind_bind_together hc ?_
  split
  · next hkind => exact returnStatement_together hl a hc hkind
  · next hkind => exact assignStatement_together hl a hc hkind
  · next hkind => exact expressionStatement_together hl a hc hkind
  · next hkind => exact ifStatement_together hl hinner a hc hkind
  · next hkind => exact whileStatement_together hl hinner a hc hkind
  · next hkind => exact forStatement_together hl hinner a hc hkind
  · exact .pure rfl ⟨rfl, rfl⟩
  · exact .pure rfl ⟨rfl, rfl⟩
  · exact .pure rfl ⟨rfl, rfl⟩
  · exact text_bind_together hl hc fun _ _ _ _ => refuse_together hl hc rfl rfl

end Parts

/-- The walks over statements go together with the same fuel. -/
theorem stmtWithin_agree (hl : Alike m l l') (fuel : Nat) :
    Agree m Eq (l.stmtWithin fuel) (l'.stmtWithin fuel) := by
  induction fuel with
  | zero => exact fun _ _ _ => .throw hl.unfinished
  | succ fuel ih => exact stmtWith_agree hl ih

/-- The walks over statements go together. -/
theorem stmt_agree (hl : Alike m l l') : Agree m Eq l.stmt l'.stmt := by
  rw [stmt, stmt, ← hl.limit]
  exact stmtWithin_agree hl l.limit

/-! ## Variables -/

/-- A look for a variable, which is an assignment. -/
theorem isVarInit_tells (hc : c.node.Alike m.node c'.node) :
    Together m (Tells (c.node.kind = .assignStatement)) (Back c c') isVarInit isVarInit c c' := by
  refine isAt_firstChild_bind_together hc (fun d d' hkind hd => ?_)
    (.pure ⟨rfl, nofun⟩ ⟨rfl, rfl⟩)
  refine nextSibling_isAt_bind_together hd (fun e e' he _ => ?_) fun e e' he => ?_
  · exact leave_bind_together he.below (.pure ⟨rfl, fun _ => hkind⟩ ⟨rfl, rfl⟩)
  · exact leave_bind_together he (.pure ⟨rfl, nofun⟩ ⟨rfl, rfl⟩)

/-- The walks over variables go together: a name is a leaf. -/
theorem varInit_together (hl : Alike m l l') (hc : c.node.Alike m.node c'.node)
    (hkind : c.node.kind = .assignStatement) :
    Together m Eq (Back c c') l.varInit l'.varInit c c' := by
  refine location_bind_together hl hc fun a => ?_
  refine enter_bind_together hl hc (hkind ▸ rfl) fun d d' hd => ?_
  refine text_bind_together hl hd.node fun name other _ hsame => ?_
  refine isAt_bind_together hd.node (fun hname => ?_) (refuseAt_together hl rfl rfl)
  obtain rfl := hsame (hname ▸ rfl)
  refine step_bind_together hd.below fun e e' he => ?_
  refine isAt_bind_together he.node (fun htyped => ?_) (refuseAt_together hl rfl rfl)
  refine (typeDef_together hl he.node htyped).bind_eq_back fun ty => ?_
  have hvalued : Together m (Tells True) (c.Below m c') (andAlso (l.stepTo "=") nextSibling)
      (andAlso (l'.stepTo "=") nextSibling) e e' :=
    (stepTo_together hl "=" he).tells.andAlso (fun _ _ _ hf => nextSibling_together hf)
      fun _ _ hf => hf
  refine hvalued.bind_tells (fun _ f f' hf => ?_) fun _ _ _ => refuseAt_together hl rfl rfl
  refine (literal_agree hl).bind_eq hf.node fun value => ?_
  exact leave_bind_together hf (.pure rfl ⟨rfl, rfl⟩)

/-- Rounds that go on at the next sibling, and are told whether there is one, go together if one
round does that hands over to the next. -/
theorem rounds_together (hl : Alike m l l') {loop loop' : Nat → Bool → Walk α}
    (hzero : ∀ here, loop 0 here = throw .unfinished ∧ loop' 0 here = throw .unfinished)
    (hstop : ∀ limit d d', c.Below m c' d d' →
      Together m Eq (c.Below m c') (loop (limit + 1) false) (loop' (limit + 1) false) d d')
    (hround : ∀ limit d d', c.Below m c' d d' →
      (∀ {next next' : α → Walk α},
        (∀ value e e', c.Below m c' e e' →
          Together m Eq (c.Below m c') (next value) (next' value) e e') →
        Together m Eq (c.Below m c') (nextSibling >>= fun found => loop limit found >>= next)
          (nextSibling >>= fun found => loop' limit found >>= next') d d') →
      Together m Eq (c.Below m c') (loop (limit + 1) true) (loop' (limit + 1) true) d d')
    (limit : Nat) (here : Bool) (hd : c.Below m c' d d') :
    Together m Eq (c.Below m c') (loop limit here) (loop' limit here) d d' := by
  induction limit generalizing here d d' with
  | zero =>
    obtain ⟨hleft, hright⟩ := hzero here
    rw [hleft, hright]
    exact .throw hl.unfinished
  | succ limit ih =>
    cases here with
    | false => exact hstop limit d d' hd
    | true =>
      refine hround limit d d' hd fun hnext => ?_
      refine (nextSibling_together hd).bind_eq fun found e e' he => ?_
      exact (ih found he).bind_eq hnext

/-- The walks over rows of variables go together, and stop at the same place. -/
theorem varInits_together (hl : Alike m l l') (limit : Nat) (here : Bool)
    (hd : c.Below m c' d d') :
    Together m Eq (c.Below m c') (l.varInits limit here) (l'.varInits limit here) d d' := by
  refine rounds_together hl (fun _ => ⟨rfl, rfl⟩) (fun _ _ _ hd => .pure rfl hd)
    (fun limit d d' hd hmore => ?_) limit here hd
  refine (isVarInit_tells hd.node).bind_tells_back (fun hkind => ?_) (.pure rfl hd)
  refine (varInit_together hl hd.node hkind).bind_eq_back fun first => ?_
  exact hmore fun more e e' he => .pure rfl he

/-- The walks over rows of statements go together. -/
theorem stmts_together (hl : Alike m l l') (limit : Nat) (here : Bool) (hd : c.Below m c' d d') :
    Together m Eq (c.Below m c') (l.stmts limit here) (l'.stmts limit here) d d' := by
  refine rounds_together hl (fun _ => ⟨rfl, rfl⟩) (fun _ _ _ hd => .pure rfl hd)
    (fun limit d d' hd hmore => ?_) limit here hd
  refine (stmt_agree hl).bind_eq hd.node fun first => ?_
  exact hmore fun more e e' he => .pure rfl he

/-! ## Functions -/

/-- The walks over parameters go together: in front of a type there is a leaf. -/
theorem parameter_together (hl : Alike m l l') (hkind : c.node.kind = .paramList)
    (hc : c.node.Alike m.node c'.node) {index : Nat} (hd : c.Level m c' index d d') :
    Together m Eq (c.Below m c') l.parameter l'.parameter d d' := by
  refine text_bind_together hl hd.node fun name other _ hsame => ?_
  refine location_bind_together hl hd.node fun a => ?_
  refine nextSibling_isAt_bind_together hd (fun e e' he htyped => ?_)
    fun _ _ _ => refuseAt_together hl rfl rfl
  have hname : d.node.kind.isLeaf = true := by
    obtain ⟨child, hchild, rfl⟩ := Cursor.child?_eq_some hd.left
    obtain ⟨type, htype, rfl⟩ := Cursor.child?_eq_some he.left
    exact (hl.content hc.root).parameter_leaf hkind hchild htype htyped
  obtain rfl := hsame hname
  refine (typeDef_together hl he.node htyped).bind_eq_back fun ty => ?_
  exact .pure rfl he.below

/-- The walks over lists of parameters go together. -/
theorem parameters_together (hl : Alike m l l') (hc : c.node.Alike m.node c'.node)
    (hkind : c.node.kind = .paramList) :
    Together m Eq (Back c c') l.parameters l'.parameters c c' := by
  refine firstChild_bind_together hc (fun d d' hd => ?_)
    (.pure rfl ⟨rfl, rfl⟩)
  refine (listUntil_together hl ")" (fun he => ?_) hd.below).bind_eq fun parameters e e' he => ?_
  · exact (parameter_together hl hkind hc he).bind_eq fun parameter f f' hf => .pure rfl hf
  · exact leave_bind_together he (.pure rfl ⟨rfl, rfl⟩)

/-- The result type of a function, which may be missing. -/
theorem resultType_bind_together (hl : Alike m l l') {next : Ty → Walk α} {next' : Ty → Walk β}
    (hd : c.Below m c' d d')
    (hnext : ∀ ret e e', c.Below m c' e e' → Together m rel place (next ret) (next' ret) e e') :
    Together m rel place
      (do
        let ret ←
          if ← isAt .typeDef then do
            let ty ← l.typeDef
            step
            pure ty
          else pure .none
        next ret)
      (do
        let ret ←
          if ← isAt .typeDef then do
            let ty ← l'.typeDef
            step
            pure ty
          else pure .none
        next' ret) d d' := by
  refine isAt_bind_together hd.node (fun htyped => ?_) (.pure_bind (hnext .none d d' hd))
  refine (typeDef_together hl hd.node htyped).bind_eq_back fun ty => ?_
  refine step_bind_together hd fun e e' he => ?_
  exact .pure_bind (hnext ty e e' he)

/-- The walks over functions go together. -/
theorem funDef_together (hl : Alike m l l') (hc : c.node.Alike m.node c'.node)
    (hkind : c.node.kind = .functionDefinition) :
    Together m Eq (Back c c') l.funDef l'.funDef c c' := by
  obtain ⟨name, hname, hleaf⟩ := (hl.content hc.root).name_leaf (.inl hkind)
  obtain ⟨list, hlist, hparameters⟩ := (hl.content hc.root).parameters_child hkind
  refine location_bind_together hl hc fun a => ?_
  refine enter_bind_together hl hc (hkind ▸ rfl) fun d₀ d₀' hd₀ => ?_
  refine step_to_together hd₀ hname fun d₁ d₁' hd₁ hnode => ?_
  refine leafText_bind_together hl hd₁.node (hnode ▸ hleaf) fun name => ?_
  refine step_to_together hd₁ hlist fun d₂ d₂' hd₂ hnode => ?_
  refine (parameters_together hl hd₂.node (hnode ▸ hparameters)).bind_eq_back
    fun parameters => ?_
  refine step_bind_together hd₂.below fun d₃ d₃' hd₃ => ?_
  refine resultType_bind_together hl hd₃ fun ret e e' he => ?_
  -- The body is one more node below.
  refine openBody_bind_together hl he.node fun f f' hf => ?_
  refine (nextSibling_together hf.below).bind_eq fun found g g' hg => ?_
  rw [← hl.limit]
  refine (varInits_together hl l.limit found hg).bind_eq fun inits k k' hk => ?_
  refine (stmts_together hl l.limit inits.2 hk).bind_eq fun body n n' hn => ?_
  refine leave_bind_together hn ?_
  exact leave_bind_together he (.pure rfl ⟨rfl, rfl⟩)

/-! ## Classes -/

/-- The walks over the names of type parameters go together. -/
theorem genericNames_together (hl : Alike m l l') (hd : c.Below m c' d d') :
    Together m Eq (c.Below m c') l.genericNames l'.genericNames d d' := by
  refine listUntil_together hl "]" (fun he => ?_) hd
  refine isAt_bind_together he.node (fun hname => ?_) ?_
  · exact leafText_bind_together hl he.node (hname ▸ rfl) fun _ => .pure rfl he.below
  · exact text_bind_together hl he.node fun _ _ _ _ => refuse_together hl he.node rfl rfl

/-- A look for the name `Generic`. -/
theorem isGeneric_tells (hl : Alike m l l') (hc : c.node.Alike m.node c'.node) :
    Together m (Tells (c.node.kind = .variableName)) (Back c c')
      (andAlso (isAt .variableName) (do return (← l.text) = "Generic"))
      (andAlso (isAt .variableName) (do return (← l'.text) = "Generic")) c c' := by
  refine (isAt_tells hc).andAlso (fun hname d d' hback => ?_) fun _ _ hback => hback
  obtain ⟨rfl, rfl⟩ := hback
  exact leafText_bind_together hl hc (hname ▸ rfl) fun text => .pure rfl ⟨rfl, rfl⟩

/-- The walks over base classes go together. -/
theorem base_agree (hl : Alike m l l') : Agree m Eq l.base l'.base := by
  intro c c' hc
  refine kind_bind_together hc ?_
  split
  · next hkind =>
    refine text_bind_together hl hc fun _ _ _ _ => ?_
    refine location_bind_together hl hc fun a => ?_
    refine enter_bind_together hl hc (hkind ▸ rfl) fun d d' hd => ?_
    have hgeneric : Together m (Tells (d.node.kind = .variableName)) (c.Below m c')
        (andAlso (andAlso (isAt .variableName) (do return (← l.text) = "Generic")) (l.stepTo "["))
        (andAlso (andAlso (isAt .variableName) (do return (← l'.text) = "Generic"))
          (l'.stepTo "[")) d d' :=
      ((isGeneric_tells hl hd.node).below hd.below).andAlso
        (fun _ _ _ he => stepTo_together hl "[" he) fun _ _ he => he
    refine hgeneric.bind_tells (fun _ e e' he => ?_) fun _ _ _ => refuseAt_together hl rfl rfl
    refine (genericNames_together hl he).bind_eq fun names f f' hf => ?_
    exact leave_bind_together hf (.pure rfl ⟨rfl, rfl⟩)
  · next hkind =>
    refine leafText_bind_together hl hc (hkind ▸ rfl) fun text => ?_
    exact .ite (fun _ => .pure rfl ⟨rfl, rfl⟩) fun _ => refuse_together hl hc rfl rfl
  · exact text_bind_together hl hc fun _ _ _ _ => refuse_together hl hc rfl rfl

/-- The walks over lists of base classes go together. -/
theorem generics_together (hl : Alike m l l') (hc : c.node.Alike m.node c'.node) :
    Together m Eq (Back c c') l.generics l'.generics c c' := by
  refine firstChild_bind_together hc (fun d d' hd => ?_) (.pure rfl ⟨rfl, rfl⟩)
  refine (listUntil_together hl ")" (fun he => (base_agree hl).below he.below) hd.below).bind_eq
    fun names e e' he => ?_
  exact leave_bind_together he (.pure rfl ⟨rfl, rfl⟩)

/-- The walks over members of classes go together. -/
theorem classMember_agree (hl : Alike m l l') (a : Location) (name : String) :
    Agree m Eq (l.classMember a name) (l'.classMember a name) := by
  intro c c' hc
  refine (isVarInit_tells hc).bind_tells_back (fun hkind => ?_) ?_
  · refine (varInit_together hl hc hkind).bind_eq_back fun value => ?_
    exact .pure rfl ⟨rfl, rfl⟩
  · refine isAt_bind_together hc (fun hkind => ?_) ?_
    · refine (funDef_together hl hc hkind).bind_eq_back fun value => ?_
      exact .pure rfl ⟨rfl, rfl⟩
    · exact isAt_bind_together hc (fun _ => .pure rfl ⟨rfl, rfl⟩)
        (refuseAt_together hl rfl rfl)

/-- The base classes of a class, which may be missing. -/
theorem bases_bind_together (hl : Alike m l l') {next : List String → Walk α}
    {next' : List String → Walk β} (hd : c.Below m c' d d')
    (hnext : ∀ generics e e', c.Below m c' e e' →
      Together m rel place (next generics) (next' generics) e e') :
    Together m rel place
      (do
        let generics ←
          if ← isAt .argList then do
            let names ← l.generics
            step
            pure names
          else pure []
        next generics)
      (do
        let generics ←
          if ← isAt .argList then do
            let names ← l'.generics
            step
            pure names
          else pure []
        next' generics) d d' := by
  refine isAt_bind_together hd.node (fun _ => ?_) (.pure_bind (hnext [] d d' hd))
  refine (generics_together hl hd.node).bind_eq_back fun names => ?_
  refine step_bind_together hd fun e e' he => ?_
  exact .pure_bind (hnext names e e' he)

/-- The walks over classes go together. -/
theorem classDef_together (hl : Alike m l l') (hc : c.node.Alike m.node c'.node)
    (hkind : c.node.kind = .classDefinition) :
    Together m Eq (Back c c') l.classDef l'.classDef c c' := by
  obtain ⟨name, hname, hleaf⟩ := (hl.content hc.root).name_leaf (.inr hkind)
  refine location_bind_together hl hc fun a => ?_
  refine enter_bind_together hl hc (hkind ▸ rfl) fun d₀ d₀' hd₀ => ?_
  refine step_to_together hd₀ hname fun d₁ d₁' hd₁ hnode => ?_
  refine leafText_bind_together hl hd₁.node (hnode ▸ hleaf) fun name => ?_
  refine step_bind_together hd₁.below fun d₂ d₂' hd₂ => ?_
  refine bases_bind_together hl hd₂ fun generics e e' he => ?_
  -- The body is one more node below.
  refine openBody_bind_together hl he.node fun f f' hf => ?_
  refine (collectAll_together hl (fun hg => (classMember_agree hl a name).below hg.below)
    hf.below).bind_eq fun members g g' hg => ?_
  refine leave_bind_together hg ?_
  exact leave_bind_together he (.pure rfl ⟨rfl, rfl⟩)

/-! ## Programs -/

/-- The walks over declarations go together, and find none at the same nodes. -/
theorem declaration_agree (hl : Alike m l l') : Agree m Eq l.declaration l'.declaration := by
  intro c c' hc
  refine (isVarInit_tells hc).bind_tells_back (fun hkind => ?_) ?_
  · refine (varInit_together hl hc hkind).bind_eq_back fun value => ?_
    exact .pure rfl ⟨rfl, rfl⟩
  refine isAt_bind_together hc (fun hkind => ?_) ?_
  · refine (funDef_together hl hc hkind).bind_eq_back fun value => ?_
    exact .pure rfl ⟨rfl, rfl⟩
  refine isAt_bind_together hc (fun hkind => ?_) (.pure rfl ⟨rfl, rfl⟩)
  refine (classDef_together hl hc hkind).bind_eq_back fun value => ?_
  exact .pure rfl ⟨rfl, rfl⟩

/-- The walks over rows of declarations go together, and stop at the same place. -/
theorem declarations_together (hl : Alike m l l') (limit : Nat) (here : Bool)
    (hd : c.Below m c' d d') :
    Together m Eq (c.Below m c') (l.declarations limit here) (l'.declarations limit here) d d' := by
  refine rounds_together hl (fun _ => ⟨rfl, rfl⟩) (fun _ _ _ hd => .pure rfl hd)
    (fun limit d d' hd hmore => ?_) limit here hd
  refine (declaration_agree hl).bind_eq hd.node fun first => ?_
  cases first with
  | none => exact .pure rfl hd
  | some first => exact hmore fun more e e' he => .pure rfl he

/-- The looks behind keywords end at the same child; the texts there may differ. -/
theorem nameBehindKeywords_together (hl : Alike m l l') (limit : Nat) (hd : c.Below m c' d d') :
    Together m (fun _ _ => True) (c.Below m c') (l.nameBehindKeywords limit)
      (l'.nameBehindKeywords limit) d d' := by
  induction limit generalizing d d' with
  | zero => exact .throw hl.unfinished
  | succ limit ih =>
    have hword : Together m (Tells (d.node.kind = .keyword)) (c.Below m c')
        (andAlso (isAt .keyword) nextSibling) (andAlso (isAt .keyword) nextSibling) d d' :=
      ((isAt_tells hd.node).below hd).andAlso (fun _ _ _ he => nextSibling_together he)
        fun _ _ he => he
    refine hword.bind_tells (fun _ e e' he => ih he) fun e e' he => ?_
    exact .runs rfl rfl trivial he

/-- The looks for the name of a declaration come back together. -/
theorem declaredName_agree (hl : Alike m l l') :
    Agree m (fun _ _ => True) l.declaredName l'.declaredName := by
  intro c c' hc
  refine firstChild_bind_together hc (fun d d' hd => ?_) (.pure trivial ⟨rfl, rfl⟩)
  rw [← hl.limit]
  refine (nameBehindKeywords_together hl l.limit hd.below).bind fun _ _ e e' _ he => ?_
  exact leave_bind_together he (.pure trivial ⟨rfl, rfl⟩)

/-- The walks over statements of programs go together, and refuse the same declarations. -/
theorem topStmt_agree (hl : Alike m l l') : Agree m Eq l.topStmt l'.topStmt := by
  intro c c' hc
  refine (isVarInit_tells hc).answer.bind_eq_back fun typed => ?_
  refine (isAt_tells hc).answer.bind_eq_back fun isFun => ?_
  refine (isAt_tells hc).answer.bind_eq_back fun isClass => ?_
  refine .ite (fun _ => ?_) fun _ => stmt_agree hl c c' hc
  exact (declaredName_agree hl).bind hc fun _ _ _ => refuse_together hl hc rfl rfl

/-- The walks over rows of statements of programs go together. -/
theorem topStmts_together (hl : Alike m l l') (limit : Nat) (here : Bool)
    (hd : c.Below m c' d d') :
    Together m Eq (c.Below m c') (l.topStmts limit here) (l'.topStmts limit here) d d' := by
  refine rounds_together hl (fun _ => ⟨rfl, rfl⟩) (fun _ _ _ hd => .pure rfl hd)
    (fun limit d d' hd hmore => ?_) limit here hd
  refine (topStmt_agree hl).bind_eq hd.node fun first => ?_
  exact hmore fun more e e' he => .pure rfl he

/-- The walks over programs go together. -/
theorem program_together (hl : Alike m l l') (hc : c.node.Alike m.node c'.node)
    (hkind : c.node.kind = .script) : Together m Eq (Back c c') l.program l'.program c c' := by
  unfold program
  rw [← hl.limit]
  refine location_bind_together hl hc fun a => ?_
  refine knownKind_bind_together hc hkind ?_
  refine firstChild_bind_together hc (fun d d' hd => ?_) ?_
  · refine (declarations_together hl l.limit true hd.below).bind_eq fun found e e' he => ?_
    refine (topStmts_together hl l.limit found.2 he).bind_eq fun stmts f f' hf => ?_
    exact leave_bind_together hf (.pure rfl ⟨rfl, rfl⟩)
  -- Without a node there are no declarations and no statements.
  · cases l.limit with
    | zero => exact .throw hl.unfinished
    | succ limit => exact .pure rfl ⟨rfl, rfl⟩

end Lowering

/-- Alike trees of scripts are lowered to the same program, or both are refused. -/
theorem lower_alike {m : Likeness} {tree tree' : SyntaxNode} {source source' : Source}
    (hl : Lowering.Alike m (.ofTree source tree) (.ofTree source' tree'))
    (hkind : tree.kind = .script) (htree : tree.Alike m.node tree') :
    Outcome.Alike m.failure Eq (lower tree source) (lower tree' source') := by
  have hwalks : Walk.Together m Eq (Cursor.Back (.top tree) (.top tree'))
      (Lowering.ofTree source tree).program (Lowering.ofTree source' tree').program (.top tree)
      (.top tree') :=
    Lowering.program_together hl htree hkind
  exact Outcome.Alike.bind hwalks fun _ _ hends => .ok hends.1

end Offside
