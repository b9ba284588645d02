import Offside.Lowering.Declarations
import Offside.Proofs.Lowering.StatementWalks

/-!
# Walks come back

The walks over declarations and programs come back, and with them every walk of a lowering,
wherever in a tree it starts: no walk goes on for ever, none climbs above its start, and none
leaves the cursor behind on its way.

Main results:

- Theorem `program_comesBack`: the walk over a program comes back.
- Theorem `walks_comeBack`: all walks of a lowering come back from all nodes of a tree.
-/

namespace Offside
namespace Lowering

open Walk

variable {l : Lowering} {c d : Cursor}

/-! ## Variables -/

/-- The look for a variable comes back, and finds one only in a node with children. -/
theorem isVarInit_terminates : Terminates isVarInit c fun found last =>
    last = c ∧ (found = true → c.node.children ≠ []) := by
  apply isAt_firstChild_bind
  · intro d _ hd
    have hchildren : c.node.children ≠ [] :=
      List.ne_nil_of_length_pos (Nat.zero_lt_of_lt (Cursor.lt_length_of_child? hd))
    have hunder : c.Under d := ⟨0, hd⟩
    apply (andAlso_under (nextSibling_under hunder) fun e he =>
      (isAt_comesBack .typeDef e).under he).bind
    intro typed e he
    exact leave_bind he (.pure ⟨rfl, fun _ => hchildren⟩)
  · exact .pure ⟨rfl, nofun⟩

/-- The look for a declaration of a variable comes back. -/
theorem isVarInit_comesBack : ComesBack isVarInit c :=
  isVarInit_terminates.mono fun _ _ hlast => hlast.1

/-- What follows this look may use that a declaration has parts. -/
theorem isVarInit_bind {β : Type} {next : Bool → Walk β} {post : β → Cursor → Prop}
    (hyes : c.node.children ≠ [] → Terminates (next true) c post)
    (hno : Terminates (next false) c post) : Terminates (isVarInit >>= next) c post := by
  apply isVarInit_terminates.bind
  rintro (_ | _) last ⟨rfl, hfound⟩
  · exact hno
  · exact hyes (hfound rfl)

/-- A declared variable comes back to its phrase. -/
theorem varInit_comesBack (hcovers : l.Covers c.node) (hchildren : c.node.children ≠ []) :
    ComesBack l.varInit c := by
  apply (location_comesBack c).bind
  intro a
  apply enter_bind hchildren
  intro d hd
  apply (text_comesBack d).bind
  intro name
  apply isAt_bind
  · intro _
    apply step_bind hd
    intro e he
    apply isAt_bind
    · intro hkind
      apply (typeDef_comesBack (hcovers.of_mem he.mem) hkind).bind
      intro ty
      apply (andAlso_under (stepTo_under "=" he) fun f hf => nextSibling_under hf).bind
      intro valued f hf
      split
      · apply (literal_comesBack f).bind
        intro value
        exact leave_bind hf (.pure rfl)
      · exact refuseAt_terminates
    · exact refuseAt_terminates
  · exact refuseAt_terminates

/-- Declared variables in a row end among the children of the phrase around. -/
theorem varInits_under {limit index : Nat} {here : Bool} (hcovers : l.Covers c.node)
    (hd : c.child? index = some d) (hlimit : c.node.children.length < index + limit) :
    Terminates (l.varInits limit here) d fun _ e => c.Under e := by
  apply rounds_under ?_ ?_ hd hlimit
  · intro limit d
    exact comesBack_of_runs rfl
  · intro limit d hd hmore
    apply isVarInit_bind
    · intro hchildren
      apply (varInit_comesBack (hcovers.of_mem hd.mem) hchildren).bind
      intro first
      apply hmore
      intro more e he
      exact .pure he
    · exact .pure hd

/-- So do statements in a row. -/
theorem stmts_under {limit index : Nat} {here : Bool} (hcovers : l.Covers c.node)
    (hd : c.child? index = some d) (hlimit : c.node.children.length < index + limit) :
    Terminates (l.stmts limit here) d fun _ e => c.Under e := by
  apply rounds_under ?_ ?_ hd hlimit
  · intro limit d
    exact comesBack_of_runs rfl
  · intro limit d hd hmore
    apply (stmt_comesBack (hcovers.of_mem hd.mem)).bind
    intro first
    apply hmore
    intro more e he
    exact .pure he

/-! ## Functions -/

/-- A parameter is read up to its type. -/
theorem parameter_advances {index : Nat} (hcovers : l.Covers c.node)
    (hd : c.child? index = some d) : Terminates l.parameter d fun _ last =>
      ∃ behind, index ≤ behind ∧ c.child? behind = some last := by
  apply (text_comesBack d).bind
  intro name
  apply (location_comesBack d).bind
  intro a
  have htyped : Terminates (andAlso nextSibling (isAt .typeDef)) d fun found e =>
      found = true → c.child? (index + 1) = some e ∧ e.node.kind = .typeDef := by
    apply nextSibling_bind hd
    · intro e he
      have hisAt : Runs (isAt .typeDef) e (decide (e.node.kind = .typeDef)) e := rfl
      exact .runs hisAt fun hfound => ⟨he, of_decide_eq_true hfound⟩
    · exact .pure nofun
  apply htyped.bind
  rintro (_ | _) e he
  · exact refuseAt_terminates
  · obtain ⟨hchild, hkind⟩ := he rfl
    have hunder : c.Under e := ⟨_, hchild⟩
    apply (typeDef_comesBack (hcovers.of_mem hunder.mem) hkind).bind
    intro ty
    exact .pure ⟨_, Nat.le_succ index, hchild⟩

/-- Parameters come back to their list. -/
theorem parameters_comesBack (hcovers : l.Covers c.node) : ComesBack l.parameters c := by
  apply firstChild_bind
  · intro d hd
    apply (listUntil_under_of_advances hcovers ")" ⟨0, hd⟩ ?_).bind
    · intro parameters e he
      exact leave_bind he (.pure rfl)
    · intro index e he
      apply (parameter_advances hcovers he).bind
      intro parameter last hlast
      exact .pure hlast
  · intro _
    exact .pure rfl

/-- The result type of a function, which may be missing. -/
theorem resultType_bind {β : Type} {next : Ty → Walk β} {post : β → Cursor → Prop}
    (hcovers : l.Covers c.node) (hd : c.Under d)
    (hnext : ∀ ret e, c.Under e → Terminates (next ret) e post) :
    Terminates (do
      let ret ←
        if ← isAt .typeDef then do
          let ty ← l.typeDef
          step
          pure ty
        else pure .none
      next ret) d post := by
  apply isAt_bind
  · intro hkind
    apply (typeDef_comesBack (hcovers.of_mem hd.mem) hkind).bind
    intro ty
    apply step_bind hd
    intro e he
    exact .bind_runs (Runs.pure ty e) (hnext ty e he)
  · exact .bind_runs (Runs.pure _ d) (hnext _ d hd)

/-- A function comes back to its definition. -/
theorem funDef_comesBack (hcovers : l.Covers c.node) (hchildren : c.node.children ≠ []) :
    ComesBack l.funDef c := by
  apply (location_comesBack c).bind
  intro a
  apply enter_bind hchildren
  intro d₁ hd₁
  apply step_bind hd₁
  intro d₂ hd₂
  apply (text_comesBack d₂).bind
  intro name
  apply step_bind hd₂
  intro d₃ hd₃
  apply (parameters_comesBack (hcovers.of_mem hd₃.mem)).bind
  intro parameters
  apply step_bind hd₃
  intro d₄ hd₄
  apply resultType_bind hcovers hd₄
  intro ret d₅ hd₅
  -- The body is one more node below.
  have hbody : l.Covers d₅.node := hcovers.of_mem hd₅.mem
  apply openBody_bind
  intro colon hcolon
  apply (nextSibling_under ⟨0, hcolon⟩).bind
  rintro moved e ⟨index, he⟩
  apply (varInits_under hbody he (hbody.length_children_lt index)).bind
  rintro ⟨inits, here⟩ f ⟨behind, hf⟩
  apply (stmts_under hbody hf (hbody.length_children_lt behind)).bind
  intro body g hg
  exact leave_bind hg (leave_bind hd₅ (.pure rfl))

/-! ## Classes -/

/-- A base class comes back. -/
theorem base_comesBack (hcovers : l.Covers c.node) : ComesBack l.base c := by
  apply kind_bind
  split
  · next hkind =>
    apply (text_comesBack c).bind
    intro text
    apply (location_comesBack c).bind
    intro a
    apply enter_bind (hcovers.children_ne hkind rfl)
    intro d hd
    have hgeneric (e : Cursor) : ComesBack (do return (← l.text) = "Generic") e :=
      comesBack_of_runs rfl
    have htest : Terminates (andAlso (andAlso (isAt .variableName)
        (do return (← l.text) = "Generic")) (l.stepTo "[")) d fun _ e => c.Under e := by
      apply andAlso_under
      · apply andAlso_under ((isAt_comesBack _ d).under hd)
        intro e he
        exact (hgeneric e).under he
      · intro e he
        exact stepTo_under "[" he
    apply htest.bind
    intro generic e he
    split
    · apply (listUntil_under hcovers "]" he ?_).bind
      · intro names f hf
        exact leave_bind hf (.pure rfl)
      · intro f hf
        apply isAt_bind
        · intro _
          exact (text_comesBack f).bind fun _ => .pure rfl
        · exact (text_comesBack f).bind fun _ => refuse_terminates
    · exact refuseAt_terminates
  · apply (text_comesBack c).bind
    intro text
    split
    · exact .pure rfl
    · exact refuse_terminates
  · exact (text_comesBack c).bind fun _ => refuse_terminates

/-- Base classes come back to their list. -/
theorem generics_comesBack (hcovers : l.Covers c.node) : ComesBack l.generics c := by
  apply firstChild_bind
  · intro d hd
    apply (listUntil_under hcovers ")" ⟨0, hd⟩ fun e he =>
      base_comesBack (hcovers.of_mem he.mem)).bind
    intro names e he
    exact leave_bind he (.pure rfl)
  · intro _
    exact .pure rfl

/-- A member of a class comes back. -/
theorem classMember_comesBack (a : Location) (name : String) (hcovers : l.Covers c.node) :
    ComesBack (l.classMember a name) c := by
  apply isVarInit_bind
  · intro hchildren
    exact (varInit_comesBack hcovers hchildren).bind fun _ => .pure rfl
  · apply isAt_bind
    · intro hkind
      exact (funDef_comesBack hcovers (hcovers.children_ne hkind rfl)).bind fun _ => .pure rfl
    · apply isAt_bind
      · intro _
        exact .pure rfl
      · exact refuseAt_terminates

/-- The base classes of a class, which may be missing. -/
theorem bases_bind {β : Type} {next : List String → Walk β} {post : β → Cursor → Prop}
    (hcovers : l.Covers c.node) (hd : c.Under d)
    (hnext : ∀ generics e, c.Under e → Terminates (next generics) e post) :
    Terminates (do
      let generics ←
        if ← isAt .argList then do
          let names ← l.generics
          step
          pure names
        else pure []
      next generics) d post := by
  apply isAt_bind
  · intro _
    apply (generics_comesBack (hcovers.of_mem hd.mem)).bind
    intro names
    apply step_bind hd
    intro e he
    exact .bind_runs (Runs.pure names e) (hnext names e he)
  · exact .bind_runs (Runs.pure _ d) (hnext _ d hd)

/-- A class comes back to its definition. -/
theorem classDef_comesBack (hcovers : l.Covers c.node) (hchildren : c.node.children ≠ []) :
    ComesBack l.classDef c := by
  apply (location_comesBack c).bind
  intro a
  apply enter_bind hchildren
  intro d₁ hd₁
  apply step_bind hd₁
  intro d₂ hd₂
  apply (text_comesBack d₂).bind
  intro name
  apply step_bind hd₂
  intro d₃ hd₃
  apply bases_bind hcovers hd₃
  intro generics d₄ hd₄
  -- The body is one more node below.
  have hbody : l.Covers d₄.node := hcovers.of_mem hd₄.mem
  apply openBody_bind
  intro colon hcolon
  apply (collect_under (fun e _ => comesBack_of_runs rfl) ?_ hcolon
    (hbody.length_children_le 0)).bind
  · intro members e he
    exact leave_bind he (leave_bind hd₄ (.pure rfl))
  · intro index e he
    have hunder : d₄.Under e := ⟨index, he⟩
    apply (classMember_comesBack a name (hbody.of_mem hunder.mem)).mono
    rintro _ _ rfl
    exact ⟨index, Nat.le_refl index, he⟩

/-! ## Programs -/

/-- The look for a declaration comes back, whether there is one or not. -/
theorem declaration_comesBack (hcovers : l.Covers c.node) : ComesBack l.declaration c := by
  apply isVarInit_bind
  · intro hchildren
    exact (varInit_comesBack hcovers hchildren).bind fun _ => .pure rfl
  · apply isAt_bind
    · intro hkind
      exact (funDef_comesBack hcovers (hcovers.children_ne hkind rfl)).bind fun _ => .pure rfl
    · apply isAt_bind
      · intro hkind
        exact (classDef_comesBack hcovers (hcovers.children_ne hkind rfl)).bind fun _ => .pure rfl
      · exact .pure rfl

/-- Declarations in a row end among the children of the script. -/
theorem declarations_under {limit index : Nat} {here : Bool} (hcovers : l.Covers c.node)
    (hd : c.child? index = some d) (hlimit : c.node.children.length < index + limit) :
    Terminates (l.declarations limit here) d fun _ e => c.Under e := by
  apply rounds_under ?_ ?_ hd hlimit
  · intro limit d
    exact comesBack_of_runs rfl
  · intro limit d hd hmore
    apply (declaration_comesBack (hcovers.of_mem hd.mem)).bind
    intro first
    cases first with
    | none => exact .pure hd
    | some first =>
      apply hmore
      intro more e he
      exact .pure he

/-- The name behind keywords is among the children of the declaration. -/
theorem nameBehindKeywords_under {limit index : Nat} (hd : c.child? index = some d)
    (hlimit : c.node.children.length ≤ index + limit) :
    Terminates (l.nameBehindKeywords limit) d fun _ e => c.Under e := by
  refine Cursor.siblings_induction (motive := fun limit d =>
    Terminates (l.nameBehindKeywords limit) d fun _ e => c.Under e) ?_ hd hlimit
  intro limit index d hd ih
  apply isAt_andAlso_bind (nextSibling_terminates hd)
  · intro e _ he
    exact ih (Nat.lt_succ_self index) he
  · exact (text_comesBack d).under ⟨index, hd⟩

/-- The look for the name that a declaration introduces comes back. -/
theorem declaredName_comesBack (hcovers : l.Covers c.node) : ComesBack l.declaredName c := by
  apply firstChild_bind
  · intro d hd
    apply (nameBehindKeywords_under hd (hcovers.length_children_le 0)).bind
    intro name e he
    exact leave_bind he (.pure rfl)
  · intro _
    exact .pure rfl

/-- A statement of a program comes back. -/
theorem topStmt_comesBack (hcovers : l.Covers c.node) : ComesBack l.topStmt c := by
  apply isVarInit_comesBack.bind
  intro typed
  apply (isAt_comesBack .functionDefinition c).bind
  intro isFun
  apply (isAt_comesBack .classDefinition c).bind
  intro isClass
  split
  · exact (declaredName_comesBack hcovers).bind fun _ => refuse_terminates
  · exact stmt_comesBack hcovers

/-- Statements of a program in a row end among the children of the script. -/
theorem topStmts_under {limit index : Nat} {here : Bool} (hcovers : l.Covers c.node)
    (hd : c.child? index = some d) (hlimit : c.node.children.length < index + limit) :
    Terminates (l.topStmts limit here) d fun _ e => c.Under e := by
  apply rounds_under ?_ ?_ hd hlimit
  · intro limit d
    exact comesBack_of_runs rfl
  · intro limit d hd hmore
    apply (topStmt_comesBack (hcovers.of_mem hd.mem)).bind
    intro first
    apply hmore
    intro more e he
    exact .pure he

/-- Without a node there are no declarations and no statements. -/
theorem runs_without_node {limit : Nat} (hlimit : 0 < limit) (c : Cursor) :
    Runs (l.declarations limit false) c ([], false) c ∧
      Runs (l.topStmts limit false) c [] c := by
  rcases Nat.exists_eq_succ_of_ne_zero (Nat.ne_of_gt hlimit) with ⟨less, rfl⟩
  exact ⟨rfl, rfl⟩

/-- The walk over a program comes back. -/
theorem program_comesBack (hcovers : l.Covers c.node) : ComesBack l.program c := by
  apply (location_comesBack c).bind
  intro a
  apply isAt_bind
  · intro hkind
    apply firstChild_bind
    · intro d hd
      apply (declarations_under hcovers hd (hcovers.length_children_lt 0)).bind
      rintro ⟨declarations, here⟩ e ⟨index, he⟩
      apply (topStmts_under hcovers he (hcovers.length_children_lt index)).bind
      intro stmts f hf
      exact leave_bind hf (.pure rfl)
    · intro _
      have hlimit : 0 < l.limit := Nat.lt_of_lt_of_le c.node.size_pos hcovers.size_le
      obtain ⟨hdeclarations, hstmts⟩ := runs_without_node hlimit c
      exact .bind_runs hdeclarations (.bind_runs hstmts (.pure rfl))
  · exact refuse_terminates

/-! ## All walks -/

/-- A lowering covers what is reached by descending from what it covers. -/
theorem Covers.descend {first : Cursor} {path : List Nat} (h : l.Covers first.node)
    (hpath : first.descend? path = some c) : l.Covers c.node :=
  Cursor.of_descend? (fun h hmem => h.of_mem hmem) h hpath

/-- The lowering of a tree covers it. -/
theorem covers_ofTree (source : Source) {tree : SyntaxNode} (hfilled : tree.Filled) :
    (ofTree source tree).Covers tree := by
  have hlimit : (ofTree source tree).limit = 8 * (tree.size + 1) := rfl
  refine ⟨hfilled, ?_⟩
  rw [hlimit]
  omega

/-- All walks of a lowering end, and come back, from all nodes of a tree whose phrases have
children where they are entered; those over declarations from all nodes that have children. -/
theorem walks_comeBack {source : Source} {tree : SyntaxNode} (hfilled : tree.Filled)
    {path : List Nat} {c : Cursor} (hc : (Cursor.top tree).descend? path = some c) :
    let l := ofTree source tree
    ComesBack l.program c ∧ ComesBack l.stmt c ∧ ComesBack l.expr c ∧ ComesBack l.literal c ∧
      ComesBack l.ty c ∧ ComesBack l.arguments c ∧ ComesBack l.parameters c ∧
      ComesBack l.generics c ∧
      (c.node.children ≠ [] →
        ComesBack l.varInit c ∧ ComesBack l.funDef c ∧ ComesBack l.classDef c) := by
  intro l
  have htop : l.Covers (Cursor.top tree).node := covers_ofTree source hfilled
  have hcovers : l.Covers c.node := htop.descend hc
  refine ⟨program_comesBack hcovers, stmt_comesBack hcovers, expr_comesBack hcovers,
    literal_comesBack c, ty_comesBack hcovers, arguments_comesBack hcovers,
    parameters_comesBack hcovers, generics_comesBack hcovers, fun hchildren => ?_⟩
  exact ⟨varInit_comesBack hcovers hchildren, funDef_comesBack hcovers hchildren,
    classDef_comesBack hcovers hchildren⟩

/-- The tree of `f(1`, a call without its closing parenthesis. -/
def openCall : SyntaxNode :=
  .branch .script [.branch .expressionStatement [.branch .callExpression
    [.leaf .variableName ⟨0, 1⟩,
      .branch .argList [.leaf .punctuation ⟨1, 2⟩, .leaf .number ⟨2, 3⟩]]]]

/-- The walk over the arguments of a call that is not closed ends at the last of them, and
still comes back; and a call is no declaration, but the walks over declarations end there. -/
theorem walks_comeBack_openCall :
    openCall.Filled ∧ ∃ c, (Cursor.top openCall).descend? [0, 0] = some c ∧
      ComesBack (ofTree ['f', '(', '1'] openCall).expr c ∧ c.node.children ≠ [] ∧
      ComesBack (ofTree ['f', '(', '1'] openCall).funDef c := by
  have hfilled : openCall.Filled := by
    unfold SyntaxNode.Filled
    decide
  have hcall : ∃ c, (Cursor.top openCall).descend? [0, 0] = some c ∧ c.node.children ≠ [] :=
    ⟨_, rfl, nofun⟩
  rcases hcall with ⟨c, hc, hchildren⟩
  obtain ⟨-, -, hexpr, -, -, -, -, -, hdeclarations⟩ := walks_comeBack hfilled hc
  exact ⟨hfilled, c, hc, hexpr, hchildren, (hdeclarations hchildren).2.1⟩

end Lowering
end Offside
