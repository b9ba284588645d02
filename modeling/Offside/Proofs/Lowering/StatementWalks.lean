import Offside.Lowering.Statements
import Offside.Proofs.Lowering.ExpressionWalks

/-!
# Walks over statements

Every walk over a statement comes back.  A block is entered twice, from the statement and from
its body, so a statement inside a block is two nodes below the statement around it.

Main results:

- Theorem `stmt_comesBack`: the walk over a statement comes back.
-/

namespace Offside
namespace Lowering

open Walk

variable {l : Lowering} {c d : Cursor}

/-! ## Blocks -/

/-- A block is entered, or refused. -/
theorem openBody_bind {β : Type} {next : Unit → Walk β} {post : β → Cursor → Prop}
    {owner : Location} (hnext : ∀ d, c.child? 0 = some d → Terminates (next ()) d post) :
    Terminates (l.openBody owner >>= next) c post := by
  have hopen : Terminates (l.openBody owner) c fun _ d => c.child? 0 = some d := by
    apply isAt_firstChild_bind
    · intro d _ hd
      apply (isToken_comesBack ":" d).bind
      intro isColon
      split
      · exact .pure hd
      · exact leave_bind ⟨0, hd⟩ refuseAt_terminates
    · exact refuseAt_terminates
  exact hopen.bind fun _ d hd => hnext d hd

section Parts

variable {inner : Walk (Stmt Location)}

/-- A block, over a walk for its statements. -/
theorem blockWith_comesBack {owner : Location} (hcovers : l.Covers c.node)
    (hinner : l.ComesBackBelow inner c) : ComesBack (l.blockWith inner owner) c := by
  apply openBody_bind
  intro d hd
  apply (collect_under (fun e _ => comesBack_of_runs rfl) ?_ hd
    (hcovers.length_children_le 0)).bind
  · intro statements e he
    exact leave_bind he (.pure rfl)
  · intro index e he
    apply (hinner.under hcovers ⟨index, he⟩).bind
    intro statement
    exact .pure ⟨index, Nat.le_refl index, he⟩

/-- The branches behind the first one end among the children of the conditional. -/
theorem ifTail_under {limit index : Nat} {owner : Location} (hcovers : l.Covers c.node)
    (hinner : l.ComesBackBelow inner c) (hd : c.child? index = some d)
    (hlimit : c.node.children.length ≤ index + limit) :
    Terminates (l.ifTail inner limit owner) d fun _ e => c.Under e := by
  have hblock {owner : Location} {e : Cursor} (he : c.Under e) :
      ComesBack (l.blockWith inner owner) e :=
    blockWith_comesBack (hcovers.of_mem he.mem) (hinner.descend he)
  refine Cursor.siblings_induction (motive := fun limit d =>
    ∀ owner, Terminates (l.ifTail inner limit owner) d fun _ e => c.Under e) ?_ hd hlimit owner
  intro limit index d hd ih owner
  apply nextSibling_bind hd
  · intro e he
    apply (isToken_comesBack "else" e).bind
    intro isElse
    split
    · apply step_bind ⟨_, he⟩
      intro f hf
      exact (hblock hf).under hf
    · apply (isToken_comesBack "elif" e).bind
      intro isElif
      split
      · apply (location_comesBack e).bind
        intro a
        apply step_bind_behind he
        intro behind f hbehind hf
        apply (expr_comesBack (hcovers.of_mem (Cursor.Under.mem ⟨_, hf⟩))).bind
        intro condition
        apply step_bind_behind hf
        intro behind' g hbehind' hg
        apply (hblock ⟨_, hg⟩).bind
        intro body
        -- Both steps may stay where they are, but the word is right of where the round began.
        apply (ih (by omega) hg _).bind
        intro otherwise last hlast
        exact .pure hlast
      · exact (text_comesBack e).bind fun _ => refuse_terminates
  · exact .pure ⟨_, hd⟩

/-! ## Statements -/

/-- A return comes back to its phrase. -/
theorem returnStatement_comesBack (a : Location) (hcovers : l.Covers c.node)
    (hchildren : c.node.children ≠ []) : ComesBack (l.returnStatement a) c := by
  apply enter_bind hchildren
  rintro d ⟨index, hd⟩
  apply nextSibling_bind hd
  · intro e he
    have hunder : c.Under e := ⟨_, he⟩
    apply (expr_comesBack (hcovers.of_mem hunder.mem)).bind
    intro value
    exact leave_bind hunder (.pure rfl)
  · exact .bind_runs rfl (leave_bind ⟨_, hd⟩ (.pure rfl))

/-- An assignment comes back to its phrase. -/
theorem assignStatement_comesBack (a : Location) (hcovers : l.Covers c.node)
    (hchildren : c.node.children ≠ []) : ComesBack (l.assignStatement a) c := by
  apply enter_bind hchildren
  intro d hd
  apply (text_comesBack d).bind
  intro targetText
  apply (expr_comesBack (hcovers.of_mem hd.mem)).bind
  intro target
  apply step_bind hd
  intro e he
  apply (isAt_comesBack .typeDef e).bind
  intro typed
  split
  · exact leave_bind he refuseAt_terminates
  · apply step_bind he
    intro f hf
    apply (expr_comesBack (hcovers.of_mem hf.mem)).bind
    intro value
    apply leave_bind hf
    split
    · exact .pure rfl
    · exact .pure rfl
    · exact .pure rfl
    · exact refuseAt_terminates

/-- An expression as a statement comes back to its phrase. -/
theorem expressionStatement_comesBack (a : Location) (hcovers : l.Covers c.node)
    (hchildren : c.node.children ≠ []) : ComesBack (l.expressionStatement a) c := by
  apply enter_bind hchildren
  intro d hd
  apply (expr_comesBack (hcovers.of_mem hd.mem)).bind
  intro value
  exact leave_bind hd (.pure rfl)

/-- A conditional comes back to its phrase. -/
theorem ifStatement_comesBack (a : Location) (hcovers : l.Covers c.node)
    (hchildren : c.node.children ≠ []) (hinner : l.ComesBackBelow inner c) :
    ComesBack (l.ifStatement inner a) c := by
  apply enter_bind hchildren
  intro d hd
  apply step_bind hd
  intro e he
  apply (expr_comesBack (hcovers.of_mem he.mem)).bind
  intro condition
  apply step_bind he
  intro f hf
  apply (blockWith_comesBack (hcovers.of_mem hf.mem) (hinner.descend hf)).bind
  intro body
  rcases hf with ⟨index, hindex⟩
  apply (ifTail_under hcovers hinner hindex (hcovers.length_children_le index)).bind
  intro otherwise g hg
  exact leave_bind hg (.pure rfl)

/-- A loop under a condition comes back to its phrase. -/
theorem whileStatement_comesBack (a : Location) (hcovers : l.Covers c.node)
    (hchildren : c.node.children ≠ []) (hinner : l.ComesBackBelow inner c) :
    ComesBack (l.whileStatement inner a) c := by
  apply enter_bind hchildren
  intro d hd
  apply step_bind hd
  intro e he
  apply (expr_comesBack (hcovers.of_mem he.mem)).bind
  intro condition
  apply step_bind he
  intro f hf
  apply (blockWith_comesBack (hcovers.of_mem hf.mem) (hinner.descend hf)).bind
  intro body
  exact leave_bind hf (.pure rfl)

/-- A loop over elements comes back to its phrase. -/
theorem forStatement_comesBack (a : Location) (hcovers : l.Covers c.node)
    (hchildren : c.node.children ≠ []) (hinner : l.ComesBackBelow inner c) :
    ComesBack (l.forStatement inner a) c := by
  have hblock {e : Cursor} (he : c.Under e) : ComesBack (l.blockWith inner a) e :=
    blockWith_comesBack (hcovers.of_mem he.mem) (hinner.descend he)
  apply enter_bind hchildren
  intro d₁ hd₁
  apply step_bind hd₁
  intro d₂ hd₂
  apply (isAt_comesBack .variableName d₂).bind
  intro isName
  split
  · apply (text_comesBack d₂).bind
    intro item
    apply step_bind hd₂
    intro d₃ hd₃
    apply step_bind hd₃
    intro d₄ hd₄
    apply (expr_comesBack (hcovers.of_mem hd₄.mem)).bind
    intro iterable
    apply step_bind hd₄
    intro d₅ hd₅
    apply (hblock hd₅).bind
    intro body
    apply (stepTo_under "else" hd₅).bind
    intro found d₆ hd₆
    split
    · apply step_bind hd₆
      intro d₇ hd₇
      apply (hblock hd₇).bind
      intro otherwise
      exact leave_bind hd₇ (.pure rfl)
    · exact .bind_runs rfl (leave_bind hd₆ (.pure rfl))
  · exact (text_comesBack d₂).bind fun _ => refuse_terminates

/-- A statement, over a walk for the statements inside. -/
theorem stmtWith_comesBack (hcovers : l.Covers c.node) (hinner : l.ComesBackBelow inner c) :
    ComesBack (l.stmtWith inner) c := by
  have hchildren {kind : SyntaxKind} (hkind : c.node.kind = kind) (hparts : kind.hasParts = true) :
      c.node.children ≠ [] := hcovers.children_ne hkind hparts
  apply (location_comesBack c).bind
  intro a
  apply kind_bind
  split
  · next hkind => exact returnStatement_comesBack a hcovers (hchildren hkind rfl)
  · next hkind => exact assignStatement_comesBack a hcovers (hchildren hkind rfl)
  · next hkind => exact expressionStatement_comesBack a hcovers (hchildren hkind rfl)
  · next hkind => exact ifStatement_comesBack a hcovers (hchildren hkind rfl) hinner
  · next hkind => exact whileStatement_comesBack a hcovers (hchildren hkind rfl) hinner
  · next hkind => exact forStatement_comesBack a hcovers (hchildren hkind rfl) hinner
  · exact .pure rfl
  · exact .pure rfl
  · exact .pure rfl
  · exact (text_comesBack c).bind fun _ => refuse_terminates

end Parts

/-- A statement comes back within a limit that is enough for its tree. -/
theorem stmtWithin_comesBack {fuel : Nat} (hcovers : l.Covers c.node)
    (hfuel : c.node.size ≤ fuel) : ComesBack (l.stmtWithin fuel) c := by
  induction fuel generalizing c with
  | zero =>
    have hpos := c.node.size_pos
    omega
  | succ fuel ih =>
    apply stmtWith_comesBack hcovers
    intro d hd hsize
    exact ih hd (by omega)

/-- The walk over a statement comes back. -/
theorem stmt_comesBack (hcovers : l.Covers c.node) : ComesBack l.stmt c :=
  stmtWithin_comesBack hcovers hcovers.size_le

end Lowering
end Offside
