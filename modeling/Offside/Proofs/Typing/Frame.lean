import Offside.Proofs.Typing.Sessions

/-!
# What a check leaves alone

A check enters loops and scopes of comprehension items on its way, and may be refused inside
any of them.  This module says that each of them is left again: behind an expression the
body is as it was before, and behind statements it differs in nothing but what they return.
Names for comprehension items are handed out, and none is taken back.

Main definitions:

- `NoneTakenBack`: counters that tell of at least the uses that others tell of.
- `ExprFrame` and `BodyFrame`: what expressions and statements leave alone.

Main results:

- Theorem `checks_frame`: what is left alone by every check, accepted or refused.
-/

namespace Offside
namespace Typing

/-- Every name that counters tell of, later counters tell of too. -/
def NoneTakenBack (before after : Table Nat) : Prop := ∀ item, used before item ≤ used after item

namespace NoneTakenBack

/-- Where nothing happens, no name is taken back. -/
theorem refl (counters : Table Nat) : NoneTakenBack counters counters := fun _ => Nat.le_refl _

/-- Neither is one in two steps that take none back. -/
theorem trans {first middle last : Table Nat} (h : NoneTakenBack first middle)
    (h' : NoneTakenBack middle last) : NoneTakenBack first last :=
  fun item => Nat.le_trans (h item) (h' item)

/-- Handing out names takes none back. -/
theorem countAll (counters : Table Nat) (items : List String) :
    NoneTakenBack counters (countAll counters items) := by
  intro item
  rw [used_countAll]
  exact Nat.le_add_right _ _

end NoneTakenBack

/-- Between two contexts, names may have been handed out, and nothing else has happened. -/
structure ExprFrame (before after : Context) : Prop where
  env : after.checker.env = before.checker.env
  locals : after.locals = before.locals
  counters : NoneTakenBack before.checker.counters after.checker.counters

/-- Between two contexts, names may have been handed out and statements may have returned
something, and nothing else has happened. -/
structure BodyFrame (before after : Context) : Prop where
  env : after.checker.env = before.checker.env
  vars : after.locals.vars = before.locals.vars
  expectedRet : after.locals.expectedRet = before.locals.expectedRet
  topLevel : after.locals.topLevel = before.locals.topLevel
  loopDepth : after.locals.loopDepth = before.locals.loopDepth
  scopes : after.locals.scopes = before.locals.scopes
  counters : NoneTakenBack before.checker.counters after.checker.counters

/-- Handing out names is within the frame of expressions. -/
theorem ExprMove.frame {items : List String} {before after : Context}
    (h : ExprMove items before after) : ExprFrame before after := by
  subst h
  exact ⟨rfl, rfl, .countAll _ items⟩

/-- What statements do is within their frame. -/
theorem BodyMove.frame {items : List String} {before after : Context}
    (h : BodyMove items before after) : BodyFrame before after := by
  obtain ⟨ret, rfl⟩ := h
  exact ⟨rfl, rfl, rfl, rfl, rfl, rfl, .countAll _ items⟩

/-- A check whose moves stay within a frame stays within it, wherever it stops. -/
theorem HandsOut.within {σ α : Type} {moves : List String → σ → σ → Prop} {items : List String}
    {check : ExceptT Diagnostic (StateM σ) α} {frame : σ → σ → Prop}
    (h : HandsOut moves items check)
    (hmoves : ∀ handed before after, moves handed before after → frame before after)
    (state : σ) : frame state (outcome check state).2 := by
  obtain ⟨handed, -, hmove, -⟩ := h state
  exact hmoves handed state _ hmove

/-- The check of an expression keeps to the frame of expressions. -/
theorem checkExpr_frame (e : Expr Location) (context : Context) :
    ExprFrame context (outcome (checkExpr e) context).2 :=
  (checkExpr_handsOut e).within (fun _ _ _ => ExprMove.frame) context

/-- So does the check of expressions in a row. -/
theorem checkExprs_frame (es : List (Expr Location)) (context : Context) :
    ExprFrame context (outcome (checkExprs es) context).2 :=
  (checkExprs_handsOut es).within (fun _ _ _ => ExprMove.frame) context

/-- The check of a statement keeps to the frame of bodies. -/
theorem checkStmt_frame (s : Stmt Location) (context : Context) :
    BodyFrame context (outcome (checkStmt s) context).2 :=
  (checkStmt_handsOut s).within (fun _ _ _ => BodyMove.frame) context

/-- So does the check of statements in a row. -/
theorem checkBlock_frame (block : List (Stmt Location)) (context : Context) :
    BodyFrame context (outcome (checkBlock block) context).2 :=
  (checkBlock_handsOut block).within (fun _ _ _ => BodyMove.frame) context

/-- A program takes no name back, whether it is accepted or refused. -/
theorem check_noneTakenBack (checker : Checker) (program : Program Location) :
    NoneTakenBack checker.counters (checker.check program).2.counters := by
  obtain ⟨handed, -, hcounters, -⟩ := check_footprint checker program
  rw [hcounters]
  exact .countAll _ handed

/-- Nor do several programs. -/
theorem session_noneTakenBack (checker : Checker) (programs : List (Program Location)) :
    NoneTakenBack checker.counters (checker.session programs).2.counters := by
  induction programs generalizing checker with
  | nil => exact .refl _
  | cons program rest ih =>
    rw [Checker.session_cons]
    exact (check_noneTakenBack checker program).trans (ih _)

/-- Whether it is accepted or refused, and however deep inside: an expression leaves the
state of the body and the environment as they are; a statement leaves the environment as it
is, and of the state of the body all but what the statements so far return; a row of
either does what one of them may; and no check of an expression, of statements or of whole
programs takes back a name for a comprehension item. -/
theorem checks_frame :
    (∀ e context, ExprFrame context (outcome (checkExpr e) context).2) ∧
      (∀ es context, ExprFrame context (outcome (checkExprs es) context).2) ∧
      (∀ s context, BodyFrame context (outcome (checkStmt s) context).2) ∧
      (∀ block context, BodyFrame context (outcome (checkBlock block) context).2) ∧
      (∀ checker program,
        NoneTakenBack checker.counters (Checker.check checker program).2.counters) ∧
      (∀ checker programs,
        NoneTakenBack checker.counters (Checker.session checker programs).2.counters) :=
  ⟨checkExpr_frame, checkExprs_frame, checkStmt_frame, checkBlock_frame, check_noneTakenBack,
    session_noneTakenBack⟩

end Typing
end Offside
