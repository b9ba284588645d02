import Offside.Proofs.Lowering.ExpressionWalks

/-!
# Types and expressions without a limit

The walks over types and expressions count how deep they are inside one another, and give up at
the limit of the lowering.  A walk that may go deeper does the same as one that may not, unless the
latter gives up; and no walk gives up at a node that the lowering covers.  There, the walks over
types and expressions are over parts of their own kind, whatever the limit is.

Main definitions:

- `Walk.Below`: a walk gives up, or does the same as another one.

Main results:

- Theorem `ty_unfold`: a type is a type over types.
- Theorem `expr_unfold`: an expression is an expression over expressions.
-/

namespace Offside
namespace Walk

variable {α β : Type}

/-- Wherever they start, the first walk gives up, or does the same as the second. -/
def Below (walk walk' : Walk α) : Prop :=
  ∀ c, walk c = .error .unfinished ∨ walk c = walk' c

namespace Below

variable {walk walk' : Walk α} {next next' : α → Walk β}

/-- A walk is below itself. -/
theorem refl (walk : Walk α) : Below walk walk := fun _ => .inr rfl

/-- What has given up at once is below all others. -/
theorem unfinished (walk : Walk α) : Below (throw .unfinished) walk := fun _ => .inl rfl

/-- Walks in a row are below others in a row, if each one is below its own. -/
theorem bind (h : Below walk walk') (hnext : ∀ value, Below (next value) (next' value)) :
    Below (walk >>= next) (walk' >>= next') := by
  intro c
  change (walk c).bind (fun entry => next entry.1 entry.2) = _ ∨
    (walk c).bind (fun entry => next entry.1 entry.2) =
      (walk' c).bind fun entry => next' entry.1 entry.2
  rcases h c with hgives | hsame
  · rw [hgives]
    exact .inl rfl
  · rw [← hsame]
    cases walk c with
    | error failure => exact .inr rfl
    | ok entry => exact hnext entry.1 entry.2

/-- Walks that begin with the same walk. -/
theorem after (walk : Walk α) (hnext : ∀ value, Below (next value) (next' value)) :
    Below (walk >>= next) (walk >>= next') := (refl walk).bind hnext

/-- So is a choice between two walks. -/
theorem ite {test : Prop} [Decidable test] {other other' : Walk α} (h : Below walk walk')
    (hother : Below other other') :
    Below (if test then walk else other) (if test then walk' else other') := by
  split
  · exact h
  · exact hother

/-- The value of one walk, in a row. -/
theorem single (h : Below walk walk') : Below (do return [← walk]) (do return [← walk']) :=
  h.bind fun _ => refl _

/-- A walk that ends has not given up. -/
theorem eq_of_terminates {c : Cursor} {post : α → Cursor → Prop} (h : Below walk walk')
    (hends : Terminates walk c post) : walk c = walk' c := by
  rcases h c with hgives | hsame
  · exact absurd rfl (Meets.of_error hends hgives)
  · exact hsame

end Below

/-- So is a repetition, with the same limit for both. -/
theorem collect_below (stop : Walk Bool) {item item' : Walk (List α)} (h : Below item item')
    (limit : Nat) : Below (collect stop item limit) (collect stop item' limit) := by
  induction limit with
  | zero => exact .refl _
  | succ limit ih =>
    refine .after _ fun _ => .ite (.after _ fun _ => .ite (.refl _) ?_) (.refl _)
    exact h.bind fun _ => ih.bind fun _ => .refl _

end Walk

namespace Lowering

open Walk

variable {l : Lowering} {c : Cursor}

/-- So is a list up to a closing bracket. -/
theorem listUntil_below {α : Type} (closing : String) {item item' : Walk (List α)}
    (h : Below item item') : Below (l.listUntil closing item) (l.listUntil closing item') :=
  collect_below _ (.after _ fun _ => .ite (.refl _) h) l.limit

/-! ## Types -/

/-- A type is below one whose inner types may go deeper. -/
theorem tyWith_below {inner inner' : Walk Ty} (h : Below inner inner') :
    Below (l.tyWith inner) (l.tyWith inner') := by
  refine .after _ fun kind => ?_
  split
  · exact .refl _
  · exact .refl _
  · refine .after _ fun invalid => .after _ fun _ => .after _ fun entered => .ite (.refl _) ?_
    refine .after _ fun isClosing => .ite (.refl _) ?_
    exact h.bind fun _ => .refl _
  · refine .after _ fun invalid => .after _ fun _ => .after _ fun name => .after _ fun opened => ?_
    exact .ite ((listUntil_below "]" h.single).bind fun _ => .refl _) (.refl _)
  · exact .refl _

/-- A type within a limit is below the one within the next limit. -/
theorem tyWithin_below (fuel : Nat) : Below (l.tyWithin fuel) (l.tyWithin (fuel + 1)) := by
  induction fuel with
  | zero => exact .unfinished _
  | succ fuel ih => exact tyWith_below ih

/-- A type is a type over types. -/
theorem ty_unfold (hcovers : l.Covers c.node) : l.ty c = l.tyWith l.ty c :=
  (tyWithin_below l.limit).eq_of_terminates (ty_comesBack hcovers)

/-! ## Expressions -/

section Parts

variable {inner inner' : Walk (Expr Location)}

/-- Arguments are below those that may go deeper. -/
theorem argumentsWith_below (h : Below inner inner') :
    Below (l.argumentsWith inner) (l.argumentsWith inner') :=
  .after _ fun _ => .ite ((listUntil_below ")" h.single).bind fun _ => .refl _) (.refl _)

/-- So are calls. -/
theorem call_below (h : Below inner inner') : Below (l.call inner) (l.call inner') := by
  refine .after _ fun a => .after _ fun _ => .after _ fun generic => ?_
  cases generic with
  | some generic => exact .after _ fun _ => (argumentsWith_below h).bind fun _ => .refl _
  | none =>
    refine h.bind fun callee => .after _ fun calleeText => ?_
    split
    · exact .refl _
    · exact .after _ fun _ => (argumentsWith_below h).bind fun _ => .refl _

/-- So are the elements of lists. -/
theorem elements_below (h : Below inner inner') (limit : Nat) :
    Below (l.elements inner limit) (l.elements inner' limit) := by
  induction limit with
  | zero => exact .refl _
  | succ limit ih =>
    refine .after _ fun _ => .ite (.after _ fun _ => .ite (.refl _) ?_) (.refl _)
    refine .after _ fun _ => .ite (.refl _) (h.bind fun first => ?_)
    refine .after _ fun _ => .ite (.after _ fun _ => .ite (.refl _) ?_) (.refl _)
    exact .after _ fun _ => .ite (ih.bind fun _ => .refl _) (.refl _)

/-- So are lists. -/
theorem list_below (h : Below inner inner') : Below (l.list inner) (l.list inner') :=
  .after _ fun _ => .after _ fun _ => (elements_below h l.limit).bind fun _ => .refl _

/-- So is what is inside of the brackets of an index. -/
theorem indexParts_below (h : Below inner inner') (limit : Nat) (parts : IndexParts) :
    Below (l.indexParts inner limit parts) (l.indexParts inner' limit parts) := by
  induction limit generalizing parts with
  | zero => exact .refl _
  | succ limit ih =>
    refine .after _ fun _ => .ite (.after _ fun _ => .ite (.refl _) ?_) (.refl _)
    refine .after _ fun _ => .ite (ih _) (.after _ fun _ => .ite (ih _) ?_)
    exact .ite (h.bind fun _ => ih _) (ih _)

/-- So are members. -/
theorem member_below (h : Below inner inner') (a : Location) :
    Below (l.member inner a) (l.member inner' a) := by
  refine .after _ fun _ => h.bind fun object => .after _ fun _ => ?_
  refine .after _ fun _ => .ite (.refl _) (.after _ fun _ => .ite ?_ (.refl _))
  exact (indexParts_below h l.limit {}).bind fun _ => .refl _

/-- So are the ends of comprehensions. -/
theorem comprehensionEnd_below (h : Below inner inner') :
    Below (l.comprehensionEnd inner) (l.comprehensionEnd inner') := by
  refine .after _ fun _ => .ite (.after _ fun _ => .ite ?_ (.refl _)) (.refl _)
  exact .after _ fun _ => h.bind fun _ => .refl _

/-- So are comprehensions. -/
theorem comprehension_below (h : Below inner inner') (a : Location) :
    Below (l.comprehension inner a) (l.comprehension inner' a) := by
  refine .after _ fun _ => .after _ fun opening => .after _ fun _ => h.bind fun result => ?_
  refine .after _ fun _ => .after _ fun _ => .after _ fun item => ?_
  refine .after _ fun _ => .after _ fun _ => h.bind fun iterable => ?_
  exact (comprehensionEnd_below h).bind fun _ => .refl _

/-- So are expressions in parentheses. -/
theorem parenthesized_below (h : Below inner inner') (a : Location) :
    Below (l.parenthesized inner a) (l.parenthesized inner' a) :=
  .after _ fun _ => .after _ fun _ => h.bind fun _ => .refl _

/-- So are binary operations. -/
theorem binary_below (h : Below inner inner') (a : Location) :
    Below (l.binary inner a) (l.binary inner' a) := by
  refine .after _ fun _ => h.bind fun left => .after _ fun _ => .after _ fun text => ?_
  split
  · exact .after _ fun _ => h.bind fun _ => .refl _
  · exact .refl _

/-- So are unary operations. -/
theorem unary_below (h : Below inner inner') (a : Location) :
    Below (l.unary inner a) (l.unary inner' a) := by
  refine .after _ fun _ => .after _ fun text => ?_
  split
  · exact .after _ fun _ => h.bind fun _ => .refl _
  · exact .refl _

/-- So are conditional expressions. -/
theorem conditional_below (h : Below inner inner') (a : Location) :
    Below (conditional inner a) (conditional inner' a) := by
  refine .after _ fun _ => h.bind fun ifTrue => .after _ fun _ => .after _ fun _ => ?_
  refine h.bind fun condition => .after _ fun _ => .after _ fun _ => ?_
  exact h.bind fun ifFalse => .refl _

/-- An expression is below one whose inner expressions may go deeper. -/
theorem exprWith_below (h : Below inner inner') :
    Below (l.exprWith inner) (l.exprWith inner') := by
  refine .after _ fun a => .after _ fun kind => ?_
  split
  · exact .refl _
  · exact .refl _
  · exact .refl _
  · exact .refl _
  · exact call_below h
  · exact list_below h
  · exact binary_below h a
  · exact unary_below h a
  · exact parenthesized_below h a
  · exact member_below h a
  · exact conditional_below h a
  · exact comprehension_below h a
  · exact comprehension_below h a
  · exact comprehension_below h a
  · exact .refl _

end Parts

/-- An expression within a limit is below the one within the next limit. -/
theorem exprWithin_below (fuel : Nat) :
    Below (l.exprWithin fuel) (l.exprWithin (fuel + 1)) := by
  induction fuel with
  | zero => exact .unfinished _
  | succ fuel ih => exact exprWith_below ih

/-- An expression is an expression over expressions. -/
theorem expr_unfold (hcovers : l.Covers c.node) : l.expr c = l.exprWith l.expr c :=
  (exprWithin_below l.limit).eq_of_terminates (expr_comesBack hcovers)

end Lowering
end Offside
