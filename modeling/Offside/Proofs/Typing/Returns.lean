import Offside.Proofs.Ast.Paths
import Offside.Proofs.Typing.SameTypes
import Offside.Proofs.Typing.WellTyped

/-!
# What functions return

The checker keeps one type for what the statements of a body return so far, and in the end asks
whether it is assignable to the return type.  In the two blocks of a conditional the type is
found separately and joined.  A loop is gone through as if it ran for one round: what its body
returns is counted as returned, although the loop may run for no round.  So a path may come to the
end of an accepted function without a return, but only past a loop in which a return stands.

Main definitions:

- `Ty.alternatives`: how many alternatives a type has.
- `Stmt.Tracks`: how a statement changes the type of what is returned.

Main results:

- Theorem `Stmt.ChecksAll.tracks`: the checker tracks what is returned.
- Theorem `Stmt.PathAll.same_before`: past loops without returns, a path without a return leaves
  nothing returned that was not returned before.
- Theorem `checkFunDef_paths`: paths that come to the end of an accepted function.
-/

namespace Offside

open Typing

/-! ## Types of what is returned -/

namespace Ty

variable {ret ty ty' : Ty}

/-- The number of conditionals whose branches disagree that a type tells of. -/
def alternatives : Ty → Nat
  | .either left right => left.alternatives + right.alternatives + 1
  | .list element | .set element | .generator element => element.alternatives
  | _ => 0

/-- Equal types have as many alternatives. -/
theorem alternatives_eq_of_same (h : same ty ty' = true) : ty.alternatives = ty'.alternatives := by
  fun_induction same ty ty' <;> simp_all [alternatives]

/-- Where `None` may not stand, nothing may but what is equal. -/
theorem isAssignable_eq_same (hret : isAssignable .none ret = false) (ty : Ty) :
    ty.isAssignable ret = ty.same ret := by
  cases ret with
  | object | list | generator | none => simp [isAssignable, agrees, same] at hret
  | num | bool | typeVar | set | either => cases ty <;> rfl

/-- What is returned so far has no less alternatives than the return type, unless it is nothing. -/
def Returnable (ret actual : Ty) : Prop :=
  actual = .none ∨ ret.alternatives ≤ actual.alternatives

/-- What equals the return type may be returned. -/
theorem Returnable.of_same (h : same ty ret = true) : Returnable ret ty :=
  .inr (Nat.le_of_eq (alternatives_eq_of_same h).symm)

/-- What two branches that disagree return has at least one alternative more than the return
type. -/
theorem Returnable.lt_either (h : Returnable ret ty) (h' : Returnable ret ty')
    (hdiffer : ¬ same ty ty' = true) : ret.alternatives < (either ty ty').alternatives := by
  rw [alternatives]
  rcases h with rfl | h
  · rcases h' with rfl | h'
    · exact (hdiffer rfl).elim
    · omega
  · omega

/-- Of two types that may be returned, the join may be. -/
theorem Returnable.join (h : Returnable ret ty) (h' : Returnable ret ty') :
    Returnable ret (joinReturns ty ty') := by
  unfold joinReturns
  split
  · exact h'
  · next hdiffer => exact .inr (Nat.le_of_lt (h.lt_either h' hdiffer))

/-- If what two branches return together is the return type, so is what each of them returns. -/
theorem Returnable.same_of_join (h : Returnable ret ty) (h' : Returnable ret ty')
    (hjoin : same (joinReturns ty ty') ret = true) : same ty ret = true ∧ same ty' ret = true := by
  unfold joinReturns at hjoin
  split at hjoin
  · next hagree => exact ⟨same_trans hagree hjoin, hjoin⟩
  · next hdiffer =>
    have hlt := h.lt_either h' hdiffer
    rw [alternatives_eq_of_same hjoin] at hlt
    exact (Nat.lt_irrefl _ hlt).elim

end Ty

/-! ## Tracking -/

section Definitions

variable {α : Type} (ret : Ty)

mutual

/-- `s.Tracks ret before after`: in a function with the return type `ret`, the statement `s` turns
the type of what is returned from `before` to `after`. -/
def Stmt.Tracks : Stmt α → Ty → Ty → Prop
  | .return _ _, _, after => after.isAssignable ret = true
  | .cond _ _ body otherwise, before, after => ∃ ifTrue ifFalse,
    Stmt.TracksAll body before ifTrue ∧ Stmt.TracksAll otherwise .none ifFalse ∧
      after = joinReturns ifTrue ifFalse
  | .while _ _ body, before, after => Stmt.TracksAll body before after
  | .for _ _ _ body otherwise, before, after => ∃ middle,
    Stmt.TracksAll body before middle ∧ Stmt.TracksAll otherwise middle after
  | _, before, after => after = before

/-- So do the statements of a block in order. -/
def Stmt.TracksAll : List (Stmt α) → Ty → Ty → Prop
  | [], before, after => after = before
  | first :: rest, before, after => ∃ middle,
    first.Tracks before middle ∧ Stmt.TracksAll rest middle after

end

end Definitions

mutual

/-- An accepted statement turns the type of what is returned as it says. -/
theorem Stmt.Checks.tracks {ret : Ty} {s : Stmt Location} {context after : Context}
    {s' : Stmt Typed} (h : s.Checks context s' after) (hret : context.locals.expectedRet = ret) :
    s.Tracks ret context.locals.actualRet after.locals.actualRet := by
  match h with
  | .assign .. | .fieldAssign .. | .indexAssign .. | .expr _ | .pass | .continue _ | .break _ =>
    rfl
  | .return _ _ fits => exact hret ▸ fits
  | .cond _ _ onBody onOtherwise =>
    have hbody := onBody.tracks hret
    obtain ⟨_, rfl⟩ := onBody.move
    exact ⟨_, _, hbody, onOtherwise.tracks hret, rfl⟩
  | .while _ _ onBody =>
    have hbody := onBody.tracks hret
    exact hbody
  | .for _ _ _ _ onBody onOtherwise =>
    have hbody := onBody.tracks hret
    obtain ⟨_, rfl⟩ := onBody.move
    exact ⟨_, hbody, onOtherwise.tracks hret⟩

/-- Accepted statements turn the type of what is returned as they say. -/
theorem Stmt.ChecksAll.tracks {ret : Ty} {block : List (Stmt Location)} {context after : Context}
    {block' : List (Stmt Typed)} (h : Stmt.ChecksAll context block block' after)
    (hret : context.locals.expectedRet = ret) :
    Stmt.TracksAll ret block context.locals.actualRet after.locals.actualRet := by
  match h with
  | .nil => rfl
  | .cons onFirst onRest =>
    have hfirst := onFirst.tracks hret
    obtain ⟨_, rfl⟩ := onFirst.move
    exact ⟨_, hfirst, onRest.tracks hret⟩

end

/-! ## Blocks without returns -/

section Tracking

variable {α : Type} {ret : Ty}

/-- A statement that neither jumps nor has statements in it leaves what is returned as it is. -/
theorem Stmt.Tracks.eq_of_isStep {s : Stmt α} {before after : Ty} (h : s.Tracks ret before after)
    (hstep : s.isStep = true) : after = before := by
  cases s <;> first | exact h | nomatch hstep

mutual

/-- What is returned stays returnable. -/
theorem Stmt.Tracks.returnable {s : Stmt α} {before after : Ty}
    (hret : Ty.none.isAssignable ret = false) (h : s.Tracks ret before after)
    (hbefore : Ty.Returnable ret before) : Ty.Returnable ret after := by
  match s, h with
  | .return _ _, h => exact .of_same (Ty.isAssignable_eq_same hret after ▸ h)
  | .cond _ _ _ _, ⟨_, _, onBody, onOtherwise, heq⟩ =>
    rw [heq]
    exact (Stmt.TracksAll.returnable hret onBody hbefore).join
      (Stmt.TracksAll.returnable hret onOtherwise (.inl rfl))
  | .while _ _ _, h => exact Stmt.TracksAll.returnable hret h hbefore
  | .for _ _ _ _ _, ⟨_, onBody, onOtherwise⟩ =>
    exact Stmt.TracksAll.returnable hret onOtherwise
      (Stmt.TracksAll.returnable hret onBody hbefore)
  | .assign .., h | .fieldAssign .., h | .indexAssign .., h | .expr .., h | .pass _, h
  | .continue _, h | .break _, h =>
    obtain rfl : after = before := h
    exact hbefore

/-- What is tracked over statements in a row may be returned. -/
theorem Stmt.TracksAll.returnable {block : List (Stmt α)} {before after : Ty}
    (hret : Ty.none.isAssignable ret = false) (h : Stmt.TracksAll ret block before after)
    (hbefore : Ty.Returnable ret before) : Ty.Returnable ret after := by
  match block, h with
  | [], h =>
    obtain rfl : after = before := h
    exact hbefore
  | _ :: _, ⟨_, onFirst, onRest⟩ =>
    exact Stmt.TracksAll.returnable hret onRest (Stmt.Tracks.returnable hret onFirst hbefore)

end

mutual

/-- Where no return stands, the return type is returned only if it was before. -/
theorem Stmt.Tracks.same_before {s : Stmt α} {before after : Ty}
    (hret : Ty.none.isAssignable ret = false) (h : s.Tracks ret before after)
    (hbefore : Ty.Returnable ret before) (hnone : ¬ HoldsReturn [s])
    (hafter : after.same ret = true) : before.same ret = true := by
  match s, h with
  | .return note value, _ =>
    exact (hnone ⟨note, value, false, .here (List.mem_singleton_self _)⟩).elim
  | .cond note condition body otherwise, ⟨_, _, onBody, onOtherwise, heq⟩ =>
    have hboth := (onBody.returnable hret hbefore).same_of_join
      (onOtherwise.returnable hret (.inl rfl)) (heq ▸ hafter)
    refine onBody.same_before hret hbefore (fun hbody => hnone ?_) hboth.1
    exact hbody.within (.condBody (List.mem_singleton_self _))
  | .while note condition body, h =>
    refine Stmt.TracksAll.same_before hret h hbefore (fun hbody => hnone ?_) hafter
    exact hbody.within (.whileBody (List.mem_singleton_self _))
  | .for note item iterable body otherwise, ⟨middle, onBody, onOtherwise⟩ =>
    have hmiddle : middle.same ret = true := by
      refine onOtherwise.same_before hret (onBody.returnable hret hbefore)
        (fun hotherwise => hnone ?_) hafter
      exact hotherwise.within (.forOtherwise (List.mem_singleton_self _))
    refine onBody.same_before hret hbefore (fun hbody => hnone ?_) hmiddle
    exact hbody.within (.forBody (List.mem_singleton_self _))
  | .assign .., h | .fieldAssign .., h | .indexAssign .., h | .expr .., h | .pass _, h
  | .continue _, h | .break _, h =>
    obtain rfl : after = before := h
    exact hafter

/-- Statements in a row without a return leave what is returned as it was. -/
theorem Stmt.TracksAll.same_before {block : List (Stmt α)} {before after : Ty}
    (hret : Ty.none.isAssignable ret = false) (h : Stmt.TracksAll ret block before after)
    (hbefore : Ty.Returnable ret before) (hnone : ¬ HoldsReturn block)
    (hafter : after.same ret = true) : before.same ret = true := by
  match block, h with
  | [], h =>
    obtain rfl : after = before := h
    exact hafter
  | first :: rest, ⟨middle, onFirst, onRest⟩ =>
    have hmiddle : middle.same ret = true := by
      refine onRest.same_before hret (onFirst.returnable hret hbefore)
        (fun hrest => hnone ?_) hafter
      exact hrest.within (.mono (List.subset_cons_self first rest))
    refine onFirst.same_before hret hbefore (fun hfirst => hnone ?_) hmiddle
    exact hfirst.within (.mono (by simp))

end

/-! ## Paths without returns -/

mutual

/-- On a path through a statement that leaves no returns behind, the return type is returned only
if it was before. -/
theorem Stmt.Path.same_before {s : Stmt α} {left : List (List (Stmt α))} {exit : Exit}
    {before after : Ty} (hret : Ty.none.isAssignable ret = false) (hpath : s.Path left exit)
    (hexit : exit = .through) (hleft : ∀ block ∈ left, ¬ HoldsReturn block)
    (h : s.Tracks ret before after) (hbefore : Ty.Returnable ret before)
    (hafter : after.same ret = true) : before.same ret = true := by
  match hpath, h with
  | .step isStep, h =>
    exact h.eq_of_isStep isStep ▸ hafter
  | .condBody onBody, ⟨_, _, hbody, hotherwise, heq⟩ =>
    have hreturns := (hbody.returnable hret hbefore).same_of_join
      (hotherwise.returnable hret (.inl rfl)) (heq ▸ hafter)
    exact onBody.same_before hret hexit hleft hbody hbefore hreturns.1
  | .condOtherwise onOtherwise, ⟨_, _, hbody, hotherwise, heq⟩ =>
    have hreturns := (hbody.returnable hret hbefore).same_of_join
      (hotherwise.returnable hret (.inl rfl)) (heq ▸ hafter)
    have hnone := onOtherwise.same_before hret hexit hleft hotherwise (.inl rfl) hreturns.2
    rw [← Ty.isAssignable_eq_same hret, hret] at hnone
    nomatch hnone
  | .while _ _, h =>
    exact Stmt.TracksAll.same_before hret h hbefore (hleft _ (List.mem_singleton_self _)) hafter
  | .for _ _ onOtherwise, ⟨_, hbody, hotherwise⟩ =>
    rw [List.forall_mem_cons] at hleft
    have hmiddle := onOtherwise.same_before hret hexit hleft.2 hotherwise
      (hbody.returnable hret hbefore) hafter
    exact hbody.same_before hret hbefore hleft.1 hmiddle
  | .forBreak _, ⟨_, hbody, hotherwise⟩ =>
    have hmiddle := hotherwise.same_before hret (hbody.returnable hret hbefore)
      (hleft _ (by simp)) hafter
    exact hbody.same_before hret hbefore (hleft _ (by simp)) hmiddle
  | .return, _ | .break, _ | .continue, _ | .whileReturn _, _ | .forReturn _, _ => nomatch hexit

/-- So does a path through statements in a row. -/
theorem Stmt.PathAll.same_before {block : List (Stmt α)} {left : List (List (Stmt α))} {exit : Exit}
    {before after : Ty} (hret : Ty.none.isAssignable ret = false)
    (hpath : Stmt.PathAll block left exit) (hexit : exit = .through)
    (hleft : ∀ block ∈ left, ¬ HoldsReturn block) (h : Stmt.TracksAll ret block before after)
    (hbefore : Ty.Returnable ret before) (hafter : after.same ret = true) :
    before.same ret = true := by
  match hpath, h with
  | .nil, h =>
    obtain rfl : after = before := h
    exact hafter
  | .leave _ jumps, _ => exact (jumps hexit).elim
  | .next onFirst onRest, ⟨_, hfirst, hrest⟩ =>
    rw [List.forall_mem_append] at hleft
    have hmiddle := onRest.same_before hret hexit hleft.2 hrest (hfirst.returnable hret hbefore)
      hafter
    exact onFirst.same_before hret rfl hleft.1 hfirst hbefore hmiddle

end

end Tracking

/-! ## Functions -/

/-- In an accepted function that may not return `None`, a path that comes to the end of the body
without a return leaves a loop in which a return stands: it has come to the end of a loop with a
return in its body, or has broken one with a return in the block behind.  Whether there is such a
path can be computed. -/
theorem checkFunDef_paths {checker after : Checker} {fn : FunDef Location} {fn' : FunDef Typed}
    (h : outcome (checkFunDef fn) checker = (.ok fn', after))
    (hret : Ty.none.isAssignable fn.ret = false) :
    (∀ left, Stmt.PathAll fn.body left .through → ∃ block ∈ left, HoldsReturn block) ∧
      ((∃ left, Stmt.PathAll fn.body left .through) ↔
        Stmt.mayExitAll fn.body .through = true) := by
  refine ⟨fun left hpath => ?_, Stmt.exists_pathAll_iff fn.body .through⟩
  obtain ⟨-, ⟨last, hblock, hlast⟩, -⟩ := checkFunDef_eq_ok h
  have htracks := (checkBlock_eq_ok.mp hblock).tracks rfl
  obtain ⟨_, rfl⟩ := (checkBlock_handsOut fn.body).moves_of_ok hblock
  by_contra hclean
  have hfits := (Ty.isAssignable_eq_same hret _).symm.trans hlast
  have hstart := hpath.same_before hret rfl (fun block hmem hholds => hclean ⟨block, hmem, hholds⟩)
    htracks (.inl rfl) hfits
  rw [← Ty.isAssignable_eq_same hret] at hstart
  exact Bool.false_ne_true (hret.symm.trans hstart)

/-- A function that returns a number in both branches of a conditional, behind a loop. -/
def returnsInBranches : FunDef Location :=
  let here : Location := ⟨1, 1, ""⟩
  let number (value : Int) : Stmt Location := .return here (.literal here ⟨here, .num value⟩)
  let yes : Expr Location := .literal here ⟨here, .bool true⟩
  ⟨here, "f", [], .num, [], [.while here yes [.cond here yes [.break here] []],
    .cond here yes [number 1] [number 2]]⟩

theorem checkFunDef_paths_branches :
    ∃ fn' after,
      outcome (checkFunDef returnsInBranches) (.new .builtins) = (.ok fn', after) ∧
      Ty.none.isAssignable returnsInBranches.ret = false ∧
      ¬ ∃ left, Stmt.PathAll returnsInBranches.body left .through := by
  have hok : outcome (checkFunDef returnsInBranches) (.new .builtins) = (.ok _, _) := rfl
  have hexact := (checkFunDef_paths hok rfl).2
  exact ⟨_, _, hok, rfl, fun hpath => Bool.false_ne_true (hexact.mp hpath)⟩

/-- A function that is to return a number, and returns one in a loop alone. -/
def returnInLoop : Source :=
  "def f(b: bool) -> int:\n    while b:\n        return 1\n".toList

/-- It is accepted, and when its loop runs for no round, the end of its body is reached. -/
theorem checkFunDef_paths_noRound :
    ∃ program fn fn' after, parseProgram returnInLoop = .ok program ∧ program.funs = [fn] ∧
      outcome (checkFunDef fn) ⟨Env.builtins.augment program, []⟩ = (.ok fn', after) ∧
      Ty.none.isAssignable fn.ret = false ∧
      ∃ left, Stmt.PathAll fn.body left .through := by
  have hrun : (parseProgram returnInLoop).toOption.any (fun program =>
      program.funs.length = 1 && program.funs.all fun fn =>
        (outcome (checkFunDef fn) ⟨Env.builtins.augment program, []⟩).1.isOk &&
          !Ty.none.isAssignable fn.ret && Stmt.mayExitAll fn.body .through) = true := by
    decide +kernel
  cases hparse : parseProgram returnInLoop with
  | error failure =>
    rw [hparse] at hrun
    exact (Bool.false_ne_true hrun).elim
  | ok program =>
    rw [hparse] at hrun
    dsimp only [Except.toOption, Option.any] at hrun
    simp only [Bool.and_eq_true, decide_eq_true_eq, List.all_eq_true, Bool.not_eq_true'] at hrun
    obtain ⟨hlength, hall⟩ := hrun
    obtain ⟨fn, hfuns⟩ := List.length_eq_one_iff.mp hlength
    obtain ⟨⟨hok, hret⟩, hpath⟩ := hall fn (hfuns ▸ List.mem_singleton_self fn)
    rcases hcheck : outcome (checkFunDef fn) ⟨Env.builtins.augment program, []⟩ with
      ⟨diagnostic | fn', after⟩
    · rw [hcheck] at hok
      exact (Bool.false_ne_true hok).elim
    · exact ⟨program, fn, fn', after, rfl, hfuns, hcheck, hret,
        Stmt.exists_pathAll fn.body hpath⟩

end Offside
