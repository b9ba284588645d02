import Offside.Proofs.Typing.Footprint

/-!
# Sessions

A checker checks programs one after another, and some of them it refuses.  This module says
what environment a whole session leaves behind: the one of the accepted programs.

Main definitions:

- `Checker.session`: a checker at work on several programs.
- `accepted`: the programs of a session that were accepted.
- `Keeps`: a check that leaves something of the state as it is.

Main results:

- Theorem `session_env`: the environment throughout a session.
-/

namespace Offside

open Typing

/-- The verdict on a program. -/
abbrev ProgramVerdict := Except Diagnostic (Program Typed)

/-- The verdicts of a checker on programs, one after another, and the checker after the
last. -/
def Checker.session : Checker → List (Program Location) → List ProgramVerdict × Checker
  | checker, [] => ([], checker)
  | checker, program :: rest =>
    let (verdict, after) := checker.check program
    let (verdicts, last) := after.session rest
    (verdict :: verdicts, last)

/-- The programs that were accepted. -/
def accepted (programs : List (Program Location)) (verdicts : List ProgramVerdict) :
    List (Program Location) :=
  ((programs.zip verdicts).filter fun entry => entry.2.isOk).map Prod.fst

/-- The checked programs among the verdicts. -/
def checkedPrograms (verdicts : List ProgramVerdict) : List (Program Typed) :=
  verdicts.filterMap Except.toOption

namespace Checker

/-- A session without programs leaves the checker as it is. -/
@[simp]
theorem session_nil (checker : Checker) : checker.session [] = ([], checker) := rfl

/-- The programs of a session are checked one after the other. -/
@[simp]
theorem session_cons (checker : Checker) (program : Program Location)
    (rest : List (Program Location)) :
    checker.session (program :: rest) =
      ((checker.check program).1 :: ((checker.check program).2.session rest).1,
        ((checker.check program).2.session rest).2) := rfl

end Checker

/-! ## The environment -/

/-- After one program the environment has its declarations if it is accepted, and else is
what it was. -/
theorem check_env (checker : Checker) (program : Program Location) :
    (checker.check program).2.env =
      if (checker.check program).1.isOk then checker.env.augment program else checker.env := by
  obtain ⟨_, -, -, ⟨⟨typed, hok⟩, -, henv⟩ | ⟨⟨diagnostic, herror⟩, henv⟩⟩ :=
    check_footprint checker program
  · rw [hok, henv]
    rfl
  · rw [herror, henv]
    rfl

/-- Whatever has been accepted before, what is accepted later is added to it. -/
theorem foldl_augment_session (checker : Checker) (programs : List (Program Location)) :
    (checker.session programs).2.env =
      (accepted programs (checker.session programs).1).foldl Env.augment checker.env := by
  induction programs generalizing checker with
  | nil => rfl
  | cons program rest ih =>
    rw [Checker.session_cons]
    rw [ih, check_env]
    rcases hverdict : (checker.check program).1 with diagnostic | typed
    · rfl
    · rfl

/-- A check leaves a part of the state as it is, whether it succeeds or refuses. -/
def Keeps {σ τ α : Type} (part : σ → τ) (check : ExceptT Diagnostic (StateM σ) α) : Prop :=
  ∀ state, part (outcome check state).2 = part state

/-- What no move changes, a check keeps. -/
theorem Typing.HandsOut.keeps {σ τ α : Type} {moves : List String → σ → σ → Prop}
    {items : List String} {check : ExceptT Diagnostic (StateM σ) α} {part : σ → τ}
    (h : HandsOut moves items check)
    (hpart : ∀ handed before after, moves handed before after → part after = part before) :
    Keeps part check := by
  intro state
  rcases h state with ⟨handed, -, hmove, -⟩
  exact hpart handed state _ hmove

/-- The check of an expression leaves the environment as it is. -/
theorem checkExpr_keeps_env (e : Expr Location) : Keeps (·.checker.env) (checkExpr e) := by
  refine (checkExpr_handsOut e).keeps ?_
  rintro handed before after rfl
  rfl

/-- So does the check of statements in a row. -/
theorem checkBlock_keeps_env (block : List (Stmt Location)) :
    Keeps (·.checker.env) (checkBlock block) := by
  refine (checkBlock_handsOut block).keeps ?_
  rintro handed before after ⟨ret, rfl⟩
  rfl

/-- So does the check of a statement. -/
theorem checkStmt_keeps_env (s : Stmt Location) : Keeps (·.checker.env) (checkStmt s) := by
  refine (checkStmt_handsOut s).keeps ?_
  rintro handed before after ⟨ret, rfl⟩
  rfl

/-- Checks that hand out names in a module keep its environment. -/
theorem Typing.HandsOut.keeps_env {α : Type} {items : List String} {check : ModuleCheck α}
    (h : HandsOut ModuleMove items check) : Keeps Checker.env check := by
  refine h.keeps ?_
  rintro handed before after rfl
  rfl

/-- After any programs the environment is the starting one with the declarations of exactly
the accepted programs added in order; the next program adds its own if it is accepted, and
else changes nothing; and no statement, expression, function, class or top level changes the
environment it is checked in, whether it is accepted or not. -/
theorem session_env (checker : Checker) (programs : List (Program Location)) :
    (checker.session programs).2.env =
        (accepted programs (checker.session programs).1).foldl Env.augment checker.env ∧
      (∀ next, let here := (checker.session programs).2
        (here.check next).2.env =
          if (here.check next).1.isOk then here.env.augment next else here.env) ∧
      (∀ e, Keeps (·.checker.env) (checkExpr e)) ∧
      (∀ s, Keeps (·.checker.env) (checkStmt s)) ∧
      (∀ block, Keeps (·.checker.env) (checkBlock block)) ∧
      (∀ fn, Keeps Checker.env (checkFunDef fn)) ∧
      (∀ cls, Keeps Checker.env (checkClassDef cls)) ∧
      (∀ stmts, Keeps Checker.env (checkTop stmts)) := by
  refine ⟨foldl_augment_session checker programs, fun next => check_env _ next,
    checkExpr_keeps_env, checkStmt_keeps_env, checkBlock_keeps_env, ?_, ?_, ?_⟩
  · intro fn
    exact (checkFunDef_handsOut fn).keeps_env
  · intro cls
    exact (checkClassDef_handsOut cls).keeps_env
  · intro stmts
    exact (checkTop_handsOut stmts).keeps_env

end Offside
