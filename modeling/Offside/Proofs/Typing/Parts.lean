import Offside.Proofs.Typing.Parallel
import Mathlib.Data.List.Perm.Basic

/-!
# Programs part by part

A program is checked declaration by declaration and statement by statement, by one checker that
goes from part to part.  No part sees anything of the others but their declarations: the verdict
on a program is put together from those on its parts, each checked on its own.

Main definitions:

- `Part` and `Program.parts`: the variables, functions, classes and top-level statements of a
  program.
- `checkPart` and `verdictAlone`: the check of a part on its own.

Main results:

- Theorem `checkStmt_atTop`: a top-level statement leaves the state of the top level as it is.
- Theorem `checkParts_agrees`: the verdict on a program against those on its parts.
- Theorem `check_decomposes`: parts, other counters and another order of functions.
-/

namespace Offside

/-- A part of a program that is checked as one. -/
inductive Part (α : Type) where
  | init (value : VarInit α)
  | fun (value : FunDef α)
  | cls (value : ClassDef α)
  | stmt (value : Stmt α)

/-- The parts of a program, in the order in which they are checked. -/
def Program.parts {α : Type} (program : Program α) : List (Part α) :=
  program.inits.map .init ++ (program.funs.map .fun ++
    (program.classes.map .cls ++ program.stmts.map .stmt))

/-- The parts are the same but for notes and the names of items. -/
inductive Part.Matches {α β : Type} (m : Matching α β) : Part α → Part β → Prop where
  | init {value : VarInit α} {value' : VarInit β} (h : value.Matches m value') :
      Matches m (.init value) (.init value')
  | fun {value : FunDef α} {value' : FunDef β} (h : value.Matches m value') :
      Matches m (.fun value) (.fun value')
  | cls {value : ClassDef α} {value' : ClassDef β} (h : value.Matches m value') :
      Matches m (.cls value) (.cls value')
  | stmt {value : Stmt α} {value' : Stmt β} (h : value.Matches m value') :
      Matches m (.stmt value) (.stmt value')

namespace Typing

variable {σ α β γ : Type}

/-- Checks a part on its own; a statement starts with the state of the top level. -/
def checkPart : Part Location → ModuleCheck (Part Typed)
  | .init value => do return .init (← liftM (checkInit value))
  | .fun value => do return .fun (← checkFunDef value)
  | .cls value => do return .cls (← checkClassDef value)
  | .stmt value => do return .stmt (← inBody .top (checkStmt value))

/-- The verdict on a part on its own, in an environment, by a checker with the given
counters. -/
def verdictAlone (env : Env) (counters : Table Nat) (part : Part Location) :
    Except Diagnostic (Part Typed) :=
  (outcome (checkPart part) ⟨env, counters⟩).1

end Typing

/-! ## The state of the top level -/

section Top

open Typing

mutual

/-- A statement of the top level returns nothing. -/
theorem Stmt.Checks.actualRet {s : Stmt Location} {context after : Context} {s' : Stmt Typed}
    (h : s.Checks context s' after) (htop : context.locals.topLevel = true)
    (hret : context.locals.actualRet = .none) : after.locals.actualRet = .none := by
  match h with
  | .assign .. | .fieldAssign .. | .indexAssign .. | .expr _ | .pass | .continue _ | .break _ =>
    exact hret
  | .return inFunction _ _ => nomatch htop.symm.trans inFunction
  | .cond _ _ onBody onOtherwise =>
    have hbody := onBody.actualRet htop hret
    obtain ⟨ret, rfl⟩ := onBody.move
    obtain rfl : ret = .none := hbody
    change joinReturns .none _ = .none
    rw [onOtherwise.actualRet htop rfl]
    rfl
  | .while _ _ onBody =>
    have hbody := onBody.actualRet htop hret
    exact hbody
  | .for _ _ _ _ onBody onOtherwise =>
    have hbody := onBody.actualRet htop hret
    obtain ⟨_, rfl⟩ := onBody.move
    exact onOtherwise.actualRet htop hbody

/-- Statements of the top level return nothing. -/
theorem Stmt.ChecksAll.actualRet {block : List (Stmt Location)} {context after : Context}
    {block' : List (Stmt Typed)} (h : Stmt.ChecksAll context block block' after)
    (htop : context.locals.topLevel = true) (hret : context.locals.actualRet = .none) :
    after.locals.actualRet = .none := by
  match h with
  | .nil => exact hret
  | .cons onFirst onRest =>
    have hfirst := onFirst.actualRet htop hret
    obtain ⟨_, rfl⟩ := onFirst.move
    exact onRest.actualRet htop hfirst

end

end Top

namespace Typing

section Top

open Check

/-- A statement of the top level leaves environment and body as they are. -/
theorem checkStmt_atTop {s : Stmt Location} {context after : Context} {s' : Stmt Typed}
    (h : outcome (checkStmt s) context = (.ok s', after)) (htop : context.locals = .top) :
    after.checker.env = context.checker.env ∧ after.locals = .top := by
  have hchecks := checkStmt_eq_ok.mp h
  have hret : after.locals.actualRet = .none :=
    hchecks.actualRet (by rw [htop]; rfl) (by rw [htop]; rfl)
  obtain ⟨ret, rfl⟩ := hchecks.move
  cases hret
  exact ⟨rfl, congrArg (fun locals : Locals => { locals with actualRet := .none }) htop⟩

end Top

/-! ## Checks in a row -/

variable {δ : Type} {rel : α → β → Prop} {rel' : γ → δ → Prop}

/-- A check that goes on from a first one agrees with a verdict that goes on from a first one. -/
theorem Agree.bind {first : ExceptT Diagnostic (StateM σ) α}
    {next : α → ExceptT Diagnostic (StateM σ) γ} {state : σ} {verdict : Except Diagnostic β}
    {next' : β → Except Diagnostic δ} (hfirst : Agree rel (outcome first state).1 verdict)
    (hnext : ∀ value value' after, outcome first state = (.ok value, after) → rel value value' →
      Agree rel' (outcome (next value) after).1 (next' value')) :
    Agree rel' (outcome (first >>= next) state).1 (verdict >>= next') := by
  rw [outcome_bind]
  rcases hout : outcome first state with ⟨result, after⟩
  rw [hout] at hfirst
  cases hfirst with
  | error diagnostic => exact .error diagnostic
  | ok hvalue => exact hnext _ _ after hout hvalue

/-- The checks of a row of entries agree with verdicts on the entries if each check, in a state
that is as the ones before leave it, agrees with the verdict on its entry. -/
theorem Agree.mapM {entryRel : β → γ → Prop} {fits : σ → Prop}
    {check : α → ExceptT Diagnostic (StateM σ) β} {alone : α → Except Diagnostic γ}
    (hagree : ∀ entry state, fits state →
      Agree entryRel (outcome (check entry) state).1 (alone entry))
    (hkeeps : ∀ entry state value after, fits state →
      outcome (check entry) state = (.ok value, after) → fits after)
    (entries : List α) {state : σ} (hstate : fits state) :
    Agree (List.Forall₂ entryRel) (outcome (entries.mapM check) state).1
      (entries.mapM alone) := by
  induction entries generalizing state with
  | nil => exact .ok .nil
  | cons entry entries ih =>
    rw [List.mapM_cons, List.mapM_cons]
    refine .bind (hagree entry state hstate) fun value _ after hcheck hvalue => ?_
    refine .bind (ih (hkeeps entry state value after hstate hcheck)) fun _ _ _ _ hvalues => ?_
    exact .ok (.cons hvalue hvalues)

/-- What is accepted may be known more loosely, and what is accepted on the right may be put into
something larger. -/
theorem Agree.map {verdict : Except Diagnostic α} {verdict' : Except Diagnostic β}
    {make : β → δ} {looser : α → δ → Prop} (h : Agree rel verdict verdict')
    (hmake : ∀ value value', rel value value' → looser value (make value')) :
    Agree looser verdict (verdict'.map make) := by
  cases h with
  | ok hvalue => exact .ok (hmake _ _ hvalue)
  | error diagnostic => exact .error diagnostic

/-- Verdicts that agree refuse for the same. -/
theorem Agree.eq_error_iff {verdict : Except Diagnostic α} {verdict' : Except Diagnostic β}
    (h : Agree rel verdict verdict') {diagnostic : Diagnostic} :
    verdict = .error diagnostic ↔ verdict' = .error diagnostic := by
  cases h <;> simp

/-- Verdicts that agree both accept, or none does. -/
theorem Agree.isOk_eq {verdict : Except Diagnostic α} {verdict' : Except Diagnostic β}
    (h : Agree rel verdict verdict') : verdict.isOk = verdict'.isOk := by
  cases h <;> rfl

/-- A row of verdicts accepts if each of them does. -/
theorem isOk_mapM_iff {alone : α → Except Diagnostic β} {entries : List α} :
    (entries.mapM alone).isOk ↔ ∀ entry ∈ entries, (alone entry).isOk := by
  induction entries with
  | nil => simp [Except.isOk, Except.toBool, pure, Except.pure]
  | cons entry entries ih =>
    rw [List.forall_mem_cons, ← ih, List.mapM_cons]
    rcases alone entry with diagnostic | value
    · simp [Except.isOk, Except.toBool, Bind.bind, Except.bind]
    · rcases entries.mapM alone with diagnostic | values <;>
        simp [Except.isOk, Except.toBool, Bind.bind, Except.bind, pure, Except.pure]

/-- A list that is accepted is accepted entry by entry. -/
theorem mapM_eq_ok {alone : α → Except Diagnostic β} {entries : List α} {values : List β}
    (h : entries.mapM alone = .ok values) :
    List.Forall₂ (fun entry value => alone entry = .ok value) entries values := by
  induction entries generalizing values with
  | nil =>
    cases h
    exact .nil
  | cons entry entries ih =>
    rw [List.mapM_cons] at h
    rcases hfirst : alone entry with diagnostic | value
    · rw [hfirst] at h
      nomatch h
    · rcases hrest : entries.mapM alone with diagnostic | rest
      · rw [hfirst, hrest] at h
        nomatch h
      · rw [hfirst, hrest] at h
        cases h
        exact .cons hfirst (ih hrest)

/-- Entries that go with the same are paired. -/
theorem forall₂_through {R : α → γ → Prop} {S : β → γ → Prop} {left : List α} {right : List β}
    {middle : List γ} (h : List.Forall₂ R left middle) (h' : List.Forall₂ S right middle) :
    List.Forall₂ (fun entry entry' => ∃ value, R entry value ∧ S entry' value) left right := by
  induction h generalizing right with
  | nil =>
    cases h'
    exact .nil
  | cons hfirst _ ih =>
    cases h' with
    | cons hfirst' hrest' => exact .cons ⟨_, hfirst, hfirst'⟩ (ih hrest')

/-- A row of verdicts refuses as the first one does that refuses. -/
theorem mapM_eq_error_iff {alone : α → Except Diagnostic β} {entries : List α}
    {diagnostic : Diagnostic} :
    entries.mapM alone = .error diagnostic ↔ ∃ before entry behind,
      entries = before ++ entry :: behind ∧ (∀ earlier ∈ before, (alone earlier).isOk) ∧
        alone entry = .error diagnostic := by
  induction entries with
  | nil => simp [pure, Except.pure]
  | cons entry entries ih =>
    rw [List.mapM_cons]
    constructor
    · intro h
      rcases hfirst : alone entry with other | value
      · rw [hfirst] at h
        cases h
        exact ⟨[], entry, entries, rfl, by simp, hfirst⟩
      · rcases hrest : entries.mapM alone with other | rest
        · rw [hfirst, hrest] at h
          cases h
          rcases ih.mp hrest with ⟨before, refused, behind, rfl, hbefore, hrefused⟩
          refine ⟨entry :: before, refused, behind, rfl, ?_, hrefused⟩
          rw [List.forall_mem_cons, hfirst]
          exact ⟨rfl, hbefore⟩
        · rw [hfirst, hrest] at h
          nomatch h
    · rintro ⟨before, refused, behind, hentries, hbefore, hrefused⟩
      cases before with
      | nil =>
        cases hentries
        rw [hrefused]
        rfl
      | cons first before =>
        obtain ⟨rfl, rfl⟩ := List.cons.inj hentries
        rw [List.forall_mem_cons] at hbefore
        have hrest := ih.mpr ⟨before, refused, behind, rfl, hbefore.2, hrefused⟩
        rcases hfirst : alone entry with other | value
        · rw [hfirst] at hbefore
          nomatch hbefore.1
        · rw [hrest]
          rfl

/-! ## Parts -/

section Parts

variable {env : Env} {checker : Checker}

/-- The verdict on a declared variable alone. -/
theorem verdictAlone_init (counters : Table Nat) (value : VarInit Location) :
    verdictAlone env counters (.init value) = (checkInit value).map .init := by
  rw [verdictAlone, checkPart, outcome_bind, outcome_lift]
  cases checkInit value <;> rfl

/-- The verdict on a function alone. -/
theorem verdictAlone_fun (counters : Table Nat) (value : FunDef Location) :
    verdictAlone env counters (.fun value) =
      (outcome (checkFunDef value) ⟨env, counters⟩).1.map .fun := by
  rw [verdictAlone, checkPart, outcome_bind]
  rcases outcome (checkFunDef value) ⟨env, counters⟩ with ⟨_ | _, _⟩ <;> rfl

/-- The verdict on a class alone. -/
theorem verdictAlone_cls (counters : Table Nat) (value : ClassDef Location) :
    verdictAlone env counters (.cls value) =
      (outcome (checkClassDef value) ⟨env, counters⟩).1.map .cls := by
  rw [verdictAlone, checkPart, outcome_bind]
  rcases outcome (checkClassDef value) ⟨env, counters⟩ with ⟨_ | _, _⟩ <;> rfl

/-- The verdict on a top-level statement alone. -/
theorem verdictAlone_stmt (counters : Table Nat) (value : Stmt Location) :
    verdictAlone env counters (.stmt value) =
      (outcome (checkStmt value) ⟨⟨env, counters⟩, .top⟩).1.map .stmt := by
  rw [verdictAlone, checkPart, outcome_bind, outcome_inBody]
  rcases outcome (checkStmt value) ⟨⟨env, counters⟩, .top⟩ with ⟨_ | _, _⟩ <;> rfl

/-- The checks of a row of declarations or statements agree with the verdicts on these parts. -/
theorem Agree.parts {make : β → Part Typed} {make' : α → Part Location} (fits : σ → Prop)
    {check : α → ExceptT Diagnostic (StateM σ) β}
    {alone : Part Location → Except Diagnostic (Part Typed)}
    (hagree : ∀ entry state, fits state →
      Agree (fun value part => (make value).Matches renumbered part) (outcome (check entry) state).1
        (alone (make' entry)))
    (hkeeps : ∀ entry state value after, fits state →
      outcome (check entry) state = (.ok value, after) → fits after)
    (entries : List α) {state : σ} (hstate : fits state) :
    Agree (fun values parts => List.Forall₂ (Part.Matches renumbered) (values.map make) parts)
      (outcome (entries.mapM check) state).1 ((entries.map make').mapM alone) := by
  have hrow : Agree (List.Forall₂ fun value part => (make value).Matches renumbered part)
      (outcome (entries.mapM check) state).1 (entries.mapM fun entry => alone (make' entry)) :=
    Agree.mapM hagree hkeeps entries hstate
  rw [List.mapM_map]
  simp only [List.forall₂_map_left_iff]
  exact hrow

/-- An environment agrees with itself. -/
theorem env_agrees_refl : env.Agrees env := ⟨fun _ => rfl, fun _ => rfl, fun _ => rfl⟩

/-- A row of rules leaves the state as it is. -/
theorem outcome_mapM_lift (rule : α → Verdict β) (entries : List α) (state : σ) :
    outcome (entries.mapM fun entry => (liftM (rule entry) : ExceptT Diagnostic (StateM σ) β))
      state = (entries.mapM rule, state) := by
  induction entries with
  | nil => rfl
  | cons entry entries ih =>
    rw [List.mapM_cons, List.mapM_cons, outcome_bind, outcome_lift]
    rcases rule entry with diagnostic | value
    · rfl
    · have hrest : outcome (do
          return value :: (← entries.mapM fun entry =>
            (liftM (rule entry) : ExceptT Diagnostic (StateM σ) β))) state =
          ((entries.mapM rule).map (value :: ·), state) := by
        rw [outcome_bind, ih]
        cases entries.mapM rule <;> rfl
      refine hrest.trans ?_
      cases entries.mapM rule <;> rfl

/-- Declared variables are judged one by one. -/
theorem checkInits_agrees (counters : Part Location → Table Nat) (inits : List (VarInit Location)) :
    Agree (fun values parts => List.Forall₂ (Part.Matches renumbered) (values.map .init) parts)
      (checkInits inits)
      ((inits.map .init).mapM fun part => verdictAlone env (counters part) part) := by
  have hrow : Agree
      (fun values parts => List.Forall₂ (Part.Matches renumbered) (values.map .init) parts)
      (outcome (inits.mapM fun init => liftM (checkInit init)) ()).1
      ((inits.map .init).mapM fun part => verdictAlone env (counters part) part) := by
    refine Agree.parts (fun _ => True) ?_ (fun _ _ _ _ _ _ => trivial) inits trivial
    intro init _ _
    rw [outcome_lift, verdictAlone_init]
    refine .map (.of_eq rfl) ?_
    rintro value _ rfl
    exact .init ⟨rfl, rfl, rfl, rfl, rfl⟩
  rwa [outcome_mapM_lift] at hrow

/-- Functions are judged one by one. -/
theorem checkFunDefs_agree (counters : Part Location → Table Nat) (funs : List (FunDef Location))
    (henv : checker.env = env) :
    Agree (fun values parts => List.Forall₂ (Part.Matches renumbered) (values.map .fun) parts)
      (outcome (funs.mapM checkFunDef) checker).1
      ((funs.map .fun).mapM fun part => verdictAlone env (counters part) part) := by
  refine Agree.parts (fun checker => checker.env = env) ?_ ?_ funs henv
  · rintro fn checker rfl
    rw [verdictAlone_fun]
    have hfn := checkFunDef_parallel fn checker ⟨checker.env, counters (.fun fn)⟩ env_agrees_refl
    exact hfn.1.map fun _ _ => .fun
  · intro fn checker value after henv hok
    obtain rfl := (checkFunDef_handsOut fn).moves_of_ok hok
    exact henv

/-- Classes are judged one by one. -/
theorem checkClassDefs_agree (counters : Part Location → Table Nat)
    (classes : List (ClassDef Location)) (henv : checker.env = env) :
    Agree (fun values parts => List.Forall₂ (Part.Matches renumbered) (values.map .cls) parts)
      (outcome (classes.mapM checkClassDef) checker).1
      ((classes.map .cls).mapM fun part => verdictAlone env (counters part) part) := by
  refine Agree.parts (fun checker => checker.env = env) ?_ ?_ classes henv
  · rintro cls checker rfl
    rw [verdictAlone_cls]
    have hcls := checkClassDef_parallel cls checker ⟨checker.env, counters (.cls cls)⟩
      env_agrees_refl
    exact hcls.1.map fun _ _ => .cls
  · intro cls checker value after henv hok
    obtain rfl := (checkClassDef_handsOut cls).moves_of_ok hok
    exact henv

/-- The top level checks its statements in a row. -/
theorem checkBlock_eq_mapM (block : List (Stmt Location)) :
    checkBlock block = block.mapM checkStmt := by
  induction block with
  | nil => rw [checkBlock, List.mapM_nil]
  | cons first rest ih => rw [checkBlock, List.mapM_cons, ih]

/-- The top level is judged by its statements in a row. -/
theorem outcome_checkTop (stmts : List (Stmt Location)) :
    (outcome (checkTop stmts) checker).1 = (outcome (stmts.mapM checkStmt) ⟨checker, .top⟩).1 := by
  rw [← checkBlock_eq_mapM, checkTop, outcome_bind, outcome_inBody, outcome_bind]
  rcases outcome (checkBlock stmts) ⟨checker, .top⟩ with ⟨_ | _, _⟩ <;> rfl

/-- These are judged one by one, too. -/
theorem checkTop_agrees (counters : Part Location → Table Nat) (stmts : List (Stmt Location))
    (henv : checker.env = env) :
    Agree (fun values parts => List.Forall₂ (Part.Matches renumbered) (values.map .stmt) parts)
      (outcome (checkTop stmts) checker).1
      ((stmts.map .stmt).mapM fun part => verdictAlone env (counters part) part) := by
  rw [outcome_checkTop]
  refine Agree.parts
    (fun context => context.checker.env = env ∧ context.locals = .top) ?_ ?_ stmts
    ⟨henv, rfl⟩
  · rintro s ⟨checker, _⟩ ⟨rfl, rfl⟩
    rw [verdictAlone_stmt]
    have halike : Context.Alike [] ⟨checker, .top⟩ ⟨⟨checker.env, counters (.stmt s)⟩, .top⟩ :=
      ⟨env_agrees_refl, rfl, rfl, rfl⟩
    exact (checkStmt_parallel s _ _ halike).1.map fun _ _ => .stmt
  · rintro s context value after ⟨henv, htop⟩ hok
    obtain ⟨hafter, hlocals⟩ := checkStmt_atTop hok htop
    exact ⟨hafter.trans henv, hlocals⟩

/-- The verdict on a program is put together from those on its parts. -/
theorem checkParts_agrees (checker : Checker) (counters : Part Location → Table Nat)
    (program : Program Location) :
    Agree (fun typed parts => List.Forall₂ (Part.Matches renumbered) typed.parts parts)
      (outcome (checkParts program) checker).1
      (program.parts.mapM fun part => verdictAlone checker.env (counters part) part) := by
  simp only [Program.parts, List.mapM_append, bind_assoc, pure_bind]
  rw [checkParts]
  refine .bind (by rw [outcome_lift]; exact checkInits_agrees counters program.inits) ?_
  intro inits _ afterInits hinits honInits
  obtain ⟨-, rfl⟩ := Prod.mk.inj ((outcome_lift _ _).symm.trans hinits)
  refine .bind (checkFunDefs_agree counters program.funs rfl) ?_
  intro funs _ afterFuns hfuns honFuns
  obtain rfl := (HandsOut.mapM checkFunDef_handsOut program.funs).moves_of_ok hfuns
  refine .bind (checkClassDefs_agree counters program.classes rfl) ?_
  intro classes _ afterClasses hclasses honClasses
  obtain rfl := (HandsOut.mapM checkClassDef_handsOut program.classes).moves_of_ok hclasses
  refine .bind (checkTop_agrees counters program.stmts rfl) ?_
  intro stmts _ _ _ honStmts
  refine .ok ?_
  exact List.rel_append honInits (List.rel_append honFuns (List.rel_append honClasses honStmts))

/-- The checks of a part by two checkers that know the same agree. -/
theorem checkPart_parallel (part : Part Location) :
    Parallel KnowSame (Part.Matches renumbered) (checkPart part) (checkPart part) := by
  cases part with
  | init value =>
    refine Parallel.bind (.lift_eq rfl) fun init _ heq => ?_
    subst heq
    exact .pure (.init ⟨rfl, rfl, rfl, rfl, rfl⟩)
  | «fun» value => exact Parallel.bind (checkFunDef_parallel value) fun _ _ h => .pure (.fun h)
  | cls value => exact Parallel.bind (checkClassDef_parallel value) fun _ _ h => .pure (.cls h)
  | stmt value =>
    exact Parallel.bind (inBody_parallel rfl (checkStmt_parallel value)) fun _ _ h =>
      .pure (.stmt h)

end Parts

/-! ## Two orders of functions -/

section Orders

/-- The check of a statement at the start of the top level. -/
def checkTopStmt (s : Stmt Location) : ModuleCheck (Stmt Typed) := inBody .top (checkStmt s)

/-- The statements of an accepted top level are accepted one by one. -/
theorem checkTop_accepts {checker after : Checker} {stmts : List (Stmt Location)}
    {stmts' : List (Stmt Typed)} (h : outcome (checkTop stmts) checker = (.ok stmts', after)) :
    List.Forall₂ (Accepts checkTopStmt checker.env) stmts stmts' := by
  have hrow : (outcome (stmts.mapM checkStmt) ⟨checker, .top⟩).1 = .ok stmts' := by
    rw [← outcome_checkTop, h]
  have heach := outcome_mapM_ok (fun context : Context =>
    context.checker.env = checker.env ∧ context.locals = .top) ?_ ⟨rfl, rfl⟩ (Prod.ext hrow rfl)
  · refine heach.imp ?_
    rintro s s' ⟨⟨other, _⟩, ⟨henv, rfl⟩, hok⟩
    exact ⟨other, henv, hok⟩
  · rintro s context value next ⟨henv, htop⟩ hok
    obtain ⟨hnext, hlocals⟩ := checkStmt_atTop hok htop
    exact ⟨hnext.trans henv, hlocals⟩

/-- What two environments that know the same accept of the same entries goes together. -/
theorem Accepts.forall₂ {env env' : Env} {check : α → ModuleCheck β} {rel : β → β → Prop}
    (hcheck : ∀ entry, Parallel KnowSame rel (check entry) (check entry))
    (henv : env.Agrees env') {entries : List α} {values values' : List β}
    (h : List.Forall₂ (Accepts check env) entries values)
    (h' : List.Forall₂ (Accepts check env') entries values') : List.Forall₂ rel values values' := by
  induction h generalizing values' with
  | nil =>
    cases h'
    exact .nil
  | @cons entry value entries values hfirst _ ih =>
    cases h' with
    | @cons _ value' _ values' hfirst' hrest' =>
      refine .cons ?_ (ih hrest')
      rcases hfirst with ⟨checker, rfl, hvalue⟩
      rcases hfirst' with ⟨checker', rfl, hvalue'⟩
      have hagree := (hcheck entry checker checker' henv).1
      rw [hvalue, hvalue'] at hagree
      cases hagree with
      | ok hrel => exact hrel

/-- A program that is accepted, part by part. -/
structure AcceptsParts (env : Env) (program : Program Location) (typed : Program Typed) :
    Prop where
  note : typed.note = ⟨(typed.stmts.getLast?.map Stmt.ty).getD .none, program.note⟩
  inits : checkInits program.inits = .ok typed.inits
  funs : List.Forall₂ (Accepts checkFunDef env) program.funs typed.funs
  classes : List.Forall₂ (Accepts checkClassDef env) program.classes typed.classes
  stmts : List.Forall₂ (Accepts checkTopStmt env) program.stmts typed.stmts

/-- All parts of an accepted program are accepted one by one. -/
theorem checkParts_accepts {program : Program Location} {checker after : Checker}
    {typed : Program Typed} (h : outcome (checkParts program) checker = (.ok typed, after)) :
    AcceptsParts checker.env program typed := by
  simp only [checkParts, outcome_bind_ok, outcome_lift, outcome_pure, Prod.mk.injEq,
    Except.ok.injEq] at h
  obtain ⟨inits, _, ⟨hinits, rfl⟩, funs, _, hfuns, classes, _, hclasses, stmts, _, hstmts, rfl,
    rfl⟩ := h
  have onFuns := mapM_accepts checkFunDef_handsOut hfuns
  obtain rfl := (HandsOut.mapM checkFunDef_handsOut program.funs).moves_of_ok hfuns
  have onClasses := mapM_accepts checkClassDef_handsOut hclasses
  obtain rfl := (HandsOut.mapM checkClassDef_handsOut program.classes).moves_of_ok hclasses
  have onStmts := checkTop_accepts hstmts
  exact ⟨rfl, hinits, onFuns, onClasses, onStmts⟩

/-- Of two programs that are accepted where the same is known, and that differ in the order of
their functions, the checked ones differ in the order of their functions. -/
theorem AcceptsParts.matches_reordered {env env' : Env} (henv : env.Agrees env')
    {program : Program Location} {funs : List (FunDef Location)} (hperm : funs.Perm program.funs)
    {typed typed' : Program Typed} (h : AcceptsParts env program typed)
    (h' : AcceptsParts env' { program with funs := funs } typed') :
    ∃ funs', funs'.Perm typed'.funs ∧
      typed.Matches renumbered { typed' with funs := funs' } := by
  obtain ⟨funs', hfuns', hperm'⟩ := List.perm_comp_forall₂ hperm.symm h'.funs
  refine ⟨funs', hperm', ?_⟩
  have hinits : typed.inits = typed'.inits := Except.ok.inj (h.inits.symm.trans h'.inits)
  have hstmts := Accepts.forall₂ (fun s => inBody_parallel rfl (checkStmt_parallel s)) henv
    h.stmts h'.stmts
  have hlast := getLast?_ty_eq (Stmt.matchesAll_iff.mpr hstmts)
  constructor
  · show typed.note = typed'.note
    rw [h.note, h'.note, hlast]
  · rw [hinits]
    exact VarInit.matches_refl _
  · exact Accepts.forall₂ checkFunDef_parallel henv h.funs hfuns'
  · exact Accepts.forall₂ checkClassDef_parallel henv h.classes h'.classes
  · exact Stmt.matchesAll_iff.mpr hstmts

end Orders

end Typing

/-! ## Programs -/

open Typing

/-- The order of entries with different names does not matter. -/
theorem Table.find?_perm {β : Type} {entries entries' : Table β} (h : entries.Perm entries')
    (hnodup : (entries.map Prod.fst).Nodup) (name : String) :
    Table.find? entries name = Table.find? entries' name := by
  induction h with
  | nil => rfl
  | cons entry _ ih =>
    rcases entry with ⟨key, value⟩
    rw [List.map_cons, List.nodup_cons] at hnodup
    rw [Table.find?_cons, Table.find?_cons, ih hnodup.2]
  | swap entry entry' rest =>
    rcases entry with ⟨key, value⟩
    rcases entry' with ⟨key', value'⟩
    have hne : key' ≠ key := by
      intro heq
      simp [heq] at hnodup
    simp only [Table.find?_cons]
    by_cases hname : name = key
    · simp [hname, Ne.symm hne]
    · simp [hname]
  | trans hfirst _ ihFirst ihSecond =>
    rw [ihFirst hnodup, ihSecond ((hfirst.map Prod.fst).nodup_iff.mp hnodup)]

/-- Functions with different names may be declared in any order. -/
theorem augment_agrees_of_perm (env : Env) (program : Program Location)
    {funs : List (FunDef Location)} (hperm : funs.Perm program.funs)
    (hnames : (program.funs.map FunDef.name).Nodup) :
    (env.augment program).Agrees (env.augment { program with funs := funs }) := by
  refine ⟨fun _ => rfl, fun name => ?_, fun _ => rfl⟩
  simp only [Env.augment, Env.function?, Table.find?_insertAll]
  congr 1
  have hentries := hperm.symm.map fun fn : FunDef Location => (fn.name, fn.signature)
  refine Table.find?_perm (((List.reverse_perm _).trans hentries).trans (List.reverse_perm _).symm)
    ?_ name
  rw [List.map_reverse, (List.reverse_perm _).nodup_iff, List.map_map]
  exact hnames

/-- The verdict on a program is that on its parts, with its declarations known. -/
theorem check_verdict (checker : Checker) (program : Program Location) :
    (checker.check program).1 = (outcome (checkParts program)
      { checker with env := checker.env.augment program }).1 := by
  rw [Checker.check]
  show _ = ((checkParts program).run _).1
  rcases (checkParts program).run { checker with env := checker.env.augment program } with
    ⟨_ | _, _⟩ <;> rfl

/-- Another order of the functions is another order of the parts. -/
theorem parts_perm (program : Program Location) {funs : List (FunDef Location)}
    (hperm : funs.Perm program.funs) :
    program.parts.Perm (Program.parts { program with funs := funs }) :=
  .append_left _ (.append_right _ (hperm.symm.map Part.fun))

/-- A program is accepted if each part is on its own. -/
theorem check_isOk_iff (checker : Checker) (program : Program Location)
    (counters : Part Location → Table Nat) :
    (checker.check program).1.isOk ↔ ∀ part ∈ program.parts,
      (verdictAlone (checker.env.augment program) (counters part) part).isOk := by
  have hagree := checkParts_agrees
    { checker with env := checker.env.augment program } counters program
  rw [check_verdict, hagree.isOk_eq]
  exact isOk_mapM_iff

/-- Another order of functions with different names, and other counters, do not change whether a
program is accepted. -/
theorem check_isOk_reordered (checker : Checker) (program : Program Location)
    {funs : List (FunDef Location)} (others : Table Nat) (hperm : funs.Perm program.funs)
    (hnames : (program.funs.map FunDef.name).Nodup) :
    (checker.check program).1.isOk =
      (Checker.check ⟨checker.env, others⟩ { program with funs := funs }).1.isOk := by
  have henv := augment_agrees_of_perm checker.env program hperm hnames
  rw [Bool.eq_iff_iff, check_isOk_iff checker program fun _ => [],
    check_isOk_iff ⟨checker.env, others⟩ _ fun _ => []]
  have hpart (part : Part Location) := (checkPart_parallel part
    ⟨checker.env.augment program, []⟩ ⟨checker.env.augment { program with funs := funs }, []⟩
    henv).1.isOk_eq
  simp only [verdictAlone, hpart, (parts_perm program hperm).mem_iff]

/-- The parts of an accepted program are accepted with its declarations known. -/
theorem check_accepts {checker : Checker} {program : Program Location} {typed : Program Typed}
    (h : (checker.check program).1 = .ok typed) :
    AcceptsParts (checker.env.augment program) program typed := by
  rw [check_verdict] at h
  exact checkParts_accepts (Prod.ext h rfl)

/-- The verdict on a program is put together from the verdicts on its parts, each checked on its
own in the environment with the declarations of the program, with whatever counters.  The program
is accepted if and only if all its parts are; then the checked parts are those of the separate
checks, up to the numbers of item names.  Otherwise the program is refused as the first part is
that is refused, where variables come before functions, functions before classes, and classes
before statements.  So other counters, and another order of functions with different names, change
neither whether the program is accepted nor any type in it. -/
theorem check_decomposes (checker : Checker) (program : Program Location)
    (counters : Part Location → Table Nat) :
    let verdict := (checker.check program).1
    let alone := fun part => verdictAlone (checker.env.augment program) (counters part) part
    (verdict.isOk ↔ ∀ part ∈ program.parts, (alone part).isOk) ∧
      (∀ typed, verdict = .ok typed →
        List.Forall₂ (fun part checked => ∃ own, alone part = .ok own ∧
          checked.Matches renumbered own) program.parts typed.parts) ∧
      (∀ diagnostic, verdict = .error diagnostic ↔ ∃ before part behind,
        program.parts = before ++ part :: behind ∧ (∀ earlier ∈ before, (alone earlier).isOk) ∧
          alone part = .error diagnostic) ∧
      (∀ others, Agree (Program.Matches renumbered) verdict
        (Checker.check ⟨checker.env, others⟩ program).1) ∧
      ∀ funs others, funs.Perm program.funs → (program.funs.map FunDef.name).Nodup →
        let reordered := (Checker.check ⟨checker.env, others⟩ { program with funs := funs }).1
        verdict.isOk = reordered.isOk ∧
          ∀ typed typed', verdict = .ok typed → reordered = .ok typed' →
            ∃ funs', funs'.Perm typed'.funs ∧
              typed.Matches renumbered { typed' with funs := funs' } := by
  intro verdict alone
  have hagree : Agree (fun typed parts =>
      List.Forall₂ (Part.Matches renumbered) typed.parts parts) verdict
      (program.parts.mapM alone) := by
    have hparts := checkParts_agrees
      { checker with env := checker.env.augment program } counters program
    rwa [← check_verdict] at hparts
  refine ⟨check_isOk_iff checker program counters, ?_, ?_, ?_, ?_⟩
  · intro typed hok
    rw [hok] at hagree
    generalize hrow : program.parts.mapM alone = row at hagree
    cases hagree with
    | ok hmatch => exact forall₂_through (mapM_eq_ok hrow) hmatch
  · intro diagnostic
    rw [← mapM_eq_error_iff]
    exact hagree.eq_error_iff
  · intro others
    have hsame : KnowSame { checker with env := checker.env.augment program }
        ⟨checker.env.augment program, others⟩ := env_agrees_refl
    have hboth := (checkParts_parallel program _ _ hsame).1
    rwa [← check_verdict, ← check_verdict ⟨checker.env, others⟩] at hboth
  · intro funs others hperm hnames
    refine ⟨check_isOk_reordered checker program others hperm hnames, ?_⟩
    intro typed typed' hok hok'
    have henv := augment_agrees_of_perm checker.env program hperm hnames
    have hparts' := @check_accepts ⟨checker.env, others⟩ _ _ hok'
    exact (check_accepts hok).matches_reordered henv hperm hparts'

/-- Two functions, the second of which calls the first in a comprehension, and a statement. -/
def twoFunctions : Program Location :=
  let here : Location := ⟨1, 1, ""⟩
  let one : Expr Location := .literal here ⟨here, .num 1⟩
  let first : FunDef Location := ⟨here, "f", [], .num, [], [.return here one]⟩
  let second : FunDef Location :=
    ⟨here, "g", [], .list .num, [], [.return here
      (.comprehension here .list (.call here "f" [] []) "x" (.listLiteral here [one]) none)]⟩
  ⟨here, [], [first, second], [], [.expr here (.call here "g" [] [])]⟩

theorem check_decomposes_twoFunctions :
    ((Checker.new .builtins).check twoFunctions).1.isOk = true ∧
      (Checker.check ⟨.builtins, [("x", 3)]⟩
        { twoFunctions with funs := twoFunctions.funs.reverse }).1.isOk = true := by
  have hok : ((Checker.new .builtins).check twoFunctions).1.isOk = true := rfl
  obtain ⟨-, -, -, -, horder⟩ := check_decomposes (.new .builtins) twoFunctions fun _ => []
  have hreordered := horder twoFunctions.funs.reverse [("x", 3)] (List.reverse_perm _) (by decide)
  exact ⟨hok, hreordered.1 ▸ hok⟩

end Offside
