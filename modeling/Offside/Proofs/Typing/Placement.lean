import Offside.Proofs.Typing.Blames
import Offside.Proofs.Typing.Targets

/-!
# Where jumps stand

The checker counts the loops around a statement while it goes into them and comes back, and knows
of each body whether it is that of a function.  This module says that the count is right: what it
lets pass stands where it may, in terms of the tree alone, and what it refuses for its place does
not.

Main definitions:

- `Program.ReturnsFit`: returned values go with the return types of their functions.
- `Typing.AcceptsBody`: a body of a program is accepted.

Main results:

- Theorem `Stmt.Stands.accepted`: each statement of an accepted block is accepted at its place.
- Theorem `check_places_jumps`: jumps in accepted and refused programs.
-/

namespace Offside

open Typing

/-- Each return stands in a function or method, and its value is assignable to the return type of
this function or method. -/
def Program.ReturnsFit (program : Program Typed) : Prop :=
  ∀ {ret? block}, program.HasBody ret? block → ∀ {note value inLoop},
    (Stmt.return note value).Stands inLoop block → ∃ ret, ret? = some ret ∧ value.ty.Assignable ret

/-- What goes with the entries of a list has a partner for each of them. -/
theorem exists_partner {α β : Type} {rel : α → β → Prop} {entries : List α} {values : List β}
    (h : List.Forall₂ rel entries values) {value : β} (hmem : value ∈ values) :
    ∃ entry ∈ entries, rel entry value := by
  induction h with
  | nil => nomatch hmem
  | cons hfirst _ ih =>
    rcases List.mem_cons.mp hmem with rfl | hmem
    · exact ⟨_, List.mem_cons_self, hfirst⟩
    · obtain ⟨entry, hentry, hrel⟩ := ih hmem
      exact ⟨entry, List.mem_cons_of_mem _ hentry, hrel⟩

/-! ## Checked statements -/

section Checked

variable {env : Env} {vars : Table Ty} {block : List (Stmt Location)} {names : List String}
  {block' : List (Stmt Typed)} {s' : Stmt Typed} {inLoop : Bool}

/-- A checked statement of a row comes from one of the row. -/
theorem Stmt.ResolvesAll.exists_of_mem (h : Stmt.ResolvesAll env vars block names block')
    (hmem : s' ∈ block') : ∃ s ∈ block, ∃ names, s.Resolves env vars names s' := by
  induction block' generalizing block names with
  | nil => nomatch hmem
  | cons first' rest' ih =>
    cases h with
    | cons onFirst onRest =>
      rcases List.mem_cons.mp hmem with rfl | hmem
      · exact ⟨_, List.mem_cons_self, _, onFirst⟩
      · obtain ⟨s, hs, onStmt⟩ := ih onRest hmem
        exact ⟨s, List.mem_cons_of_mem _ hs, onStmt⟩

/-- A checked statement stands where the statement that it was made of does. -/
theorem Stmt.Stands.exists_source (h : s'.Stands inLoop block')
    (hblock : Stmt.ResolvesAll env vars block names block') :
    ∃ (s : Stmt Location) (names : List String), s.Stands inLoop block ∧
      s.Resolves env vars names s' := by
  induction h generalizing block names with
  | here mem =>
    obtain ⟨s, hs, names, onStmt⟩ := hblock.exists_of_mem mem
    exact ⟨s, names, .here hs, onStmt⟩
  | condBody mem _ ih =>
    obtain ⟨_, hs, _, onStmt⟩ := hblock.exists_of_mem mem
    cases onStmt with
    | cond onCondition onBody onOtherwise =>
      obtain ⟨s, names, hstands, onInside⟩ := ih onBody
      exact ⟨s, names, .condBody hs hstands, onInside⟩
  | condOtherwise mem _ ih =>
    obtain ⟨_, hs, _, onStmt⟩ := hblock.exists_of_mem mem
    cases onStmt with
    | cond onCondition onBody onOtherwise =>
      obtain ⟨s, names, hstands, onInside⟩ := ih onOtherwise
      exact ⟨s, names, .condOtherwise hs hstands, onInside⟩
  | whileBody mem _ ih =>
    obtain ⟨_, hs, _, onStmt⟩ := hblock.exists_of_mem mem
    cases onStmt with
    | «while» onCondition onBody =>
      obtain ⟨s, names, hstands, onInside⟩ := ih onBody
      exact ⟨s, names, .whileBody hs hstands, onInside⟩
  | forBody mem _ ih =>
    obtain ⟨_, hs, _, onStmt⟩ := hblock.exists_of_mem mem
    cases onStmt with
    | «for» onIterable onBody onOtherwise =>
      obtain ⟨s, names, hstands, onInside⟩ := ih onBody
      exact ⟨s, names, .forBody hs hstands, onInside⟩
  | forOtherwise mem _ ih =>
    obtain ⟨_, hs, _, onStmt⟩ := hblock.exists_of_mem mem
    cases onStmt with
    | «for» onIterable onBody onOtherwise =>
      obtain ⟨s, names, hstands, onInside⟩ := ih onOtherwise
      exact ⟨s, names, .forOtherwise hs hstands, onInside⟩

/-- Resolving names leaves jumps what they are. -/
theorem Stmt.Resolves.loopKeyword?_eq {s : Stmt Location} (h : s.Resolves env vars names s') :
    s'.loopKeyword? = s.loopKeyword? := by
  cases h <;> rfl

/-- What statements in a row store, each of them stores. -/
theorem Stmt.storeAll_of_mem {R : Ty → Ty → Prop} {ret : Ty} (hmem : s' ∈ block')
    (h : Stmt.StoreAll R env vars ret block') : s'.Stores R env vars ret := by
  induction block' with
  | nil => nomatch hmem
  | cons first rest ih =>
    rcases List.mem_cons.mp hmem with rfl | hmem
    · exact h.1
    · exact ih hmem h.2

/-- What is stored in a block is stored in each statement that stands there. -/
theorem Stmt.Stands.stores {R : Ty → Ty → Prop} {ret : Ty} (h : s'.Stands inLoop block')
    (hblock : Stmt.StoreAll R env vars ret block') : s'.Stores R env vars ret := by
  induction h with
  | here mem => exact Stmt.storeAll_of_mem mem hblock
  | condBody mem _ ih => exact ih (Stmt.storeAll_of_mem mem hblock).1
  | condOtherwise mem _ ih => exact ih (Stmt.storeAll_of_mem mem hblock).2
  | whileBody mem _ ih => exact ih (Stmt.storeAll_of_mem mem hblock)
  | forBody mem _ ih => exact ih (Stmt.storeAll_of_mem mem hblock).2.1
  | forOtherwise mem _ ih => exact ih (Stmt.storeAll_of_mem mem hblock).2.2

end Checked

/-! ## Statements that are checked -/

namespace Typing

section Statements

open Check

variable {place : Place} {context after : Context}

/-- Statements stay at their place. -/
theorem At.move {items : List String} (h : At place context)
    (hmove : BodyMove items context after) : At place after := by
  obtain ⟨_, rfl⟩ := hmove
  exact ⟨h.topLevel, h.loopDepth⟩

/-- What is returned does not change the place. -/
theorem At.returning (h : At place context) (ret : Ty) : At place (context.returning ret) :=
  ⟨h.topLevel, h.loopDepth⟩

/-- A loop that is entered is one deeper. -/
theorem At.enterLoop (h : At place context) : At place.inLoop context.enterLoop :=
  ⟨h.topLevel, congrArg Nat.succ h.loopDepth⟩

/-- Names that are handed out do not change the place. -/
theorem At.handOut (h : At place context) (items : List String) :
    At place (context.handOut items) :=
  ⟨h.topLevel, h.loopDepth⟩

/-- A loop that is left is one higher. -/
theorem At.leaveLoop (h : At place.inLoop context) : At place context.leaveLoop :=
  ⟨h.topLevel, congrArg Nat.pred h.loopDepth⟩

end Statements
end Typing

section Accepted

variable {place : Place} {context after : Context}

/-- Each statement of an accepted block is accepted itself, at the same place. -/
theorem Stmt.ChecksAll.exists_of_mem {s : Stmt Location} {block : List (Stmt Location)}
    {block' : List (Stmt Typed)} (h : Stmt.ChecksAll context block block' after)
    (hmem : s ∈ block) (hat : At place context) :
    ∃ start s' last, At place start ∧ s.Checks start s' last := by
  induction block generalizing context block' with
  | nil => nomatch hmem
  | cons first rest ih =>
    cases h with
    | cons onFirst onRest =>
      rcases List.mem_cons.mp hmem with rfl | hmem
      · exact ⟨_, _, _, hat, onFirst⟩
      · exact ih onRest hmem (hat.move onFirst.move)

/-- Each statement that stands in an accepted block is accepted itself; around it there is a loop
if it stands in one in the block, or the block does. -/
theorem Stmt.Stands.accepted {s : Stmt Location} {inLoop : Bool} {block : List (Stmt Location)}
    (h : s.Stands inLoop block) {place : Place} {context after : Context}
    {block' : List (Stmt Typed)} (hat : At place context)
    (hok : Stmt.ChecksAll context block block' after) :
    ∃ start s' last, s.Checks start s' last ∧ start.locals.topLevel = place.topLevel ∧
      (0 < start.locals.loopDepth ↔ inLoop = true ∨ 0 < place.loopDepth) := by
  induction h generalizing place context after block' with
  | here mem =>
    obtain ⟨start, s', last, hstart, hs⟩ := hok.exists_of_mem mem hat
    exact ⟨start, s', last, hs, hstart.topLevel, by simp [hstart.loopDepth]⟩
  | condBody mem _ ih =>
    obtain ⟨_, _, _, hstart, hs⟩ := hok.exists_of_mem mem hat
    cases hs with
    | cond _ _ onBody _ => exact ih (hstart.handOut _) onBody
  | condOtherwise mem _ ih =>
    obtain ⟨_, _, _, hstart, hs⟩ := hok.exists_of_mem mem hat
    cases hs with
    | cond _ _ onBody onOtherwise =>
      exact ih (((hstart.handOut _).move onBody.move).returning .none) onOtherwise
  | whileBody mem _ ih =>
    obtain ⟨_, _, _, hstart, hs⟩ := hok.exists_of_mem mem hat
    cases hs with
    | «while» _ _ onBody =>
      obtain ⟨start, s', last, hs', htop, hdepth⟩ := ih (hstart.handOut _).enterLoop onBody
      exact ⟨start, s', last, hs', htop, by simp [hdepth, Place.inLoop]⟩
  | forBody mem _ ih =>
    obtain ⟨_, _, _, hstart, hs⟩ := hok.exists_of_mem mem hat
    cases hs with
    | «for» _ _ _ _ onBody _ =>
      obtain ⟨start, s', last, hs', htop, hdepth⟩ := ih (hstart.handOut _).enterLoop onBody
      exact ⟨start, s', last, hs', htop, by simp [hdepth, Place.inLoop]⟩
  | forOtherwise mem _ ih =>
    obtain ⟨_, _, _, hstart, hs⟩ := hok.exists_of_mem mem hat
    cases hs with
    | «for» _ _ _ _ onBody onOtherwise =>
      exact ih ((hstart.handOut _).enterLoop.move onBody.move).leaveLoop onOtherwise

end Accepted

/-! ## Bodies -/

namespace Typing

/-- A body of a program is accepted, by a check that starts as those of bodies with this return
type do. -/
def AcceptsBody (ret? : Option Ty) (block : List (Stmt Location)) (block' : List (Stmt Typed)) :
    Prop :=
  ∃ context after, outcome (checkBlock block) context = (.ok block', after) ∧
    At ⟨ret?.isNone, 0⟩ context ∧ context.Binds [] ∧
    ∀ ret, ret? = some ret → context.locals.expectedRet = ret

/-- The body of an accepted function is accepted, with the return type of the function. -/
theorem checkFunDef_acceptsBody {fn : FunDef Location} {fn' : FunDef Typed} {env : Env}
    (h : Accepts checkFunDef env fn fn') :
    fn'.ret = fn.ret ∧ AcceptsBody (some fn.ret) fn.body fn'.body := by
  obtain ⟨checker, -, hok⟩ := h
  obtain ⟨-, ⟨last, hblock, -⟩, hfn⟩ := checkFunDef_eq_ok (Prod.ext hok rfl)
  refine ⟨by rw [hfn], _, last, hblock, ⟨rfl, rfl⟩, rfl, ?_⟩
  rintro ret ⟨⟩
  rfl

/-- The parts of a program that have bodies, when it is accepted. -/
theorem check_accepts_bodies {checker : Checker} {program : Program Location}
    {typed : Program Typed} (h : (checker.check program).1 = .ok typed) :
    List.Forall₂ (Accepts checkFunDef (checker.env.augment program)) program.funs typed.funs ∧
      List.Forall₂ (Accepts checkClassDef (checker.env.augment program)) program.classes
        typed.classes ∧
      AcceptsBody none program.stmts typed.stmts := by
  have hrun := check_eq_ok.mp (Prod.ext h rfl)
  simp only [checkParts, outcome_bind_ok, outcome_lift, outcome_pure, Prod.mk.injEq,
    Except.ok.injEq] at hrun
  obtain ⟨_, _, ⟨-, rfl⟩, funs, _, hfuns, classes, _, hclasses, stmts, _, hstmts, rfl, -⟩ := hrun
  have onFuns := mapM_accepts checkFunDef_handsOut hfuns
  obtain rfl := (HandsOut.mapM checkFunDef_handsOut program.funs).moves_of_ok hfuns
  have onClasses := mapM_accepts checkClassDef_handsOut hclasses
  obtain ⟨last, hblock⟩ := checkTop_eq_ok hstmts
  exact ⟨onFuns, onClasses, _, last, hblock, ⟨rfl, rfl⟩, rfl, nofun⟩

/-- The methods of an accepted class are accepted one by one. -/
theorem checkClassDef_acceptsMethods {cls : ClassDef Location} {cls' : ClassDef Typed} {env : Env}
    (h : Accepts checkClassDef env cls cls') :
    List.Forall₂ (Accepts checkFunDef env) cls.methods cls'.methods := by
  obtain ⟨checker, rfl, hok⟩ := h
  obtain ⟨-, hmethods, -, -⟩ := checkClassDef_eq_ok (Prod.ext hok rfl)
  exact mapM_accepts checkFunDef_handsOut hmethods

variable {checker : Checker} {program : Program Location} {typed : Program Typed}
  {ret? : Option Ty}

/-- Each body of an accepted program is accepted. -/
theorem exists_checked_body (h : (checker.check program).1 = .ok typed)
    {block : List (Stmt Location)} (hbody : program.HasBody ret? block) :
    ∃ block', AcceptsBody ret? block block' := by
  obtain ⟨onFuns, onClasses, onStmts⟩ := check_accepts_bodies h
  cases hbody with
  | function mem =>
    obtain ⟨fn', -, onFun⟩ := exists_partner onFuns.flip mem
    exact ⟨_, (checkFunDef_acceptsBody onFun).2⟩
  | method isClass mem =>
    obtain ⟨cls', -, onClass⟩ := exists_partner onClasses.flip isClass
    obtain ⟨fn', -, onFun⟩ := exists_partner (checkClassDef_acceptsMethods onClass).flip mem
    exact ⟨_, (checkFunDef_acceptsBody onFun).2⟩
  | top => exact ⟨_, onStmts⟩

/-- Each body of a checked program is a body of the program that was accepted. -/
theorem exists_source_body (h : (checker.check program).1 = .ok typed)
    {block' : List (Stmt Typed)} (hbody : typed.HasBody ret? block') :
    ∃ block, program.HasBody ret? block ∧ AcceptsBody ret? block block' := by
  obtain ⟨onFuns, onClasses, onStmts⟩ := check_accepts_bodies h
  cases hbody with
  | function mem =>
    obtain ⟨fn, hmem, onFun⟩ := exists_partner onFuns mem
    obtain ⟨hret, onBody⟩ := checkFunDef_acceptsBody onFun
    exact ⟨fn.body, hret ▸ .function hmem, hret ▸ onBody⟩
  | method isClass mem =>
    obtain ⟨cls, hcls, onClass⟩ := exists_partner onClasses isClass
    obtain ⟨fn, hmem, onFun⟩ := exists_partner (checkClassDef_acceptsMethods onClass) mem
    obtain ⟨hret, onBody⟩ := checkFunDef_acceptsBody onFun
    exact ⟨fn.body, hret ▸ .method hcls hmem, hret ▸ onBody⟩
  | top => exact ⟨_, .top, onStmts⟩

/-! ## Programs -/

/-- In an accepted program jumps stand where they may. -/
theorem jumpsPlaced_of_accepted (h : (checker.check program).1 = .ok typed) :
    program.JumpsPlaced where
  loops := by
    intro ret? block hbody s inLoop hstands hkeyword
    obtain ⟨block', context, after, hok, hat, -, -⟩ := exists_checked_body h hbody
    obtain ⟨start, s', last, hs, -, hdepth⟩ := hstands.accepted hat (checkBlock_eq_ok.mp hok)
    have hloop : 0 < start.locals.loopDepth := by
      cases hs with
      | «continue» inLoop | «break» inLoop => exact of_decide_eq_true inLoop
      | _ => nomatch hkeyword
    simpa using hdepth.mp hloop
  returns := by
    intro ret? block hbody note value inLoop hstands
    obtain ⟨block', context, after, hok, hat, -, -⟩ := exists_checked_body h hbody
    obtain ⟨start, s', last, hs, htop, -⟩ := hstands.accepted hat (checkBlock_eq_ok.mp hok)
    cases hs with
    | «return» inFunction _ _ => simpa [htop] using inFunction

/-- Values that an accepted program returns are assignable to the return type. -/
theorem returnsFit_of_accepted (h : (checker.check program).1 = .ok typed) :
    typed.ReturnsFit := by
  intro ret? block' hbody note value inLoop hstands
  obtain ⟨block, hsource, context, after, hok, -, hbinds, hret⟩ := exists_source_body h hbody
  obtain ⟨s, names, hsourceStands, onStmt⟩ :=
    hstands.exists_source ((checkBlock_eq_ok.mp hok).resolves hbinds)
  cases onStmt with
  | «return» onValue =>
    have hfun := (jumpsPlaced_of_accepted h).returns hsource hsourceStands
    obtain ⟨ret, rfl⟩ := Option.isSome_iff_exists.mp hfun
    have hstores := (checkBlock_eq_ok.mp hok).stores ⟨rfl, rfl, rfl⟩
    exact ⟨ret, rfl, hret ret rfl ▸ hstands.stores hstores⟩

/-- Jumps of a checked program stand where those of the program do. -/
theorem jumpsPlaced_of_checked (h : (checker.check program).1 = .ok typed) :
    typed.JumpsPlaced where
  loops := by
    intro ret? block' hbody s' inLoop hstands hkeyword
    obtain ⟨block, hsource, context, after, hok, -, hbinds, -⟩ := exists_source_body h hbody
    obtain ⟨s, names, hsourceStands, onStmt⟩ :=
      hstands.exists_source ((checkBlock_eq_ok.mp hok).resolves hbinds)
    rw [onStmt.loopKeyword?_eq] at hkeyword
    exact (jumpsPlaced_of_accepted h).loops hsource hsourceStands hkeyword
  returns := by
    intro ret? block' hbody note value inLoop hstands
    obtain ⟨ret, rfl, -⟩ := returnsFit_of_accepted h hbody hstands
    rfl

end Typing

open Typing

/-- Whatever it knows: if a checker accepts a program, each break and continue stands in the body
of a loop of the same function, method or top level, and each return in a function or method, to
whose return type its value is assignable.  It refuses a program for a jump outside of loops only
for a break or continue around which there is no such loop, and for a return outside of functions
only for one at the top level. -/
theorem check_places_jumps (checker : Checker) (program : Program Location) :
    (∀ typed, (checker.check program).1 = .ok typed →
        program.JumpsPlaced ∧ typed.JumpsPlaced ∧ typed.ReturnsFit) ∧
      (∀ keyword location, (checker.check program).1 = .error ⟨.outsideLoop keyword, location⟩ →
        ∃ ret? block, program.HasBody ret? block ∧ ∃ s : Stmt Location, s.Stands false block ∧
          s.loopKeyword? = some keyword ∧ s.note = location) ∧
      (∀ location, (checker.check program).1 = .error ⟨.returnOutsideFunction, location⟩ →
        ∃ value inLoop, (Stmt.return location value).Stands inLoop program.stmts) := by
  have hfaults := check_refuses_for checker program
  refine ⟨?_, ?_, ?_⟩
  · intro typed hok
    exact ⟨jumpsPlaced_of_accepted hok, jumpsPlaced_of_checked hok, returnsFit_of_accepted hok⟩
  · intro keyword location hrefused
    rw [hrefused] at hfaults
    rcases hfaults with htypes | hmisplaced
    · nomatch htypes
    · cases hmisplaced with
      | outsideLoop isBody stands leaves => exact ⟨_, _, isBody, _, stands, leaves, rfl⟩
  · intro location hrefused
    rw [hrefused] at hfaults
    rcases hfaults with htypes | hmisplaced
    · nomatch htypes
    · cases hmisplaced with
      | returns stands => exact ⟨_, _, stands⟩

/-- A function that returns in a loop which it also breaks and continues. -/
def jumping : Program Location :=
  let here : Location := ⟨1, 1, ""⟩
  let yes : Expr Location := .literal here ⟨here, .bool true⟩
  let nothing : Expr Location := .literal here ⟨here, .none⟩
  ⟨here, [], [⟨here, "f", [], .none, [], [.while here yes [
    .cond here yes [.break here] [.continue here], .return here nothing]]⟩], [], []⟩

/-- A statement at the top level. -/
def aloneAtTop (s : Stmt Location) : Program Location := ⟨default, [], [], [], [s]⟩

/-- A program whose jumps are in place, a break that stands in no loop, and a return that stands in
no function. -/
theorem check_places_jumps_each :
    ∃ typed nothing, ((Checker.new .builtins).check jumping).1 = .ok typed ∧
      jumping.JumpsPlaced ∧ typed.JumpsPlaced ∧ typed.ReturnsFit ∧
      ((Checker.new .builtins).check (aloneAtTop (.break default))).1 =
        .error ⟨.outsideLoop "break", default⟩ ∧
      (∃ ret? block, (aloneAtTop (.break default)).HasBody ret? block ∧ ∃ s : Stmt Location,
        s.Stands false block ∧ s.loopKeyword? = some "break" ∧ s.note = default) ∧
      ((Checker.new .builtins).check (aloneAtTop (.return default nothing))).1 =
        .error ⟨.returnOutsideFunction, default⟩ ∧
      ∃ value inLoop, (Stmt.return default value).Stands inLoop
        (aloneAtTop (.return default nothing)).stmts := by
  obtain ⟨onAccepted, -, -⟩ := check_places_jumps (.new .builtins) jumping
  obtain ⟨hsource, htyped, hfit⟩ := onAccepted _ rfl
  obtain ⟨-, onBreak, -⟩ := check_places_jumps (.new .builtins) (aloneAtTop (.break default))
  obtain ⟨-, -, onReturn⟩ := check_places_jumps (.new .builtins)
    (aloneAtTop (.return default (.literal default ⟨default, .none⟩)))
  exact ⟨_, .literal default ⟨default, .none⟩, rfl, hsource, htyped, hfit, rfl,
    onBreak "break" default rfl, rfl, onReturn default rfl⟩

end Offside
