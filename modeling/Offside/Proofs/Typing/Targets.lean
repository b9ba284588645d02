import Offside.Proofs.Lowering.LowersWritable
import Offside.Proofs.Typing.Constructors

/-!
# Where values go

A value goes to a target when it is assigned to a variable or field, returned, passed as an argument
or matched with the variable of a loop.  In an accepted program it is assignable there.  All targets
have writable types, and so the types that the checker makes go nowhere, but for generators, which
may stand for objects of the class `generator`.

Main definitions:

- `Expr.Passes`, `Stmt.Stores` and `Program.Stores`: values and targets go together.
- `Ty.Settles`: how they do with writable targets.

Main results:

- Theorem `Stmt.ChecksAll.stores`: in accepted statements values are assignable to their targets.
- Theorem `check_stores`: so they are in accepted programs.
- Theorem `session_stores`: throughout a session over sources all known types are writable, and
  no either, no set and no generator goes anywhere else than to the class `generator`.
-/

namespace Offside

open Typing

/-! ## Values and targets -/

section Definitions

-- `R` is how the type of a value and that of its target go together.
variable (R : Ty → Ty → Prop) (env : Env)

/-- Arguments go with parameters, in number and one by one. -/
def PassesEach (arguments : List (Expr Typed)) (parameters : List Ty) : Prop :=
  List.Forall₂ (fun argument parameter => R argument.ty parameter) arguments parameters

/-- The arguments of a call go with the parameters of what is called: of a function, of the
constructor of a class behind the receiver, or of a method, with the object as the receiver.  What
is printed goes nowhere. -/
def Expr.Passes : Expr Typed → Prop
  | .builtin1 _ name argument => name ≠ "print" →
    ∃ signature, env.function? name = some signature ∧ PassesEach R [argument] signature.parameters
  | .builtin2 _ name left right => ∃ signature, env.function? name = some signature ∧
    PassesEach R [left, right] signature.parameters
  | .call _ name _ arguments => ∃ signature, env.function? name = some signature ∧
    PassesEach R arguments signature.parameters
  | .construct _ name arguments => ∃ cls constructor, env.class? name = some cls ∧
    Table.find? cls.methods "__init__" = some constructor ∧
    PassesEach R arguments constructor.parameters.tail
  | .methodCall _ object method arguments => ∃ name cls signature,
    object.ty.className? = some name ∧ env.class? name = some cls ∧
    Table.find? cls.methods method = some signature ∧
    PassesEach R (object :: arguments) signature.parameters
  | _ => True

/-- A value goes with a variable: of the body, or else of the module. -/
def StoresIn (vars : Table Ty) (name : String) (value : Ty) : Prop :=
  ∃ target, (Table.find? vars name).or (env.global? name) = some target ∧ R value target

/-- A value goes with a field of an object. -/
def StoresInField (object : Ty) (field : String) (value : Ty) : Prop :=
  ∃ name cls target, object.className? = some name ∧ env.class? name = some cls ∧
    Table.find? cls.fields field = some target ∧ R value target

mutual

/-- In a statement of a body with some variables and a return type, what is assigned goes with its
variable or field, what is returned with the return type, and what a loop goes through with the
variable of the loop. -/
def Stmt.Stores (vars : Table Ty) (ret : Ty) : Stmt Typed → Prop
  | .assign _ name value => StoresIn R env vars name value.ty
  | .fieldAssign _ object field value => StoresInField R env object.ty field value.ty
  | .return _ value => R value.ty ret
  | .cond _ _ body otherwise =>
    Stmt.StoreAll vars ret body ∧ Stmt.StoreAll vars ret otherwise
  | .while _ _ body => Stmt.StoreAll vars ret body
  | .for _ item iterable body otherwise =>
    (∃ element, env.element? iterable.ty = some element ∧ StoresIn R env vars item element) ∧
      Stmt.StoreAll vars ret body ∧ Stmt.StoreAll vars ret otherwise
  | .indexAssign .. | .expr .. | .pass _ | .continue _ | .break _ => True

/-- So it is in all statements of a block. -/
def Stmt.StoreAll (vars : Table Ty) (ret : Ty) : List (Stmt Typed) → Prop
  | [] => True
  | first :: rest => first.Stores vars ret ∧ Stmt.StoreAll vars ret rest

end

/-- The first value of a variable or field goes with its type. -/
def VarInit.Stores (init : VarInit Typed) : Prop := R init.value.note.ty init.ty

/-- The variables of the body of a function. -/
def FunDef.variables {α : Type} (fn : FunDef α) : Table Ty :=
  Table.insertAll
    (Table.insertAll [] (fn.parameters.map fun parameter => (parameter.name, parameter.ty)))
    (fn.inits.map fun init => (init.name, init.ty))

/-- Values go with their targets in a function. -/
structure FunDef.Stores (fn : FunDef Typed) : Prop where
  inits : ∀ init ∈ fn.inits, init.Stores R
  body : Stmt.StoreAll R env fn.variables fn.ret fn.body

/-- Values go with their targets in a class. -/
structure ClassDef.Stores (cls : ClassDef Typed) : Prop where
  fields : ∀ field ∈ cls.fields, field.Stores R
  methods : ∀ method ∈ cls.methods, method.Stores R env

/-- Values go with their targets in a program: whatever is passed, assigned, returned or matched
with the variable of a loop.  At the top level all variables are those of the module. -/
structure Program.Stores (program : Program Typed) : Prop where
  passes : program.All (Expr.Passes R env)
  inits : ∀ init ∈ program.inits, init.Stores R
  funs : ∀ fn ∈ program.funs, fn.Stores R env
  classes : ∀ cls ∈ program.classes, cls.Stores R env
  stmts : Stmt.StoreAll R env [] .none program.stmts

end Definitions

/-- A value of a type may stand where another type is expected. -/
abbrev Ty.Assignable (value target : Ty) : Prop := value.isAssignable target = true

namespace Typing

/-! ## What the checker accepts -/

/-- Arguments that fit their parameters are passed to them. -/
theorem passesEach_of_fitsEach {parameters : List Ty} {arguments : List (Expr Typed)}
    (h : FitsEach parameters arguments) : PassesEach Ty.Assignable arguments parameters := h.flip

/-- Every known class has a constructor. -/
def KnowsConstructors (env : Env) : Prop :=
  ∀ name cls, env.class? name = some cls → ∃ constructor,
    Table.find? cls.methods "__init__" = some constructor

/-- What obeys the rules passes arguments that are assignable to their parameters. -/
theorem passes_of_obeys {env : Env} (hclasses : KnowsConstructors env) {e : Expr Typed}
    (h : e.Obeys env) : e.Passes Ty.Assignable env := by
  cases e with
  | builtin1 note name argument =>
    intro hprint
    rw [Expr.Obeys, builtinCall_eq_ok, if_neg hprint, functionCall_eq_ok] at h
    obtain ⟨signature, hfound, hfits, -⟩ := h
    exact ⟨signature, hfound, passesEach_of_fitsEach hfits⟩
  | builtin2 note name left right =>
    obtain ⟨signature, hfound, hfits, -⟩ := functionCall_eq_ok.mp h
    exact ⟨signature, hfound, passesEach_of_fitsEach hfits⟩
  | call note name genericArgs arguments =>
    obtain ⟨signature, hfound, hfits, -⟩ := functionCall_eq_ok.mp h.2
    exact ⟨signature, hfound, passesEach_of_fitsEach hfits⟩
  | construct note name arguments =>
    obtain ⟨cls, hcls, hnew, -⟩ := h
    obtain ⟨constructor, hfound⟩ := hclasses name cls hcls
    exact ⟨cls, constructor, hcls, hfound,
      passesEach_of_fitsEach (construction_eq_ok.mp hnew constructor hfound).1⟩
  | methodCall note object method arguments =>
    obtain ⟨name, cls, signature, hname, hcls, hfound, hfits, -⟩ := methodCall_eq_ok.mp h
    exact ⟨name, cls, signature, hname, hcls, hfound, passesEach_of_fitsEach hfits⟩
  | _ => trivial

/-- What a statement needs to know of the body it stands in. -/
structure Context.InBody (context : Context) (env : Env) (vars : Table Ty) (ret : Ty) : Prop where
  env_eq : context.checker.env = env
  vars_eq : context.locals.vars = vars
  ret_eq : context.locals.expectedRet = ret

namespace Context.InBody

variable {context : Context} {env : Env} {vars : Table Ty} {ret : Ty}

/-- Names that are handed out leave the body as it is known. -/
theorem handOut (h : context.InBody env vars ret) (items : List String) :
    (context.handOut items).InBody env vars ret := ⟨h.env_eq, h.vars_eq, h.ret_eq⟩

/-- So does what is returned. -/
theorem returning (h : context.InBody env vars ret) (actualRet : Ty) :
    (context.returning actualRet).InBody env vars ret := ⟨h.env_eq, h.vars_eq, h.ret_eq⟩

/-- So does a loop that is entered. -/
theorem enterLoop (h : context.InBody env vars ret) : context.enterLoop.InBody env vars ret :=
  ⟨h.env_eq, h.vars_eq, h.ret_eq⟩

/-- So does a loop that is left. -/
theorem leaveLoop (h : context.InBody env vars ret) : context.leaveLoop.InBody env vars ret :=
  ⟨h.env_eq, h.vars_eq, h.ret_eq⟩

/-- A statement stays in its body. -/
theorem move (h : context.InBody env vars ret) {items : List String} {after : Context}
    (hmove : BodyMove items context after) : after.InBody env vars ret := by
  obtain ⟨_, rfl⟩ := hmove
  exact ⟨h.env_eq, h.vars_eq, h.ret_eq⟩

/-- An assignment that is accepted stores in a variable. -/
theorem storesIn (h : context.InBody env vars ret) {name : String} {target value : Ty}
    (htarget : context.var? name = some target) (hvalue : value.Assignable target) :
    StoresIn Ty.Assignable env vars name value := by
  rw [Context.var?, h.vars_eq, h.env_eq] at htarget
  exact ⟨target, htarget, hvalue⟩

end Context.InBody

end Typing

mutual

/-- In an accepted statement values are assignable to their targets. -/
theorem Stmt.Checks.stores {s : Stmt Location} {env : Env} {vars : Table Ty} {ret : Ty}
    {context after : Context} {s' : Stmt Typed} (h : s.Checks context s' after)
    (hbody : context.InBody env vars ret) : s'.Stores Ty.Assignable env vars ret := by
  match h with
  | .assign _ declared fits => exact hbody.storesIn declared (storable_eq_ok.mp fits)
  | .fieldAssign _ _ gives fits =>
    obtain ⟨name, cls, hname, hcls, hfield⟩ := fieldType_eq_ok.mp gives
    exact ⟨name, cls, _, hname, hbody.env_eq ▸ hcls, hfield, storable_eq_ok.mp fits⟩
  | .return _ _ fits => exact hbody.ret_eq ▸ fits
  | .cond _ _ onBody onOtherwise =>
    have hbehind := (hbody.handOut _).move onBody.move
    exact ⟨onBody.stores (hbody.handOut _), onOtherwise.stores (hbehind.returning .none)⟩
  | .while _ _ onBody => exact onBody.stores (hbody.handOut _).enterLoop
  | .for _ yields declared fits onBody onOtherwise =>
    have hbehind := (hbody.handOut _).enterLoop.move onBody.move
    exact ⟨⟨_, hbody.env_eq ▸ expectIterable_eq_ok.mp yields,
        hbody.storesIn declared (storable_eq_ok.mp fits)⟩,
      onBody.stores (hbody.handOut _).enterLoop, onOtherwise.stores hbehind.leaveLoop⟩
  | .indexAssign .. | .expr _ | .pass | .continue _ | .break _ => trivial

/-- In accepted statements values are assignable to their targets. -/
theorem Stmt.ChecksAll.stores {block : List (Stmt Location)} {env : Env} {vars : Table Ty}
    {ret : Ty} {context after : Context} {block' : List (Stmt Typed)}
    (h : Stmt.ChecksAll context block block' after) (hbody : context.InBody env vars ret) :
    Stmt.StoreAll Ty.Assignable env vars ret block' := by
  match h with
  | .nil => trivial
  | .cons onFirst onRest =>
    exact ⟨onFirst.stores hbody, onRest.stores (hbody.move onFirst.move)⟩

end

namespace Typing

/-- First values are assignable. -/
theorem checkInits_stores {inits : List (VarInit Location)} {inits' : List (VarInit Typed)}
    (h : checkInits inits = .ok inits') : ∀ init ∈ inits', init.Stores Ty.Assignable := by
  unfold checkInits at h
  induction inits generalizing inits' with
  | nil =>
    rw [List.mapM_nil] at h
    cases h
    exact nofun
  | cons init rest ih =>
    simp only [List.mapM_cons, verdict_bind_eq_ok, verdict_pure_eq_ok] at h
    obtain ⟨first, hfirst, rest', hrest, rfl⟩ := h
    simp only [checkInit, verdict_bind_eq_ok, storable_eq_ok, verdict_pure_eq_ok] at hfirst
    obtain ⟨_, hstore, rfl⟩ := hfirst
    exact List.forall_mem_cons.mpr ⟨hstore, ih hrest⟩

/-- Declarations of variables keep their types. -/
theorem checkInits_writable {inits : List (VarInit Location)} {inits' : List (VarInit Typed)}
    (h : checkInits inits = .ok inits') (hinits : ∀ init ∈ inits, init.ty.Writable) :
    ∀ init ∈ inits', init.ty.Writable := by
  rw [← checkInits_eq_ok h, List.forall_mem_map] at hinits
  exact hinits

/-- In an accepted function values are assignable to their targets. -/
theorem checkFunDef_stores (fn : FunDef Location) {checker after : Checker} {fn' : FunDef Typed}
    (h : outcome (checkFunDef fn) checker = (.ok fn', after)) :
    fn'.Stores Ty.Assignable checker.env := by
  obtain ⟨hinits, ⟨last, hblock, -⟩, hfn⟩ := checkFunDef_eq_ok h
  have hvars : (bodyLocals fn).vars = fn'.variables := by
    rw [hfn, bodyLocals, FunDef.variables, ← checkInits_eq_ok hinits, List.map_map]
    rfl
  have hret : (bodyLocals fn).expectedRet = fn'.ret := by
    rw [hfn]
    rfl
  exact ⟨checkInits_stores hinits, (checkBlock_eq_ok.mp hblock).stores ⟨rfl, hvars, hret⟩⟩

/-- A function with writable types keeps them when it is checked. -/
theorem checkFunDef_writable (fn : FunDef Location) {checker after : Checker} {fn' : FunDef Typed}
    (hfn : fn.Writable) (h : outcome (checkFunDef fn) checker = (.ok fn', after)) :
    fn'.Writable := by
  obtain ⟨hinits, -, heq⟩ := checkFunDef_eq_ok h
  rw [heq]
  exact ⟨hfn.parameters, hfn.ret, checkInits_writable hinits hfn.inits⟩

/-- In an accepted class values are assignable to their targets. -/
theorem checkClassDef_stores (cls : ClassDef Location) {checker after : Checker}
    {cls' : ClassDef Typed} (h : outcome (checkClassDef cls) checker = (.ok cls', after)) :
    cls'.Stores Ty.Assignable checker.env := by
  obtain ⟨hfields, hmethods, -, -⟩ := checkClassDef_eq_ok h
  refine ⟨checkInits_stores hfields, ?_⟩
  exact mapM_obeys (P := fun _ => True) (Q := fun env fn => fn.Stores Ty.Assignable env)
    checkFunDef_handsOut (fun fn _ _ _ _ => checkFunDef_stores fn) (fun _ _ => trivial) hmethods

/-- So does a class. -/
theorem checkClassDef_writable (cls : ClassDef Location) {checker after : Checker}
    {cls' : ClassDef Typed} (hcls : cls.Writable)
    (h : outcome (checkClassDef cls) checker = (.ok cls', after)) : cls'.Writable := by
  obtain ⟨hfields, hmethods, -, -⟩ := checkClassDef_eq_ok h
  exact ⟨checkInits_writable hfields hcls.fields,
    mapM_obeys (Q := fun _ fn => fn.Writable) checkFunDef_handsOut
      (fun fn => checkFunDef_writable fn) hcls.methods hmethods⟩

/-- In an accepted program values are assignable to their targets. -/
theorem check_stores {checker after : Checker} {program : Program Location} {typed : Program Typed}
    (hform : program.All Expr.NotCreation) (h : checker.check program = (.ok typed, after))
    (hclasses : KnowsConstructors (checker.env.augment program)) :
    typed.Stores Ty.Assignable (checker.env.augment program) := by
  have hpasses := (check_obeys hform h).mono fun _ => passes_of_obeys hclasses
  have hrun := check_eq_ok.mp h
  simp only [checkParts, outcome_bind_ok, outcome_lift, outcome_pure, Prod.mk.injEq,
    Except.ok.injEq] at hrun
  obtain ⟨inits', _, ⟨hinits, rfl⟩, funs', _, hfuns, classes', _, hclassDefs, stmts', _, hstmts,
    rfl, rfl⟩ := hrun
  have onFuns := mapM_obeys (P := fun _ => True) (Q := fun env fn => fn.Stores Ty.Assignable env)
    checkFunDef_handsOut (fun fn _ _ _ _ => checkFunDef_stores fn) (fun _ _ => trivial) hfuns
  obtain rfl := (HandsOut.mapM checkFunDef_handsOut program.funs).moves_of_ok hfuns
  have onClasses := mapM_obeys (P := fun _ => True)
    (Q := fun env cls => cls.Stores Ty.Assignable env) checkClassDef_handsOut
    (fun cls _ _ _ _ => checkClassDef_stores cls) (fun _ _ => trivial) hclassDefs
  obtain rfl := (HandsOut.mapM checkClassDef_handsOut program.classes).moves_of_ok hclassDefs
  obtain ⟨last, hblock⟩ := checkTop_eq_ok hstmts
  exact ⟨hpasses, checkInits_stores hinits, onFuns, onClasses,
    (checkBlock_eq_ok.mp hblock).stores ⟨rfl, rfl, rfl⟩⟩

/-- An accepted program has the types of the program that was checked. -/
theorem check_writable {checker after : Checker} {program : Program Location}
    {typed : Program Typed} (hprogram : program.Writable)
    (h : checker.check program = (.ok typed, after)) : typed.Writable := by
  have hrun := check_eq_ok.mp h
  simp only [checkParts, outcome_bind_ok, outcome_lift, outcome_pure, Prod.mk.injEq,
    Except.ok.injEq] at hrun
  obtain ⟨inits', _, ⟨hinits, rfl⟩, funs', _, hfuns, classes', _, hclasses, stmts', _, -, rfl,
    rfl⟩ := hrun
  exact ⟨checkInits_writable hinits hprogram.inits,
    mapM_obeys (Q := fun _ fn => fn.Writable) checkFunDef_handsOut
      (fun fn => checkFunDef_writable fn) hprogram.funs hfuns,
    mapM_obeys (Q := fun _ cls => cls.Writable) checkClassDef_handsOut
      (fun cls => checkClassDef_writable cls) hprogram.classes hclasses⟩

end Typing

/-! ## Writable targets -/

/-- A value settles at a target: it is no either and no set, and if it is a generator, the target is
an object of the class `generator`. -/
structure Ty.Settles (value target : Ty) : Prop where
  noEither : ∀ left right, value ≠ .either left right
  noSet : ∀ element, value ≠ .set element
  generator : ∀ element, value = .generator element →
    ∃ arguments, target = .object "generator" arguments

/-- What is assignable to a writable type settles there: the types that the checker makes are
assignable to their own kind alone, but for generators. -/
theorem Ty.Writable.settles {value target : Ty} (htarget : target.Writable)
    (h : value.Assignable target) : value.Settles target where
  noEither := by
    rintro left right rfl
    cases target <;> simp_all [Ty.Writable, Ty.Assignable, isAssignable, agrees, same]
  noSet := by
    rintro element rfl
    cases target <;> simp_all [Ty.Writable, Ty.Assignable, isAssignable, agrees, same]
  generator := by
    rintro element rfl
    cases target with
    | object name arguments =>
      have hname : name = "generator" := of_decide_eq_true h
      exact ⟨arguments, hname ▸ rfl⟩
    | generator => exact htarget.elim
    | _ => simp [Ty.Assignable, isAssignable, agrees, same] at h

section Mono

variable {R R' : Ty → Ty → Prop} {env : Env}
  (himp : ∀ value target : Ty, target.Writable → R value target → R' value target)
  (henv : env.Writable)

include himp in
/-- What is asked of arguments may be weakened where the parameters are writable. -/
theorem PassesEach.mono {arguments : List (Expr Typed)} {parameters : List Ty}
    (h : PassesEach R arguments parameters) (hparameters : ∀ ty ∈ parameters, ty.Writable) :
    PassesEach R' arguments parameters := by
  induction h with
  | nil => exact .nil
  | cons hfirst _ ih =>
    rw [List.forall_mem_cons] at hparameters
    exact .cons (himp _ _ hparameters.1 hfirst) (ih hparameters.2)

/-- A function of a writable environment has a writable signature. -/
theorem Env.Writable.function? (henv : env.Writable) {name : String} {signature : Signature}
    (h : env.function? name = some signature) : signature.Writable :=
  henv.functions _ (Table.mem_of_find? h)

/-- A class of a writable environment is writable. -/
theorem Env.Writable.class? (henv : env.Writable) {name : String} {cls : ClassInfo}
    (h : env.class? name = some cls) : cls.Writable :=
  henv.classes _ (Table.mem_of_find? h)

/-- A method of a writable class has a writable signature. -/
theorem ClassInfo.Writable.method? {cls : ClassInfo} (hcls : cls.Writable) {name : String}
    {signature : Signature} (h : Table.find? cls.methods name = some signature) :
    signature.Writable :=
  hcls.methods _ (Table.mem_of_find? h)

include himp henv

/-- The parameters of all that is called are writable. -/
theorem Expr.Passes.mono {e : Expr Typed} (h : e.Passes R env) : e.Passes R' env := by
  cases e with
  | builtin1 note name argument =>
    intro hprint
    obtain ⟨signature, hfound, heach⟩ := h hprint
    exact ⟨signature, hfound, heach.mono himp (henv.function? hfound).parameters⟩
  | builtin2 | call =>
    obtain ⟨signature, hfound, heach⟩ := h
    exact ⟨signature, hfound, heach.mono himp (henv.function? hfound).parameters⟩
  | construct note name arguments =>
    obtain ⟨cls, constructor, hcls, hfound, heach⟩ := h
    have hconstructor := (henv.class? hcls).method? hfound
    exact ⟨cls, constructor, hcls, hfound,
      heach.mono himp fun ty hty => hconstructor.parameters ty (List.mem_of_mem_tail hty)⟩
  | methodCall note object method arguments =>
    obtain ⟨name, cls, signature, hname, hcls, hfound, heach⟩ := h
    exact ⟨name, cls, signature, hname, hcls, hfound,
      heach.mono himp ((henv.class? hcls).method? hfound).parameters⟩
  | _ => trivial

/-- So are all variables. -/
theorem StoresIn.mono {vars : Table Ty} {name : String} {value : Ty}
    (hvars : ∀ entry ∈ vars, entry.2.Writable) (h : StoresIn R env vars name value) :
    StoresIn R' env vars name value := by
  obtain ⟨target, hfound, hvalue⟩ := h
  refine ⟨target, hfound, himp _ _ ?_ hvalue⟩
  rcases Option.or_eq_some_iff.mp hfound with hlocal | ⟨-, hglobal⟩
  · exact hvars _ (Table.mem_of_find? hlocal)
  · exact henv.globals _ (Table.mem_of_find? hglobal)

/-- So are all fields. -/
theorem StoresInField.mono {object : Ty} {field : String} {value : Ty}
    (h : StoresInField R env object field value) : StoresInField R' env object field value := by
  obtain ⟨name, cls, target, hname, hcls, hfound, hvalue⟩ := h
  have htarget := (henv.class? hcls).fields _ (Table.mem_of_find? hfound)
  exact ⟨name, cls, target, hname, hcls, hfound, himp _ _ htarget hvalue⟩

end Mono

mutual

/-- What is asked of the values and targets of a statement may be weakened. -/
theorem Stmt.Stores.mono {R R' : Ty → Ty → Prop} {env : Env} {vars : Table Ty} {ret : Ty}
    (himp : ∀ value target : Ty, target.Writable → R value target → R' value target)
    (henv : env.Writable) (hvars : ∀ entry ∈ vars, entry.2.Writable) (hret : ret.Writable)
    {s : Stmt Typed} (h : s.Stores R env vars ret) : s.Stores R' env vars ret := by
  match s, h with
  | .assign .., h => exact StoresIn.mono himp henv hvars h
  | .fieldAssign .., h => exact StoresInField.mono himp henv h
  | .return .., h => exact himp _ _ hret h
  | .cond .., h => exact ⟨h.1.mono himp henv hvars hret, h.2.mono himp henv hvars hret⟩
  | .while .., h => exact Stmt.StoreAll.mono himp henv hvars hret h
  | .for .., ⟨⟨element, helement, hstore⟩, hbody, hotherwise⟩ =>
    exact ⟨⟨element, helement, hstore.mono himp henv hvars⟩, hbody.mono himp henv hvars hret,
      hotherwise.mono himp henv hvars hret⟩
  | .indexAssign .., _ | .expr .., _ | .pass _, _ | .continue _, _ | .break _, _ => trivial

/-- So it may be for statements in a row. -/
theorem Stmt.StoreAll.mono {R R' : Ty → Ty → Prop} {env : Env} {vars : Table Ty} {ret : Ty}
    (himp : ∀ value target : Ty, target.Writable → R value target → R' value target)
    (henv : env.Writable) (hvars : ∀ entry ∈ vars, entry.2.Writable) (hret : ret.Writable)
    {block : List (Stmt Typed)} (h : Stmt.StoreAll R env vars ret block) :
    Stmt.StoreAll R' env vars ret block := by
  match block, h with
  | [], _ => trivial
  | _ :: _, h => exact ⟨h.1.mono himp henv hvars hret, h.2.mono himp henv hvars hret⟩

end

section Mono

variable {R R' : Ty → Ty → Prop} {env : Env}
  (himp : ∀ value target : Ty, target.Writable → R value target → R' value target)
  (henv : env.Writable)

include himp in
/-- So it may be for a declared variable. -/
theorem VarInit.Stores.mono {init : VarInit Typed} (h : init.Stores R) (hinit : init.ty.Writable) :
    init.Stores R' :=
  himp _ _ hinit h

/-- The variables of a function are its parameters and the variables it declares. -/
theorem FunDef.Writable.variables {α : Type} {fn : FunDef α} (h : fn.Writable) :
    ∀ entry ∈ fn.variables, entry.2.Writable :=
  Table.forall_insertAll (Table.forall_insertAll nofun (List.forall_mem_map.mpr h.parameters))
    (List.forall_mem_map.mpr h.inits)

include himp henv

/-- So it may be for a function. -/
theorem FunDef.Stores.mono {fn : FunDef Typed} (h : fn.Stores R env) (hfn : fn.Writable) :
    fn.Stores R' env where
  inits init hinit := (h.inits init hinit).mono himp (hfn.inits init hinit)
  body := h.body.mono himp henv hfn.variables hfn.ret

/-- So it may be for a class. -/
theorem ClassDef.Stores.mono {cls : ClassDef Typed} (h : cls.Stores R env) (hcls : cls.Writable) :
    cls.Stores R' env where
  fields field hfield := (h.fields field hfield).mono himp (hcls.fields field hfield)
  methods fn hfn := (h.methods fn hfn).mono himp henv (hcls.methods fn hfn)

/-- How values go with writable targets, they go with the targets of a program whose types are
writable. -/
theorem Program.Stores.mono {program : Program Typed} (h : program.Stores R env)
    (hprogram : program.Writable) : program.Stores R' env where
  passes := Program.All.mono (fun _ hpasses => hpasses.mono himp henv) h.passes
  inits init hinit := (h.inits init hinit).mono himp (hprogram.inits init hinit)
  funs fn hfn := (h.funs fn hfn).mono himp henv (hprogram.funs fn hfn)
  classes cls hcls := (h.classes cls hcls).mono himp henv (hprogram.classes cls hcls)
  stmts :=
    have hvars : ∀ entry ∈ ([] : Table Ty), entry.2.Writable := nofun
    have hret : Ty.none.Writable := trivial
    h.stmts.mono himp henv hvars hret

end Mono

/-! ## Sessions over sources -/

/-- Programs with writable types, one after another, keep an environment writable. -/
theorem foldl_augment_writable {env : Env} (henv : env.Writable)
    {programs : List (Program Location)} (hprograms : ∀ program ∈ programs, program.Writable) :
    (programs.foldl Env.augment env).Writable := by
  induction programs generalizing env with
  | nil => exact henv
  | cons program rest ih =>
    rw [List.forall_mem_cons] at hprograms
    exact ih (henv.augment hprograms.1) hprograms.2

/-- A session over programs with writable types keeps its environment writable. -/
theorem session_writable {checker : Checker} {programs : List (Program Location)}
    (henv : checker.env.Writable) (hprograms : ∀ program ∈ programs, program.Writable) :
    (checker.session programs).2.env.Writable := by
  rw [foldl_augment_session]
  refine foldl_augment_writable henv fun program hprogram => ?_
  rcases List.mem_map.mp hprogram with ⟨⟨_, verdict⟩, hentry, rfl⟩
  exact hprograms _ (List.of_mem_zip (List.mem_of_mem_filter hentry)).1

/-- All types that can be written in a source are writable. -/
theorem parsedPrograms_writable {sources : List Source} :
    ∀ program ∈ parsedPrograms sources, program.Writable := by
  intro program hprogram
  obtain ⟨source, -, hsource⟩ := exists_source_of_mem hprogram
  exact parseProgram_writable hsource

/-- The classes of an accepted program have constructors. -/
theorem constructors_ne_nil {checker after : Checker} {program : Program Location}
    {typed : Program Typed} (h : checker.check program = (.ok typed, after)) :
    ∀ cls ∈ program.classes, cls.constructors ≠ [] := by
  intro cls hcls hnone
  obtain ⟨first, hfirst, -⟩ := check_constructors h cls hcls
  rw [hnone] at hfirst
  nomatch hfirst

/-- All classes known after a session have constructors, if those known before have. -/
theorem session_classesFrom {checker : Checker} {programs : List (Program Location)}
    (h : checker.env.ClassesFrom fun cls => cls.constructors ≠ []) :
    (checker.session programs).2.env.ClassesFrom fun cls => cls.constructors ≠ [] := by
  refine (session_classes h fun program hprogram => ?_).1
  obtain ⟨_, _, _, hcheck⟩ := exists_check_of_accepted hprogram
  exact constructors_ne_nil hcheck

/-- The constructors of classes that have one are known. -/
theorem Env.ClassesFrom.knowsConstructors {env : Env}
    (h : env.ClassesFrom fun cls => cls.constructors ≠ []) : KnowsConstructors env := by
  intro name info hinfo
  obtain ⟨cls, hconstructors, -, rfl⟩ := h name info hinfo
  rw [find?_info_constructor, List.getLast?_eq_some_getLast hconstructors]
  exact ⟨_, rfl⟩

/-- Throughout a session over sources, all types in the environment are writable: no either, no set
and no generator occurs in it at any depth.  And in every program that is accepted, no either and no
set is assigned to a variable or field, returned, passed as an argument or matched with the
variable of a loop, and no generator except where an object of the class `generator` is
expected. -/
theorem session_stores (sources : List Source) :
    let checker := ((Checker.new .builtins).session (parsedPrograms sources)).2
    checker.env.Writable ∧
      ∀ source program typed after, parseProgram source = .ok program →
        checker.check program = (.ok typed, after) →
          after.env.Writable ∧ typed.Stores Ty.Settles after.env := by
  intro checker
  have henv : checker.env.Writable :=
    session_writable Env.builtins_writable parsedPrograms_writable
  have hclasses : checker.env.ClassesFrom fun cls => cls.constructors ≠ [] :=
    session_classesFrom fun _ _ => nofun
  refine ⟨henv, fun source program typed after hparse hcheck => ?_⟩
  have hwritable := parseProgram_writable hparse
  have hform : program.All Expr.NotCreation :=
    (parseProgram_spelled hparse).mono fun _ => Expr.Spelled.notCreation
  have hafter : after.env = checker.env.augment program := by
    have hsame := check_env checker program
    rwa [hcheck] at hsame
  have hconstructors := (hclasses.augment (constructors_ne_nil hcheck)).knowsConstructors
  have hstores := check_stores hform hcheck hconstructors
  have haugment := henv.augment hwritable
  rw [hafter]
  exact ⟨haugment, hstores.mono (fun _ _ htarget => htarget.settles) haugment
    (check_writable hwritable hcheck)⟩

/-- A function that takes an object of the class `generator`. -/
def takesGenerator : Source := "def count(xs : generator) -> int:\n    return 1\n".toList

/-- A call of that function with a generator. -/
def passesGenerator : Source := "count((x for x in [1]))\n".toList

/-- The call is accepted, and the generator goes to the class `generator`. -/
theorem session_stores_generator :
    let checker := ((Checker.new .builtins).session (parsedPrograms [takesGenerator])).2
    ∃ program typed after, parseProgram passesGenerator = .ok program ∧
      checker.check program = (.ok typed, after) ∧ typed.stmts ≠ [] ∧
        typed.Stores Ty.Settles after.env := by
  intro checker
  have hrun : ((parseProgram passesGenerator).toOption.bind fun program =>
      (checker.check program).1.toOption).any (fun typed => !typed.stmts.isEmpty) = true := by
    decide +kernel
  cases hparse : parseProgram passesGenerator with
  | error failure => simp [hparse, Except.toOption] at hrun
  | ok program =>
    rcases hcheck : checker.check program with ⟨diagnostic | typed, after⟩
    · simp [hparse, hcheck, Except.toOption] at hrun
    · have hstmts : typed.stmts ≠ [] := by
        simpa [hparse, hcheck, Except.toOption] using hrun
      exact ⟨program, typed, after, rfl, hcheck, hstmts,
        ((session_stores [takesGenerator]).2 _ program typed after hparse hcheck).2⟩

end Offside
