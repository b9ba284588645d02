import Offside.Proofs.Lowering.LowersSpelled
import Offside.Proofs.Typing.Sessions
import Offside.Proofs.Typing.WellTyped
import Mathlib.Data.List.Induction

/-!
# Constructors

A class that is accepted has a method with the name of the constructor, and the first of these has
the signature of a constructor.  What counts afterwards is the last of them: its signature is kept
in the environment, and objects are created with arguments for it.

Main definitions:

- `ClassDef.constructors`: the methods of a class with the name of the constructor.
- `ClassInfo.HasConstructor`: the constructor known of a class has the signature of one.

Main results:

- Theorem `find?_info_constructor`: the constructor known of a class is the last one.
- Theorem `check_hasConstructor`: a class with one constructor only is known with its signature.
- Theorem `session_classes`: what all classes of accepted programs have, all known classes have.
- Theorem `session_constructors`: the constructors known after a session, and the creations of
  objects in it.
-/

namespace Offside

open Typing

/-! ## The constructors of a class -/

/-- The methods of a class with the name of the constructor, in order. -/
def ClassDef.constructors {α : Type} (cls : ClassDef α) : List (FunDef α) :=
  cls.methods.filter fun method => method.name = "__init__"

/-- The signature of the constructor of a class: one parameter, of the class, and no result. -/
def Signature.IsConstructor (signature : Signature) (className : String) : Prop :=
  ∃ arguments, signature = ⟨[.object className arguments], .none⟩

/-- The constructor known of a class has the signature of one. -/
def ClassInfo.HasConstructor (info : ClassInfo) (className : String) : Prop :=
  ∃ signature, Table.find? info.methods "__init__" = some signature ∧
    signature.IsConstructor className

/-- A method that is accepted as a constructor has the signature of one. -/
theorem isConstructor_signature {α : Type} {className : String} {method : FunDef α}
    (h : isConstructor className method = true) : method.signature.IsConstructor className := by
  unfold isConstructor at h
  split at h
  · next self hself =>
    simp only [Bool.and_eq_true, decide_eq_true_eq] at h
    obtain ⟨⟨-, hty⟩, hret⟩ := h
    rcases self with ⟨name, ty⟩
    cases ty <;> simp only [Ty.same, Ty.plain, Bool.false_eq_true, decide_eq_true_eq] at hty
    cases hret' : method.ret <;> rw [hret'] at hret <;>
      simp only [Ty.same, Bool.false_eq_true] at hret
    exact ⟨_, by rw [FunDef.signature, hself, hret', hty]; rfl⟩
  · cases h

/-- Of several entries that are set, the last one with a name is found. -/
theorem find?_reverse_map {α β : Type} (nameOf : α → String) (valueOf : α → β)
    (entries : List α) (name : String) :
    Table.find? (entries.map fun entry => (nameOf entry, valueOf entry)).reverse name =
      ((entries.filter fun entry => nameOf entry = name).getLast?).map valueOf := by
  induction entries using List.reverseRecOn with
  | nil => rfl
  | append_singleton entries last ih =>
    rw [List.map_append, List.reverse_append, List.map_singleton, List.reverse_singleton,
      List.singleton_append, Table.find?_cons, ih, List.filter_append]
    by_cases hname : nameOf last = name
    · simp [hname]
    · simp [hname, Ne.symm hname]

/-- The constructor known of a class is the last one. -/
theorem find?_info_constructor {α : Type} (cls : ClassDef α) :
    Table.find? cls.info.methods "__init__" =
      cls.constructors.getLast?.map FunDef.signature := by
  rw [ClassDef.info, Table.find?_insertAll, Table.find?_nil, Option.or_none]
  exact find?_reverse_map FunDef.name FunDef.signature cls.methods "__init__"

/-- The constructor known of a class has the signature of one exactly if the last one does. -/
theorem hasConstructor_info {α : Type} (cls : ClassDef α) (className : String) :
    cls.info.HasConstructor className ↔ ∃ last, cls.constructors.getLast? = some last ∧
      last.signature.IsConstructor className := by
  rw [ClassInfo.HasConstructor, find?_info_constructor]
  simp

/-! ## Accepted classes -/

/-- A checked method is a constructor if the method is. -/
theorem isConstructor_eq {className : String} {fn : FunDef Location} {checker after : Checker}
    {fn' : FunDef Typed} (h : outcome (checkFunDef fn) checker = (.ok fn', after)) :
    isConstructor className fn' = isConstructor className fn := by
  rw [(checkFunDef_eq_ok h).2.2]
  rfl

/-- The first of the checked methods with a name comes from the first of the methods. -/
theorem find?_methods {env : Env} {fns : List (FunDef Location)} {fns' : List (FunDef Typed)}
    (h : List.Forall₂ (Accepts checkFunDef env) fns fns') (className : String) :
    (fns'.find? fun method => method.name = "__init__").any (isConstructor className) =
      (fns.find? fun method => method.name = "__init__").any (isConstructor className) := by
  induction h with
  | nil => rfl
  | @cons fn fn' fns fns' hfirst _ ih =>
    rcases hfirst with ⟨checker, -, hok⟩
    have hrun : outcome (checkFunDef fn) checker =
        (.ok fn', (outcome (checkFunDef fn) checker).2) := Prod.ext hok rfl
    have hname : fn'.name = fn.name := by rw [(checkFunDef_eq_ok hrun).2.2]
    simp only [List.find?_cons, hname]
    split
    · simp only [Option.any_some, isConstructor_eq hrun]
    · exact ih

/-- The first of the constructors of an accepted class has the signature of one. -/
theorem checkClassDef_constructor {cls : ClassDef Location} {checker after : Checker}
    {cls' : ClassDef Typed} (h : outcome (checkClassDef cls) checker = (.ok cls', after)) :
    ∃ first, cls.constructors.head? = some first ∧ isConstructor cls.name first = true := by
  obtain ⟨-, hmethods, hconstructor, -⟩ := checkClassDef_eq_ok h
  have heach := mapM_accepts checkFunDef_handsOut hmethods
  rw [ClassDef.method?, find?_methods heach, Option.any_eq_true] at hconstructor
  rcases hconstructor with ⟨first, hfirst, hfits⟩
  exact ⟨first, by rw [ClassDef.constructors, List.head?_filter]; exact hfirst, hfits⟩

/-- The first of the constructors of each class of an accepted program has the signature of
one. -/
theorem check_constructors {checker after : Checker} {program : Program Location}
    {typed : Program Typed} (h : checker.check program = (.ok typed, after)) :
    ∀ cls ∈ program.classes, ∃ first, cls.constructors.head? = some first ∧
      isConstructor cls.name first = true := by
  rw [check_eq_ok] at h
  simp only [checkParts, outcome_bind_ok] at h
  obtain ⟨_, _, -, _, _, -, _, _, hclasses, -⟩ := h
  have heach := mapM_accepts checkClassDef_handsOut hclasses
  intro cls hcls
  rcases List.mem_iff_getElem.mp hcls with ⟨index, hindex, rfl⟩
  rcases (List.forall₂_iff_get.mp heach).2 index hindex (heach.length_eq ▸ hindex)
    with ⟨other, -, hok⟩
  exact checkClassDef_constructor (Prod.ext hok rfl)

/-- A class of an accepted program that has one constructor only is known with the signature of
one. -/
theorem check_hasConstructor {checker after : Checker} {program : Program Location}
    {typed : Program Typed} (h : checker.check program = (.ok typed, after))
    {cls : ClassDef Location} (hcls : cls ∈ program.classes) {only : FunDef Location}
    (honly : cls.constructors = [only]) : cls.info.HasConstructor cls.name := by
  rcases check_constructors h cls hcls with ⟨first, hfirst, hfits⟩
  rw [honly, List.head?_singleton] at hfirst
  obtain rfl := Option.some.inj hfirst
  rw [hasConstructor_info, honly]
  exact ⟨only, rfl, isConstructor_signature hfits⟩

/-! ## Known classes -/

/-- What is known of classes comes from definitions with a property. -/
def Env.ClassesFrom (P : ClassDef Location → Prop) (env : Env) : Prop :=
  ∀ name info, env.class? name = some info → ∃ cls, P cls ∧ cls.name = name ∧ cls.info = info

/-- The classes of a program are added to those known. -/
theorem Env.ClassesFrom.augment {P : ClassDef Location → Prop} {env : Env}
    {program : Program Location} (h : env.ClassesFrom P) (hnew : ∀ cls ∈ program.classes, P cls) :
    (env.augment program).ClassesFrom P := by
  intro name info hfound
  rw [class?, Env.augment, Table.find?_insertAll,
    find?_reverse_map ClassDef.name ClassDef.info, Option.or_eq_some_iff] at hfound
  rcases hfound with hlast | ⟨-, hold⟩
  · rcases Option.map_eq_some_iff.mp hlast with ⟨cls, hcls, rfl⟩
    have hmem := List.mem_of_getLast? hcls
    rw [List.mem_filter, decide_eq_true_eq] at hmem
    exact ⟨cls, hnew cls hmem.1, hmem.2, rfl⟩
  · exact h name info hold

/-- What all classes of the accepted programs of a session have, all known classes have: after the
session, and at any program in it that is accepted. -/
theorem session_classes {P : ClassDef Location → Prop} {checker : Checker}
    {programs : List (Program Location)} (henv : checker.env.ClassesFrom P)
    (hnew : ∀ program ∈ accepted programs (checker.session programs).1,
      ∀ cls ∈ program.classes, P cls) :
    (checker.session programs).2.env.ClassesFrom P ∧
      ∀ typed ∈ checkedPrograms (checker.session programs).1, ∃ program ∈ programs,
        ∃ other after : Checker, other.check program = (.ok typed, after) ∧
          (other.env.augment program).ClassesFrom P := by
  induction programs generalizing checker with
  | nil => exact ⟨henv, nofun⟩
  | cons program rest ih =>
    rw [Checker.session_cons] at hnew ⊢
    rcases hverdict : (checker.check program).1 with diagnostic | typed
    · have henv' : (checker.check program).2.env.ClassesFrom P := by
        rw [check_env, hverdict]
        exact henv
      rw [hverdict] at hnew
      obtain ⟨hlast, htyped⟩ := ih henv' hnew
      refine ⟨hlast, fun typed hmem => ?_⟩
      rcases htyped typed hmem with ⟨program, hprogram, hcheck⟩
      exact ⟨program, List.mem_cons_of_mem _ hprogram, hcheck⟩
    · rw [hverdict] at hnew
      have hfirst : (checker.env.augment program).ClassesFrom P :=
        henv.augment (hnew program List.mem_cons_self)
      have henv' : (checker.check program).2.env.ClassesFrom P := by
        rw [check_env, hverdict]
        exact hfirst
      obtain ⟨hlast, htyped⟩ := ih henv' fun other hother =>
        hnew other (List.mem_cons_of_mem _ hother)
      refine ⟨hlast, fun other hmem => ?_⟩
      rcases List.mem_cons.mp hmem with rfl | hmem
      · exact ⟨program, List.mem_cons_self, checker, _, Prod.ext hverdict rfl, hfirst⟩
      · rcases htyped other hmem with ⟨program, hprogram, hcheck⟩
        exact ⟨program, List.mem_cons_of_mem _ hprogram, hcheck⟩

/-- An accepted program of a session was accepted by some checker. -/
theorem exists_check_of_accepted {checker : Checker} {programs : List (Program Location)}
    {program : Program Location}
    (h : program ∈ accepted programs (checker.session programs).1) :
    ∃ other typed after, Checker.check other program = (.ok typed, after) := by
  induction programs generalizing checker with
  | nil => cases h
  | cons first rest ih =>
    rw [Checker.session_cons] at h
    rcases hverdict : (checker.check first).1 with diagnostic | typed
    · rw [hverdict] at h
      exact ih h
    · rw [hverdict] at h
      rcases List.mem_cons.mp h with rfl | hmore
      · exact ⟨checker, typed, _, Prod.ext hverdict rfl⟩
      · exact ih hmore

/-! ## Sessions over sources -/

/-- The programs of the sources that are parsed. -/
def parsedPrograms (sources : List Source) : List (Program Location) :=
  sources.filterMap fun source => (parseProgram source).toOption

/-- A program of a session over sources is that of one of them. -/
theorem exists_source_of_mem {sources : List Source} {program : Program Location}
    (h : program ∈ parsedPrograms sources) :
    ∃ source ∈ sources, parseProgram source = .ok program := by
  rcases List.mem_filterMap.mp h with ⟨source, hmem, hparse⟩
  refine ⟨source, hmem, ?_⟩
  cases hsource : parseProgram source with
  | error failure => simp [hsource, Except.toOption] at hparse
  | ok other =>
    obtain rfl : other = program := by simpa [hsource, Except.toOption] using hparse
    rfl

theorem parsedPrograms_spelled {sources : List Source} {program : Program Location}
    (h : program ∈ parsedPrograms sources) : program.All Expr.Spelled := by
  obtain ⟨source, -, hsource⟩ := exists_source_of_mem h
  exact parseProgram_spelled hsource

/-- Objects are created of one of some classes, with as many arguments as its last constructor
takes behind the receiver. -/
def Expr.CreatesOneOf {α β : Type} (classes : List (ClassDef α)) : Expr β → Prop
  | .construct _ name arguments => ∃ cls ∈ classes, cls.name = name ∧
    ∃ last, cls.constructors.getLast? = some last ∧
      arguments.length = last.parameters.length - 1
  | _ => True

/-- Objects are created without arguments. -/
def Expr.CreatesFromNothing {α : Type} : Expr α → Prop
  | .construct _ _ arguments => arguments = []
  | _ => True

/-- What obeys the rules creates objects of known classes. -/
theorem Expr.Obeys.createsOneOf {env : Env} {classes : List (ClassDef Location)}
    (henv : env.ClassesFrom fun cls => cls ∈ classes ∧ cls.constructors ≠ []) {e : Expr Typed}
    (h : e.Obeys env) : e.CreatesOneOf classes := by
  cases e with
  | construct note name arguments =>
    rcases h with ⟨info, hinfo, hconstruction, -⟩
    rcases henv name info hinfo with ⟨cls, ⟨hcls, hthere⟩, hname, rfl⟩
    have hlast := List.getLast?_eq_some_getLast hthere
    refine ⟨cls, hcls, hname, _, hlast, ?_⟩
    have hknown := find?_info_constructor cls
    rw [hlast, Option.map_some] at hknown
    have hfits := (construction_eq_ok.mp hconstruction _ hknown).1
    rw [← hfits.length_eq]
    simp [FunDef.signature]
  | _ => trivial

/-- Objects of classes whose last constructors have the signature of one are created without
arguments. -/
theorem Expr.CreatesOneOf.fromNothing {α β : Type} {classes : List (ClassDef α)} {e : Expr β}
    (h : e.CreatesOneOf classes)
    (hlast : ∀ cls ∈ classes, ∀ last ∈ cls.constructors.getLast?,
      last.signature.IsConstructor cls.name) : e.CreatesFromNothing := by
  cases e with
  | construct note name arguments =>
    rcases h with ⟨cls, hcls, -, last, hgetLast, hlength⟩
    rcases hlast cls hcls last hgetLast with ⟨_, hsignature⟩
    have hparameters : last.parameters.length = 1 := by
      have hsame := congrArg (fun signature => signature.parameters.length) hsignature
      simpa [FunDef.signature] using hsame
    rw [hparameters] at hlength
    exact List.eq_nil_of_length_eq_zero hlength
  | _ => trivial

/-- After any session over sources, by a checker that knew no classes in the beginning, each known
class is one of an accepted program.  The first of the constructors of that class has the
signature of one; what is known of the class has it exactly if the last of them does.  Objects are
created with arguments for the last one.  So if the last constructor of every class has the
signature of one, all known classes have such a constructor and all objects are created without
arguments. -/
theorem session_constructors (sources : List Source) :
    let programs := parsedPrograms sources
    let run := (Checker.new .builtins).session programs
    let classes := (accepted programs run.1).flatMap Program.classes
    (∀ name info, run.2.env.class? name = some info → ∃ cls ∈ classes, cls.name = name ∧
      (∃ first, cls.constructors.head? = some first ∧ isConstructor name first = true) ∧
      (info.HasConstructor name ↔ ∃ last, cls.constructors.getLast? = some last ∧
        last.signature.IsConstructor name)) ∧
    (∀ typed ∈ checkedPrograms run.1, typed.All (Expr.CreatesOneOf classes)) ∧
    ((∀ cls ∈ classes, ∀ last ∈ cls.constructors.getLast?,
        last.signature.IsConstructor cls.name) →
      (∀ name info, run.2.env.class? name = some info → info.HasConstructor name) ∧
      ∀ typed ∈ checkedPrograms run.1, typed.All Expr.CreatesFromNothing) := by
  intro programs run classes
  have hfirst : ∀ cls ∈ classes, ∃ first, cls.constructors.head? = some first ∧
      isConstructor cls.name first = true := by
    intro cls hcls
    rcases List.mem_flatMap.mp hcls with ⟨program, hprogram, hcls⟩
    rcases exists_check_of_accepted hprogram with ⟨_, _, _, hcheck⟩
    exact check_constructors hcheck cls hcls
  have hthere : ∀ cls ∈ classes, cls.constructors ≠ [] := by
    intro cls hcls hnone
    rcases hfirst cls hcls with ⟨first, hhead, -⟩
    rw [hnone] at hhead
    cases hhead
  have hbuiltins : Env.builtins.ClassesFrom fun cls => cls ∈ classes ∧ cls.constructors ≠ [] :=
    fun _ _ => nofun
  obtain ⟨hknown, hchecked⟩ : run.2.env.ClassesFrom _ ∧ _ :=
    @session_classes _ (.new .builtins) _ hbuiltins fun program hprogram cls hcls =>
      have hmem : cls ∈ classes := List.mem_flatMap.mpr ⟨program, hprogram, hcls⟩
      ⟨hmem, hthere cls hmem⟩
  have hcreates : ∀ typed ∈ checkedPrograms run.1, typed.All (Expr.CreatesOneOf classes) := by
    intro typed htyped
    rcases hchecked typed htyped with ⟨program, hprogram, other, after, hcheck, henv⟩
    have hform : program.All Expr.NotCreation :=
      (parsedPrograms_spelled hprogram).mono fun _ => Expr.Spelled.notCreation
    exact (check_obeys hform hcheck).mono fun _ hobeys => hobeys.createsOneOf henv
  refine ⟨?_, hcreates, fun hlast => ⟨?_, ?_⟩⟩
  · intro name info hinfo
    rcases hknown name info hinfo with ⟨cls, ⟨hcls, -⟩, rfl, rfl⟩
    exact ⟨cls, hcls, rfl, hfirst cls hcls, hasConstructor_info cls cls.name⟩
  · intro name info hinfo
    rcases hknown name info hinfo with ⟨cls, ⟨hcls, hconstructors⟩, rfl, rfl⟩
    have hget := List.getLast?_eq_some_getLast hconstructors
    exact (hasConstructor_info cls cls.name).mpr ⟨_, hget, hlast cls hcls _ hget⟩
  · intro typed htyped
    exact (hcreates typed htyped).mono fun _ hcreates => hcreates.fromNothing hlast

/-- A class with two constructors, the second of which takes a number, and an object of it. -/
def twoConstructors : Source :=
  ("class C:\n    def __init__(self: C):\n        pass\n" ++
    "    def __init__(self: C, x: int):\n        pass\nC(1)\n").toList

/-- Whether a program is the creation of an object from one argument. -/
def Program.isCreation {α : Type} (program : Program α) : Bool :=
  match program.stmts with
  | [.expr _ (.construct _ _ [_])] => true
  | _ => false

/-- The class with two constructors is accepted, with the second one, and so is the creation of an
object with an argument. -/
theorem session_constructors_overridden :
    let run := (Checker.new .builtins).session (parsedPrograms [twoConstructors])
    (∃ info, run.2.env.class? "C" = some info ∧ ¬ info.HasConstructor "C") ∧
      ∃ typed ∈ checkedPrograms run.1, ¬ typed.All Expr.CreatesFromNothing := by
  intro run
  have hmethod : ((run.2.env.class? "C").bind fun info => Table.find? info.methods "__init__").map
      (fun signature => signature.parameters.length) = some 2 := by
    decide +kernel
  have hstmt : (checkedPrograms run.1).any Program.isCreation = true := by
    decide +kernel
  constructor
  · rw [Option.map_eq_some_iff] at hmethod
    rcases hmethod with ⟨signature, hsignature, hlength⟩
    rcases Option.bind_eq_some_iff.mp hsignature with ⟨info, hinfo, hfound⟩
    refine ⟨info, hinfo, ?_⟩
    rintro ⟨other, hother, arguments, rfl⟩
    cases Option.some.inj (hfound.symm.trans hother)
    cases hlength
  · rcases List.any_eq_true.mp hstmt with ⟨typed, htyped, hmatch⟩
    refine ⟨typed, htyped, fun hall => ?_⟩
    unfold Program.isCreation at hmatch
    split at hmatch
    · next note creation name argument hstmts =>
      have hstmts' := hall.stmts
      rw [hstmts] at hstmts'
      cases hstmts'.1.1
    · cases hmatch

end Offside
