import Offside.Proofs.Lowering.LowersSpelled
import Offside.Proofs.Typing.Parallel
import Offside.Proofs.Typing.Rechecking
import Offside.Proofs.Typing.Sessions
import Mathlib.Data.List.Induction

/-!
# Checking is idempotent

A program that was accepted is accepted once more without its types, in the environment with its
declarations and by a new checker.  The types it gets are equal to those it had, and its
declarations, which are made for the second time, change nothing.

Main results:

- Theorem `Table.insertAll_insertAll`: entries that are set again change nothing.
- Theorem `augment_augment`: so do declarations that are made again.
- Theorem `checkParts_again`: the parts of an accepted program are accepted once more.
- Theorem `typeCheck_untyped`: so is the program, with equal types.
- Theorem `typeCheck_idempotent`: every parsed program that is accepted is accepted once more.
-/

namespace Offside

/-! ## Setting entries again -/

namespace Table

variable {β : Type}

theorem insert_insert_self (table : Table β) (name : String) (old value : β) :
    insert (insert table name old) name value = insert table name value := by
  induction table with
  | nil => simp [insert]
  | cons entry rest ih =>
    rcases entry with ⟨key, first⟩
    by_cases hkey : key = name
    · simp [insert, hkey]
    · simp [insert, hkey, ih]

/-- The order in which two names are set does not count if one of them is there already. -/
theorem insert_comm {table : Table β} {name other : String} (hname : (find? table name).isSome)
    (hne : name ≠ other) (value value' : β) :
    insert (insert table other value') name value =
      insert (insert table name value) other value' := by
  induction table with
  | nil => simp at hname
  | cons entry rest ih =>
    rcases entry with ⟨key, first⟩
    rw [find?_cons] at hname
    by_cases hkey : key = name
    · subst hkey
      simp [insert, hne]
    · have hrest : (find? rest name).isSome := by simpa [Ne.symm hkey] using hname
      by_cases hother : key = other
      · simp [insert, hother, Ne.symm hne]
      · simp [insert, hkey, hother, ih hrest]

/-- What is set in the end does not need to be set before. -/
theorem insert_insertAll_insert {table : Table β} {entries : List (String × β)} (name : String)
    (value : β)
    (hentries : ∀ entry ∈ entries, (find? table entry.1).isSome) :
    insert (insertAll (insert table name value) entries) name value =
      insert (insertAll table entries) name value := by
  induction entries generalizing table with
  | nil => exact insert_insert_self table name value value
  | cons entry rest ih =>
    rw [List.forall_mem_cons] at hentries
    simp only [insertAll, List.foldl_cons] at ih ⊢
    by_cases hname : entry.1 = name
    · rw [hname, insert_insert_self]
    · rw [insert_comm hentries.1 hname]
      refine ih fun other hother => ?_
      rw [find?_insert]
      split
      · rfl
      · exact hentries.2 other hother

/-- All names that are set are there. -/
theorem isSome_find?_insertAll (table : Table β) {entries : List (String × β)}
    {entry : String × β} (hentry : entry ∈ entries) :
    (find? (insertAll table entries) entry.1).isSome := by
  have hfound : ∃ value, find? entries.reverse entry.1 = some value := by
    rw [← Option.isSome_iff_exists, find?, List.lookup_isSome_iff]
    exact ⟨entry, List.mem_reverse.mpr hentry, by simp⟩
  rcases hfound with ⟨value, hvalue⟩
  rw [find?_insertAll, hvalue]
  rfl

/-- Entries that are set again change nothing. -/
theorem insertAll_insertAll (table : Table β) (entries : List (String × β)) :
    insertAll (insertAll table entries) entries = insertAll table entries := by
  induction entries using List.reverseRecOn with
  | nil => rfl
  | append_singleton entries last ih =>
    have hthere := fun entry (hentry : entry ∈ entries) =>
      isSome_find?_insertAll table hentry
    have hlast := insert_insertAll_insert last.1 last.2 hthere
    rw [ih] at hlast
    simpa only [insertAll, List.foldl_append, List.foldl_cons, List.foldl_nil] using hlast

end Table

/-! ## Declarations made again -/

/-- The signatures of checked functions are those of the functions. -/
theorem map_signature_eq {env : Env} {fns : List (FunDef Location)} {names : List String}
    {fns' : List (FunDef Typed)} (h : ResolvesEach (FunDef.Resolves env) fns names fns') :
    (fns'.map (FunDef.map Typed.location)).map (fun fn => (fn.name, fn.signature)) =
      fns.map fun fn => (fn.name, fn.signature) := by
  induction h with
  | nil => rfl
  | cons onFirst _ ih =>
    rw [List.map_cons, List.map_cons, List.map_cons, ih]
    simp only [FunDef.map, FunDef.signature, onFirst.name, onFirst.parameters, onFirst.ret]

/-- What checked classes say about themselves is what the classes do. -/
theorem map_info_eq {env : Env} {classes : List (ClassDef Location)} {names : List String}
    {classes' : List (ClassDef Typed)}
    (h : ResolvesEach (ClassDef.Resolves env) classes names classes') :
    (classes'.map (ClassDef.map Typed.location)).map (fun cls => (cls.name, cls.info)) =
      classes.map fun cls => (cls.name, cls.info) := by
  induction h with
  | nil => rfl
  | cons onFirst _ ih =>
    rw [List.map_cons, List.map_cons, List.map_cons, ih]
    simp only [ClassDef.map, ClassDef.info, onFirst.name, onFirst.fields,
      map_signature_eq onFirst.methods]

/-- The declarations of a checked program are those of the program. -/
theorem augment_untyped_eq {env : Env} {program : Program Location} {names : List String}
    {program' : Program Typed} (h : program.Resolves env names program') (other : Env) :
    other.augment program'.untyped = other.augment program := by
  rcases h.parts with ⟨_, _, _, -, onFuns, onClasses, -⟩
  simp only [Env.augment, Program.untyped, Program.map, h.inits, map_signature_eq onFuns,
    map_info_eq onClasses]

/-- Declarations that are made again change nothing. -/
theorem augment_augment {α : Type} (env : Env) (program : Program α) :
    (env.augment program).augment program = env.augment program := by
  simp only [Env.augment, Table.insertAll_insertAll]

namespace Typing

/-- Checked declarations are accepted once more, with the same types. -/
theorem checkInits_again {inits : List (VarInit Location)} {inits' : List (VarInit Typed)}
    (h : checkInits inits = .ok inits') :
    checkInits (inits'.map (VarInit.map Typed.location)) = .ok inits' ∧
      List.Forall₂ (VarInit.Matches rechecked) inits' inits' := by
  rw [checkInits_eq_ok h]
  exact ⟨h, List.forall₂_same.mpr fun _ _ =>
    ⟨⟨Ty.same_refl _, rfl⟩, rfl, rfl, ⟨Ty.same_refl _, rfl⟩, rfl⟩⟩

/-- A checked function is accepted once more, with equal types. -/
theorem checkFunDef_again (fn : FunDef Location) {first second after : Checker}
    {fn' : FunDef Typed} (h : outcome (checkFunDef fn) first = (.ok fn', after))
    (hspelled : fn.All Expr.Spelled) (hnames : (newNames first.counters fn.items).Nodup)
    (henv : second.env = first.env) :
    ∃ fn'' after', outcome (checkFunDef (fn'.map Typed.location)) second = (.ok fn'', after') ∧
      fn''.Matches rechecked fn' := by
  obtain ⟨hinits, ⟨last, hbody, hret⟩, hfn⟩ := checkFunDef_eq_ok h
  obtain ⟨hinits', honInits⟩ := checkInits_again hinits
  have hlocals : bodyLocals (fn'.map Typed.location) = bodyLocals fn := by
    rw [hfn]
    simp only [bodyLocals, FunDef.map, checkInits_eq_ok hinits]
  have htwice : Twice ⟨first, bodyLocals fn⟩ ⟨second, bodyLocals fn⟩ :=
    ⟨henv, rfl, rfl, Ty.same_refl _, rfl, rfl, rfl, rfl⟩
  obtain ⟨body, last', hchecks, honBody, hlast⟩ :=
    (checkBlock_eq_ok.mp hbody).again hspelled hnames htwice
  have hbody' := checkBlock_eq_ok.mpr hchecks
  have hret' : last'.locals.actualRet.isAssignable last'.locals.expectedRet = true := by
    rw [hlast.expectedRet_eq, Ty.isAssignable_congr hlast.actualRet_same (Ty.same_refl _)]
    exact hret
  have hcheck : outcome (checkBody (fn'.map Typed.location))
      ⟨second, bodyLocals (fn'.map Typed.location)⟩ = (.ok body, last') := by
    rw [hlocals]
    simp only [checkBody, FunDef.map, outcome_bind, hbody', outcome_locals, outcome_lift,
      require, hret', if_true, outcome_pure]
  refine ⟨⟨⟨.none, fn'.note.location⟩, fn'.name, fn'.parameters, fn'.ret, fn'.inits, body⟩,
    last'.checker, ?_, ⟨?_, rfl, rfl, rfl, honInits, honBody⟩⟩
  · have hinits'' : checkInits (fn'.map Typed.location).inits = .ok fn'.inits := hinits'
    simp only [checkFunDef, outcome_bind, outcome_lift, hinits'', outcome_inBody, hcheck,
      outcome_pure]
    rfl
  · rw [hfn]
    exact ⟨Ty.same_refl _, rfl⟩

/-- The checks of a row of entries that were accepted accept again what they made of them. -/
theorem mapM_again {α β : Type} {itemsOf : α → List String} {check : α → ModuleCheck β}
    {forget : β → α} {P : α → Prop} {rel : β → β → Prop}
    (hands : ∀ entry, HandsOut ModuleMove (itemsOf entry) (check entry))
    (hcheck : ∀ entry {first second after : Checker} {value : β},
      outcome (check entry) first = (.ok value, after) → P entry →
      (newNames first.counters (itemsOf entry)).Nodup → second.env = first.env →
      ∃ again after', outcome (check (forget value)) second = (.ok again, after') ∧
        rel again value)
    {entries : List α} {first second after : Checker} {values : List β}
    (h : outcome (entries.mapM check) first = (.ok values, after))
    (hentries : ∀ entry ∈ entries, P entry)
    (hnames : (newNames first.counters (entries.flatMap itemsOf)).Nodup)
    (henv : second.env = first.env) :
    ∃ agains after', outcome ((values.map forget).mapM check) second = (.ok agains, after') ∧
      List.Forall₂ rel agains values ∧ after'.env = second.env := by
  induction entries generalizing first second values with
  | nil =>
    cases h
    exact ⟨[], second, rfl, .nil, rfl⟩
  | cons entry rest ih =>
    simp only [List.mapM_cons, outcome_bind_ok, outcome_pure, Prod.mk.injEq, Except.ok.injEq] at h
    rcases h with ⟨value, _, hvalue, values, _, hvalues, rfl, rfl⟩
    rw [List.forall_mem_cons] at hentries
    rw [List.flatMap_cons, newNames_append, List.nodup_append] at hnames
    obtain ⟨again, _, hagain, honFirst⟩ := hcheck entry hvalue hentries.1 hnames.1 henv
    obtain rfl := (hands entry).moves_of_ok hvalue
    obtain rfl := (hands (forget value)).moves_of_ok hagain
    have henv' : (second.handOut (itemsOf (forget value))).env = first.env := henv
    obtain ⟨agains, last, hagains, honRest, hlast⟩ := ih hvalues hentries.2 hnames.2.1 henv'
    refine ⟨again :: agains, last, ?_, .cons honFirst honRest, hlast⟩
    simp only [List.map_cons, List.mapM_cons, outcome_bind, hagain, hagains, outcome_pure]

/-- A checked class is accepted once more, with equal types. -/
theorem checkClassDef_again (cls : ClassDef Location) {first second after : Checker}
    {cls' : ClassDef Typed} (h : outcome (checkClassDef cls) first = (.ok cls', after))
    (hspelled : cls.All Expr.Spelled) (hnames : (newNames first.counters cls.items).Nodup)
    (henv : second.env = first.env) :
    ∃ cls'' after', outcome (checkClassDef (cls'.map Typed.location)) second =
      (.ok cls'', after') ∧ cls''.Matches rechecked cls' := by
  obtain ⟨hfields, hmethods, hinit, hcls⟩ := checkClassDef_eq_ok h
  obtain ⟨hfields', honFields⟩ := checkInits_again hfields
  obtain ⟨methods, after', hmethods', honMethods, -⟩ :=
    mapM_again checkFunDef_handsOut (fun fn => checkFunDef_again fn) hmethods hspelled hnames henv
  have hinit' : (methods.find? fun method => method.name = "__init__").any
      (isConstructor cls'.name) = true := by
    rw [any_isConstructor_eq _ honMethods, hcls]
    exact hinit
  refine ⟨⟨⟨.none, cls'.note.location⟩, cls'.name, cls'.generics, cls'.fields, methods⟩, after',
    ?_, ⟨?_, rfl, rfl, honFields, honMethods⟩⟩
  · simp only [checkClassDef, ClassDef.map, outcome_bind, outcome_lift, hfields', hmethods',
      require, hinit', if_true, outcome_pure]
  · rw [hcls]
    exact ⟨Ty.same_refl _, rfl⟩

/-- A checked top level is accepted once more, with equal types. -/
theorem checkTop_again (stmts : List (Stmt Location)) {first second after : Checker}
    {stmts' : List (Stmt Typed)} (h : outcome (checkTop stmts) first = (.ok stmts', after))
    (hspelled : Stmt.AllOf Expr.Spelled stmts)
    (hnames : (newNames first.counters (Stmt.itemsAll stmts)).Nodup)
    (henv : second.env = first.env) :
    ∃ stmts'' after', outcome (checkTop (Stmt.mapAll Typed.location stmts')) second =
      (.ok stmts'', after') ∧ Stmt.MatchesAll rechecked stmts'' stmts' := by
  obtain ⟨last, hblock⟩ := checkTop_eq_ok h
  have htwice : Twice ⟨first, .top⟩ ⟨second, .top⟩ :=
    ⟨henv, rfl, rfl, Ty.same_refl _, rfl, rfl, rfl, rfl⟩
  obtain ⟨stmts'', last', hchecks, honStmts, -⟩ :=
    (checkBlock_eq_ok.mp hblock).again hspelled hnames htwice
  have hblock' := checkBlock_eq_ok.mpr hchecks
  refine ⟨stmts'', { last'.checker with env := { last'.checker.env with
    globals := Table.insertAll last'.checker.env.globals last'.locals.vars } }, ?_, honStmts⟩
  simp only [checkTop, outcome_bind, outcome_inBody, hblock', outcome_locals, outcome_pure,
    outcome_modify]

/-- The last of several statements has the same type again. -/
theorem getLast?_ty_same {stmts stmts' : List (Stmt Typed)}
    (h : List.Forall₂ (Stmt.Matches rechecked) stmts stmts') {ty ty' : Ty}
    (hty : ty.same ty' = true) :
    ((stmts.getLast?.map Stmt.ty).getD ty).same
      ((stmts'.getLast?.map Stmt.ty).getD ty') = true := by
  induction h generalizing ty ty' with
  | nil => exact hty
  | @cons first first' rest rest' onFirst _ ih =>
    have hlast := ih onFirst.note.1
    rw [List.getLast?_cons, List.getLast?_cons]
    cases hrest : rest.getLast? <;> cases hrest' : rest'.getLast? <;>
      simpa [hrest, hrest', Stmt.ty] using hlast

/-- The parts of an accepted program are accepted once more, with equal types. -/
theorem checkParts_again (program : Program Location) {first second after : Checker}
    {program' : Program Typed}
    (h : outcome (checkParts program) first = (.ok program', after))
    (hspelled : program.All Expr.Spelled)
    (hnames : (newNames first.counters program.items).Nodup) (henv : second.env = first.env) :
    ∃ program'' after', outcome (checkParts program'.untyped) second = (.ok program'', after') ∧
      program''.Matches rechecked program' := by
  simp only [checkParts, outcome_bind_ok, outcome_lift, outcome_pure, Prod.mk.injEq,
    Except.ok.injEq] at h
  obtain ⟨inits', _, ⟨hinits, rfl⟩, funs', _, hfuns, classes', _, hclasses, stmts', _, hstmts,
    rfl, rfl⟩ := h
  simp only [Program.items, newNames_append, List.nodup_append] at hnames
  obtain ⟨hfunNames, ⟨hclassNames, hstmtNames, -⟩, -⟩ := hnames
  obtain ⟨hinits', honInits⟩ := checkInits_again hinits
  obtain ⟨funs'', middle, hfuns', honFuns, hmiddle⟩ := mapM_again checkFunDef_handsOut
    (fun fn => checkFunDef_again fn) hfuns hspelled.funs hfunNames henv
  obtain rfl := (HandsOut.mapM checkFunDef_handsOut program.funs).moves_of_ok hfuns
  obtain ⟨classes'', last, hclasses', honClasses, hlast⟩ := mapM_again checkClassDef_handsOut
    (fun cls => checkClassDef_again cls) hclasses hspelled.classes hclassNames
    (hmiddle.trans henv)
  obtain rfl := (HandsOut.mapM checkClassDef_handsOut program.classes).moves_of_ok hclasses
  obtain ⟨stmts'', after', hstmts', honStmts⟩ := checkTop_again program.stmts hstmts
    hspelled.stmts hstmtNames (hlast.trans (hmiddle.trans henv))
  refine ⟨⟨⟨(stmts''.getLast?.map Stmt.ty).getD .none, program.note⟩, inits', funs'', classes'',
    stmts''⟩, after', ?_,
    ⟨⟨getLast?_ty_same (Stmt.matchesAll_iff.mp honStmts) (Ty.same_refl _), rfl⟩,
      honInits, honFuns, honClasses, honStmts⟩⟩
  simp only [checkParts, Program.untyped, Program.map, outcome_bind, outcome_lift, hinits',
    hfuns', hclasses', hstmts', outcome_pure]

/-- A program is accepted by a new checker if its parts are in the environment with its
declarations. -/
theorem typeCheck_eq_ok {env after : Env} {program : Program Location} {typed : Program Typed} :
    typeCheck env program = .ok (typed, after) ↔ ∃ last,
      outcome (checkParts program) ⟨env.augment program, []⟩ = (.ok typed, last) ∧
        last.env = after := by
  have hcheck : typeCheck env program = .ok (typed, after) ↔
      ∃ last, (Checker.new env).check program = (.ok typed, last) ∧ last.env = after := by
    unfold typeCheck
    split
    · next heq => simp [heq]
    · next heq => simp [heq]
  rw [hcheck]
  simp only [check_eq_ok]
  rfl

end Typing

open Typing

/-- A program that was accepted is accepted once more without its types. -/
theorem typeCheck_untyped (env : Env) {program : Program Location} {typed : Program Typed}
    {after : Env} (hspelled : program.All Expr.Spelled)
    (h : typeCheck env program = .ok (typed, after)) (hnames : typed.items.Nodup) :
    ∃ typed', typeCheck after typed.untyped = .ok (typed', after) ∧
      typed'.Matches rechecked typed := by
  rw [typeCheck_eq_ok] at h
  rcases h with ⟨last, hparts, rfl⟩
  have hresolves := checkParts_resolves program hparts
  rw [hresolves.items_eq] at hnames
  obtain rfl := (checkParts_handsOut program).moves_of_ok hparts
  have hagain : (env.augment program).augment typed.untyped = env.augment program := by
    rw [augment_untyped_eq hresolves, augment_augment]
  have hnew : (Checker.new (env.augment program)).env = env.augment program := rfl
  obtain ⟨typed', last, hlast, hmatches⟩ :=
    checkParts_again program hparts hspelled hnames hnew
  obtain rfl := (checkParts_handsOut _).moves_of_ok hlast
  refine ⟨typed', typeCheck_eq_ok.mpr
    ⟨(Checker.new (env.augment program)).handOut typed.untyped.items, ?_, rfl⟩, hmatches⟩
  show outcome (checkParts typed.untyped)
    ⟨(env.augment program).augment typed.untyped, []⟩ = _
  rw [hagain]
  exact hlast

/-! ## Parsed programs -/

/-- A parsed program that is accepted, with new names for its items that are told apart, is
accepted once more without its types: by a new checker, in the environment that it leaves behind,
which stays as it is, and with the same types at all nodes. -/
theorem typeCheck_idempotent (env : Env) {source : Source} {program : Program Location}
    {typed : Program Typed} {after : Env} (hparse : parseProgram source = .ok program)
    (h : typeCheck env program = .ok (typed, after)) (hnames : typed.items.Nodup) :
    ∃ typed', typeCheck after typed.untyped = .ok (typed', after) ∧
      typed'.Matches rechecked typed :=
  typeCheck_untyped env (parseProgram_spelled hparse) h hnames

/-- A class, and a list of fields of new objects of it. -/
def fieldsOfObjects : Source := "class C:\n    n: int = 1\n[C().n for x in [1, 2]]\n".toList

theorem typeCheck_idempotent_fieldsOfObjects : ∃ program typed after typed',
    parseProgram fieldsOfObjects = .ok program ∧
      typeCheck .builtins program = .ok (typed, after) ∧ typed.items = ["compvar$x1"] ∧
      typeCheck after typed.untyped = .ok (typed', after) ∧ typed'.Matches rechecked typed := by
  have hrun : ((parseProgram fieldsOfObjects).toOption.bind fun program =>
      (typeCheck .builtins program).toOption).map (fun result => result.1.items) =
        some ["compvar$x1"] := by
    decide +kernel
  cases hparse : parseProgram fieldsOfObjects with
  | error failure => simp [hparse, Except.toOption] at hrun
  | ok program =>
    cases h : typeCheck .builtins program with
    | error diagnostic => simp [hparse, h, Except.toOption] at hrun
    | ok result =>
      rcases result with ⟨typed, after⟩
      have hitems : typed.items = ["compvar$x1"] := by
        simpa [hparse, h, Except.toOption] using hrun
      have hnames : typed.items.Nodup := by simp [hitems]
      obtain ⟨typed', hagain, hmatches⟩ := typeCheck_idempotent .builtins hparse h hnames
      exact ⟨program, typed, after, typed', rfl, h, hitems, hagain, hmatches⟩

end Offside
