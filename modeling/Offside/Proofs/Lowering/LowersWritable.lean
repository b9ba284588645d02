import Offside.Proofs.Lowering.LowersPrograms
import Offside.Proofs.Typing.Writable

/-!
# Parsed programs have writable types

A phrase that is a type is a name, `None`, a list of a type, or a class with types in brackets.  So
the types of all declarations of a parsed program are writable, that of a constructor which is not
spelled out included.

Main results:

- Theorem `LowersTy.writable`: the type of a phrase is writable.
- Theorem `parseProgram_writable`: so are all types that a parsed program declares.
-/

namespace Offside

open Phrase Lowering

variable {l : Lowering} {phrase : Phrase}

/-! ## Types -/

/-- The type of a name is writable. -/
theorem writable_typeOfName (name : String) : (typeOfName name).Writable := by
  unfold typeOfName
  split
  · trivial
  · split
    · trivial
    · split
      · trivial
      · exact Ty.writable_plain name

/-- The type of a phrase is writable. -/
theorem LowersTy.writable {ty : Ty} (h : LowersTy phrase ty) : ty.Writable := by
  induction h with
  | name => exact writable_typeOfName _
  | none => trivial
  | list _ _ _ ih => exact ih
  | @object _ _ inside _ tys _ _ _ hlength _ _ ih =>
    refine Ty.allWritable_iff.mpr fun ty hty => ?_
    rw [← List.map_snd_zip (Nat.le_of_eq hlength.symm)] at hty
    rcases List.mem_map.mp hty with ⟨_, hpair, rfl⟩
    exact ih hpair

/-- So is a type behind a colon or an arrow. -/
theorem LowersTypeDef.writable {ty : Ty} (h : LowersTypeDef phrase ty) : ty.Writable := by
  cases h with
  | intro _ onType => exact onType.writable

/-! ## Declarations -/

/-- What phrases stand for, one by one, has what each of them gives. -/
theorem forall_of_forall₂ {α : Type} {R : Phrase → α → Prop} {P : α → Prop} {parts : List Phrase}
    {values : List α} (h : List.Forall₂ R parts values)
    (hone : ∀ part value, R part value → P value) :
    ∀ value ∈ values, P value := by
  induction h with
  | nil => exact nofun
  | cons hfirst _ ih => exact List.forall_mem_cons.mpr ⟨hone _ _ hfirst, ih⟩

/-- So is the type of a declared variable. -/
theorem LowersVarInit.writable {init : VarInit Location} (h : LowersVarInit l phrase init) :
    init.ty.Writable := by
  cases h with
  | intro _ onType => exact onType.writable

/-- So are the types of parameters. -/
theorem LowersParameters.writable {parts : List Phrase} {parameters : List Parameter}
    (h : LowersParameters parts parameters) :
    ∀ parameter ∈ parameters, parameter.ty.Writable := by
  induction h with
  | nil => exact nofun
  | cons _ onType _ _ ih => exact List.forall_mem_cons.mpr ⟨onType.writable, ih⟩

/-- So is a return type. -/
theorem LowersResult.writable {part : Option Phrase} {ty : Ty} (h : LowersResult part ty) :
    ty.Writable := by
  cases h with
  | none => trivial
  | some onType => exact onType.writable

/-- The types of a function are writable. -/
theorem LowersFunDef.writable {fn : FunDef Location} (h : LowersFunDef l phrase fn) :
    fn.Writable := by
  rcases h with ⟨_, _, ⟨_, onParts, _⟩, onResult, ⟨_, onInits, _⟩, _⟩
  exact ⟨onParts.writable, onResult.writable,
    forall_of_forall₂ onInits fun _ _ => LowersVarInit.writable⟩

/-- The type of the constructor that a class has without writing it is writable. -/
theorem writable_defaultInit (a : Location) (name : String) (generics : List String) :
    (defaultInit a name generics).Writable where
  parameters := List.forall_mem_singleton.mpr
    (Ty.allWritable_iff.mpr (List.forall_mem_map.mpr fun generic _ => Ty.writable_plain generic))
  ret := trivial
  inits := nofun

/-- The types of a field or method are writable. -/
def Lowering.ClassMember.Writable (member : ClassMember) : Prop :=
  (∀ field ∈ member.field?, field.ty.Writable) ∧ ∀ method ∈ member.method?, method.Writable

/-- So are the types that a member of a class declares. -/
theorem LowersMember.writable {members : List ClassMember} (h : LowersMember l phrase members) :
    ∀ member ∈ members, member.Writable := by
  cases h with
  | field onInit =>
    refine List.forall_mem_singleton.mpr ⟨?_, nofun⟩
    rintro _ ⟨⟩
    exact onInit.writable
  | method onFun =>
    refine List.forall_mem_singleton.mpr ⟨nofun, ?_⟩
    rintro _ ⟨⟩
    exact onFun.writable
  | pass => exact nofun

/-- The types of a class are writable. -/
theorem LowersClassDef.writable {cls : ClassDef Location} (h : LowersClassDef l phrase cls) :
    cls.Writable := by
  rcases h with @⟨_, name, _, _, _, generics, groups, a, _, _, _, _, onParts, _⟩
  have hmembers : ∀ member ∈ groups.flatten, member.Writable := by
    intro member hmember
    rcases List.mem_flatten.mp hmember with ⟨members, hgroup, hmember⟩
    exact forall_of_forall₂ onParts (fun _ _ => LowersMember.writable) members hgroup member hmember
  constructor
  · intro field hfield
    rcases List.mem_filterMap.mp hfield with ⟨member, hmember, hfield⟩
    exact (hmembers member hmember).1 field hfield
  · intro method hmethod
    rcases List.mem_append.mp hmethod with hwritten | hdefault
    · rcases List.mem_filterMap.mp hwritten with ⟨member, hmember, hmethod⟩
      exact (hmembers member hmember).2 method hmethod
    · split at hdefault
      · nomatch hdefault
      · obtain rfl := List.mem_singleton.mp hdefault
        exact writable_defaultInit a name.text generics

/-! ## Programs -/

/-- The types of a declaration are writable. -/
structure Lowering.Declaration.Writable (declaration : Declaration) : Prop where
  init : ∀ init ∈ declaration.init?, init.ty.Writable
  fun? : ∀ fn ∈ declaration.fun?, fn.Writable
  cls : ∀ cls ∈ declaration.cls?, cls.Writable

/-- So are the types of a declaration. -/
theorem LowersDeclaration.writable {declaration : Declaration}
    (h : LowersDeclaration l phrase declaration) : declaration.Writable := by
  cases h with
  | init onInit =>
    refine ⟨?_, nofun, nofun⟩
    rintro _ ⟨⟩
    exact onInit.writable
  | «fun» onFun =>
    refine ⟨nofun, ?_, nofun⟩
    rintro _ ⟨⟩
    exact onFun.writable
  | cls onClass =>
    refine ⟨nofun, nofun, ?_⟩
    rintro _ ⟨⟩
    exact onClass.writable

/-- The types that the program of a tree declares are writable. -/
theorem LowersProgram.writable {program : Program Location} (h : LowersProgram l phrase program) :
    program.Writable := by
  rcases h with ⟨_, _, _, _, onBefore, _⟩
  have hdeclarations := forall_of_forall₂ onBefore fun _ _ => LowersDeclaration.writable
  constructor
  · intro init hinit
    rcases List.mem_filterMap.mp hinit with ⟨declaration, hmem, hinit⟩
    exact (hdeclarations declaration hmem).init init hinit
  · intro fn hfn
    rcases List.mem_filterMap.mp hfn with ⟨declaration, hmem, hfn⟩
    exact (hdeclarations declaration hmem).fun? fn hfn
  · intro cls hcls
    rcases List.mem_filterMap.mp hcls with ⟨declaration, hmem, hcls⟩
    exact (hdeclarations declaration hmem).cls cls hcls

/-- The types that a parsed program declares are writable. -/
theorem parseProgram_writable {source : Source} {program : Program Location}
    (h : parseProgram source = .ok program) : program.Writable := by
  rcases parseProgram_lowers h with ⟨_, _, -, -, -, hprogram⟩
  exact hprogram.writable

end Offside
