import Offside.Proofs.Typing.Resolution

/-!
# Types that sources can write

A source can write numbers, truth values, `None`, type variables, classes and lists.  Sets,
generators and the two outcomes of a conditional are made by the checker alone.  This module follows
the writable types through declarations and environments: an environment in which all types are
writable stays one when declarations with writable types are added.

Main definitions:

- `Ty.Writable`: no set, generator or either occurs in a type.
- `Program.Writable`: the types of all declarations of a program are writable.
- `Env.Writable`: all types in an environment are writable.

Main results:

- Theorem `Env.Writable.augment`: declarations with writable types keep an environment writable.
- Theorem `Env.builtins_writable`: the builtin functions have writable types.
-/

namespace Offside

/-! ## Types -/

mutual

/-- No set, no generator and no either occurs in a type, at any depth. -/
def Ty.Writable : Ty → Prop
  | .num | .bool | .none | .typeVar => True
  | .object _ arguments => Ty.AllWritable arguments
  | .list element => element.Writable
  | .set _ | .generator _ | .either _ _ => False

/-- All of several types are writable. -/
def Ty.AllWritable : List Ty → Prop
  | [] => True
  | first :: rest => first.Writable ∧ Ty.AllWritable rest

end

theorem Ty.allWritable_iff {tys : List Ty} : Ty.AllWritable tys ↔ ∀ ty ∈ tys, ty.Writable := by
  induction tys with
  | nil => simp [Ty.AllWritable]
  | cons first rest ih => rw [Ty.AllWritable, ih, List.forall_mem_cons]

theorem Ty.writable_plain (name : String) : (Ty.plain name).Writable := trivial

/-! ## Tables -/

namespace Table

variable {β : Type} {P : β → Prop}

/-- What is found is in the table. -/
theorem mem_of_find? {table : Table β} {name : String} {value : β}
    (h : find? table name = some value) : (name, value) ∈ table := by
  induction table with
  | nil => nomatch h
  | cons entry rest ih =>
    obtain ⟨key, first⟩ := entry
    rw [find?_cons] at h
    split at h
    · next heq =>
      cases h
      exact heq ▸ List.mem_cons_self
    · exact List.mem_cons_of_mem _ (ih h)

/-- After an entry is set, the values are those from before and the new one. -/
theorem forall_insert {table : Table β} {name : String} {value : β}
    (htable : ∀ entry ∈ table, P entry.2) (hvalue : P value) :
    ∀ entry ∈ insert table name value, P entry.2 := by
  induction table with
  | nil => simpa [insert] using hvalue
  | cons entry rest ih =>
    obtain ⟨key, old⟩ := entry
    rw [List.forall_mem_cons] at htable
    rw [insert]
    split
    · exact List.forall_mem_cons.mpr ⟨hvalue, htable.2⟩
    · exact List.forall_mem_cons.mpr ⟨htable.1, ih htable.2⟩

/-- What all values of a table and of some entries have, all values have after the entries are
set. -/
theorem forall_insertAll {table : Table β} {entries : List (String × β)}
    (htable : ∀ entry ∈ table, P entry.2) (hentries : ∀ entry ∈ entries, P entry.2) :
    ∀ entry ∈ insertAll table entries, P entry.2 := by
  induction entries generalizing table with
  | nil => exact htable
  | cons entry rest ih =>
    rw [List.forall_mem_cons] at hentries
    rw [insertAll, List.foldl_cons, ← insertAll]
    exact ih (forall_insert htable hentries.1) hentries.2

end Table

/-! ## Declarations -/

/-- The types of a function are writable: of its parameters, its result and its variables. -/
structure FunDef.Writable {α : Type} (fn : FunDef α) : Prop where
  parameters : ∀ parameter ∈ fn.parameters, parameter.ty.Writable
  ret : fn.ret.Writable
  inits : ∀ init ∈ fn.inits, init.ty.Writable

/-- The types of a class are writable. -/
structure ClassDef.Writable {α : Type} (cls : ClassDef α) : Prop where
  fields : ∀ field ∈ cls.fields, field.ty.Writable
  methods : ∀ method ∈ cls.methods, method.Writable

/-- The types of all declarations of a program are writable. -/
structure Program.Writable {α : Type} (program : Program α) : Prop where
  inits : ∀ init ∈ program.inits, init.ty.Writable
  funs : ∀ fn ∈ program.funs, fn.Writable
  classes : ∀ cls ∈ program.classes, cls.Writable

/-! ## Environments -/

/-- The types of a signature are writable. -/
structure Signature.Writable (signature : Signature) : Prop where
  parameters : ∀ ty ∈ signature.parameters, ty.Writable
  ret : signature.ret.Writable

/-- The types of all fields and methods of a class are writable. -/
structure ClassInfo.Writable (cls : ClassInfo) : Prop where
  fields : ∀ entry ∈ cls.fields, entry.2.Writable
  methods : ∀ entry ∈ cls.methods, entry.2.Writable

/-- All types in an environment are writable. -/
structure Env.Writable (env : Env) : Prop where
  globals : ∀ entry ∈ env.globals, entry.2.Writable
  functions : ∀ entry ∈ env.functions, entry.2.Writable
  classes : ∀ entry ∈ env.classes, entry.2.Writable

theorem FunDef.Writable.signature {α : Type} {fn : FunDef α} (h : fn.Writable) :
    fn.signature.Writable where
  parameters := List.forall_mem_map.mpr h.parameters
  ret := h.ret

theorem ClassDef.Writable.info {α : Type} {cls : ClassDef α} (h : cls.Writable) :
    cls.info.Writable where
  fields := Table.forall_insertAll nofun (List.forall_mem_map.mpr h.fields)
  methods := Table.forall_insertAll nofun
    (List.forall_mem_map.mpr fun method hmethod => (h.methods method hmethod).signature)

/-- The builtin functions have writable types. -/
theorem Env.builtins_writable : Env.builtins.Writable where
  globals := List.forall_mem_nil _
  functions := by
    simp only [builtins, List.forall_mem_cons]
    refine ⟨?_, ?_, ?_, ?_, ?_, List.forall_mem_nil _⟩ <;>
      exact ⟨by simp [Ty.Writable, Ty.writable_plain], trivial⟩
  classes := List.forall_mem_nil _

/-- Declarations with writable types keep an environment writable. -/
theorem Env.Writable.augment {α : Type} {env : Env} {program : Program α} (h : env.Writable)
    (hprogram : program.Writable) : (env.augment program).Writable where
  globals := Table.forall_insertAll h.globals (List.forall_mem_map.mpr hprogram.inits)
  functions := Table.forall_insertAll h.functions
    (List.forall_mem_map.mpr fun fn hfn => (hprogram.funs fn hfn).signature)
  classes := Table.forall_insertAll h.classes
    (List.forall_mem_map.mpr fun cls hcls => (hprogram.classes cls hcls).info)

end Offside
