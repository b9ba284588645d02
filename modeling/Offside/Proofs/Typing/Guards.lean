import Offside.Proofs.Typing.HasType
import Offside.Proofs.Typing.WellTyped
import Offside.Proofs.Typing.Writable

/-!
# Objects that are printed or compared

The builtin `print` and the operators `==` and `!=` refuse what has the type of a class.  They do
not look into the two outcomes of a conditional, so an object may still reach them as one of the
outcomes.  This module says in which ways: types of outcomes come from conditionals of the program
whose branches disagree, or they stand in a type of the environment, of a declaration, or among the
type arguments that a call is written with.

Main definitions:

- `Ty.holdsObject`: a type is that of a class, or has one among its outcomes.
- `Ty.parts`: a type and all types in it, those among the arguments of a class included.
- `Expr.typeArguments`: the type arguments that a call is written with.
- `Expr.guarded`: what an expression prints or compares.
- `Expr.joined?`: the type of a conditional whose branches disagree.
- `Ty.Accounted`: all outcomes in a type are known.

Main results:

- Theorem `Expr.Resolves.accounted`: no rule makes up outcomes but the one of conditionals.
- Theorem `check_guards_objects`: where objects come from that are printed or compared.
-/

namespace Offside

open Typing

/-! ## Outcomes in types -/

namespace Ty

/-- The outcomes of nested conditionals; of any other type, the type alone. -/
def arms : Ty → List Ty
  | .either left right => left.arms ++ right.arms
  | ty => [ty]

/-- A type is that of a class, or has one among its outcomes, at any depth. -/
def holdsObject (ty : Ty) : Bool := ty.arms.any isObject

mutual

/-- A type and all types in it: those of its elements and outcomes, and the arguments of a class. -/
def parts (ty : Ty) : List Ty :=
  ty :: match ty with
    | .num | .bool | .none | .typeVar => []
    | .object _ arguments => partsOf arguments
    | .list element | .set element | .generator element => element.parts
    | .either left right => left.parts ++ right.parts

/-- Several types and all types in them. -/
def partsOf : List Ty → List Ty
  | [] => []
  | first :: rest => first.parts ++ partsOf rest

end

/-- The parts of several types are those of each. -/
theorem mem_partsOf {part : Ty} {tys : List Ty} :
    part ∈ partsOf tys ↔ ∃ ty ∈ tys, part ∈ ty.parts := by
  induction tys with
  | nil => simp [partsOf]
  | cons first rest ih => simp [partsOf, ih]

/-- A type is a part of itself. -/
theorem self_mem_parts (ty : Ty) : ty ∈ ty.parts := by
  cases ty <;> simp [parts]

/-- All outcomes in a type are known. -/
def Accounted (known : Ty → Prop) (ty : Ty) : Prop :=
  ∀ left right, .either left right ∈ ty.parts → known (.either left right)

variable {known : Ty → Prop}

/-- A type that is accounted for may be written differently. -/
theorem Accounted.of_eq {ty ty' : Ty} (h : ty.Accounted known) (heq : ty = ty') :
    ty'.Accounted known := heq ▸ h

/-- A type that is not one of two outcomes is accounted for by its other parts. -/
theorem accounted_iff {ty : Ty} {others : List Ty} (hparts : ty.parts = ty :: others)
    (hsingle : ∀ left right, ty ≠ .either left right) : ty.Accounted known ↔
      ∀ left right, .either left right ∈ others → known (.either left right) := by
  simp only [Accounted, hparts, List.mem_cons, (hsingle _ _).symm, false_or]

/-- A type without other parts is accounted for. -/
theorem accounted_alone {ty : Ty} (hparts : ty.parts = [ty])
    (hsingle : ∀ left right, ty ≠ .either left right) : ty.Accounted known :=
  (accounted_iff hparts hsingle).mpr nofun

/-- The type of numbers has no outcomes. -/
@[simp]
theorem accounted_num : Ty.num.Accounted known := accounted_alone rfl nofun

/-- Neither has that of truth values. -/
@[simp]
theorem accounted_bool : Ty.bool.Accounted known := accounted_alone rfl nofun

/-- Neither has that of `None`. -/
@[simp]
theorem accounted_none : Ty.none.Accounted known := accounted_alone rfl nofun

/-- Neither has that of type parameters. -/
@[simp]
theorem accounted_typeVar : Ty.typeVar.Accounted known := accounted_alone rfl nofun

/-- The outcomes in the type of a class are those in its arguments. -/
@[simp]
theorem accounted_object {name : String} {arguments : List Ty} :
    (Ty.object name arguments).Accounted known ↔
      ∀ argument ∈ arguments, argument.Accounted known := by
  have hparts : (Ty.object name arguments).parts =
      .object name arguments :: partsOf arguments := rfl
  rw [accounted_iff hparts fun _ _ => Ty.noConfusion]
  simp only [mem_partsOf, Accounted]
  exact ⟨fun h argument hargument left right hpart => h left right ⟨argument, hargument, hpart⟩,
    fun h left right ⟨argument, hargument, hpart⟩ => h argument hargument left right hpart⟩

/-- A class without arguments has no outcomes. -/
theorem accounted_plain (name : String) : (Ty.plain name).Accounted known :=
  accounted_object.mpr nofun

/-- The outcomes in a type of lists are those in the type of the elements. -/
@[simp]
theorem accounted_list {element : Ty} :
    (Ty.list element).Accounted known ↔ element.Accounted known := accounted_iff rfl nofun

/-- So they are for sets. -/
@[simp]
theorem accounted_set {element : Ty} :
    (Ty.set element).Accounted known ↔ element.Accounted known := accounted_iff rfl nofun

/-- So they are for generators. -/
@[simp]
theorem accounted_generator {element : Ty} :
    (Ty.generator element).Accounted known ↔ element.Accounted known := accounted_iff rfl nofun

/-- A conditional is accounted for if its type is known and both outcomes are accounted for. -/
theorem accounted_either {left right : Ty} (hknown : known (.either left right))
    (hleft : left.Accounted known) (hright : right.Accounted known) :
    (Ty.either left right).Accounted known := by
  intro left' right' hmem
  simp only [parts, List.mem_cons, List.mem_append] at hmem
  rcases hmem with heq | hmem | hmem
  · exact heq ▸ hknown
  · exact hleft left' right' hmem
  · exact hright left' right' hmem

/-- What is known of the parts of a type accounts for it. -/
theorem accounted_of_parts {ty : Ty} (h : ∀ part ∈ ty.parts, known part) : ty.Accounted known :=
  fun _ _ hmem => h _ hmem

end Ty

/-! ## Types of environments and declarations -/

/-- The types of a signature. -/
def Signature.types (signature : Signature) : List Ty := signature.ret :: signature.parameters

/-- The types of the fields and methods of a class. -/
def ClassInfo.types (cls : ClassInfo) : List Ty :=
  cls.fields.map Prod.snd ++ cls.methods.flatMap fun entry => entry.2.types

/-- The types in an environment. -/
def Env.types (env : Env) : List Ty :=
  env.globals.map Prod.snd ++ (env.functions.flatMap (fun entry => entry.2.types) ++
    env.classes.flatMap fun entry => entry.2.types)

/-- The outcomes in all types of an environment are known. -/
structure Env.Accounted (known : Ty → Prop) (env : Env) : Prop where
  globals : ∀ entry ∈ env.globals, entry.2.Accounted known
  functions : ∀ entry ∈ env.functions, entry.2.ret.Accounted known
  fields : ∀ entry ∈ env.classes, ∀ field ∈ entry.2.fields, field.2.Accounted known
  methods : ∀ entry ∈ env.classes, ∀ method ∈ entry.2.methods, method.2.ret.Accounted known

/-- An environment is accounted for if all its types are. -/
theorem Env.accounted_of_types {known : Ty → Prop} {env : Env}
    (h : ∀ ty ∈ env.types, ty.Accounted known) : env.Accounted known := by
  simp only [Env.types, ClassInfo.types, Signature.types, List.forall_mem_append,
    List.forall_mem_map, List.forall_mem_flatMap, List.forall_mem_cons] at h
  obtain ⟨hglobals, hfunctions, hclasses⟩ := h
  exact ⟨hglobals, fun entry hentry => (hfunctions entry hentry).1,
    fun entry hentry => (hclasses entry hentry).1,
    fun entry hentry method hmethod => ((hclasses entry hentry).2 method hmethod).1⟩

variable {α : Type}

/-- The types that a function declares: of its parameters, its result and its variables. -/
def FunDef.types (fn : FunDef α) : List Ty := fn.signature.types ++ fn.inits.map VarInit.ty

/-- The types that a class declares. -/
def ClassDef.types (cls : ClassDef α) : List Ty :=
  cls.fields.map VarInit.ty ++ cls.methods.flatMap FunDef.types

/-- The types that a program declares. -/
def Program.types (program : Program α) : List Ty :=
  program.inits.map VarInit.ty ++ (program.funs.flatMap FunDef.types ++
    program.classes.flatMap ClassDef.types)

section Each

variable {P : Ty → Prop}

/-- What the types of a function have, each of its parts declares. -/
theorem FunDef.forall_mem_types {fn : FunDef α} : (∀ ty ∈ fn.types, P ty) ↔
    (P fn.ret ∧ ∀ parameter ∈ fn.parameters, P parameter.ty) ∧ ∀ init ∈ fn.inits, P init.ty := by
  rw [FunDef.types, Signature.types, FunDef.signature, List.forall_mem_append,
    List.forall_mem_cons, List.forall_mem_map, List.forall_mem_map]

/-- What the types of a class have, its fields and methods declare. -/
theorem ClassDef.forall_mem_types {cls : ClassDef α} : (∀ ty ∈ cls.types, P ty) ↔
    (∀ field ∈ cls.fields, P field.ty) ∧ ∀ fn ∈ cls.methods, ∀ ty ∈ fn.types, P ty := by
  rw [ClassDef.types, List.forall_mem_append, List.forall_mem_map, List.forall_mem_flatMap]

/-- What the types of a program have, its declarations declare. -/
theorem Program.forall_mem_types {program : Program α} : (∀ ty ∈ program.types, P ty) ↔
    (∀ init ∈ program.inits, P init.ty) ∧ (∀ fn ∈ program.funs, ∀ ty ∈ fn.types, P ty) ∧
      ∀ cls ∈ program.classes, ∀ ty ∈ cls.types, P ty := by
  rw [Program.types, List.forall_mem_append, List.forall_mem_append, List.forall_mem_map,
    List.forall_mem_flatMap, List.forall_mem_flatMap]

end Each

/-! ## What is printed and compared -/

/-- The type arguments that a call is written with. -/
def Expr.typeArguments : Expr α → List Ty
  | .call _ _ genericArgs _ => genericArgs
  | _ => []

/-- The outcomes in the type arguments that a call is written with are known. -/
def Expr.WrittenAccounted (known : Ty → Prop) (e : Expr α) : Prop :=
  ∀ ty ∈ e.typeArguments, ty.Accounted known

/-- What an expression prints with the builtin `print`, or compares with `==` or `!=`. -/
def Expr.guarded : Expr α → List (Expr α)
  | .builtin1 _ name argument => if name = "print" then [argument] else []
  | .binOp _ op left right => if op = .eq ∨ op = .neq then [left, right] else []
  | _ => []

/-- The type of a conditional whose branches disagree. -/
def Expr.joined? : Expr Typed → Option Ty
  | .ternary note ifTrue _ ifFalse => if ifTrue.ty.agrees ifFalse.ty then none else some note.ty
  | _ => none

/-- What all expressions in an expression have, those have that it prints or compares. -/
theorem Expr.All.guarded {P : Expr α → Prop} {e : Expr α} (h : e.All P) :
    ∀ operand ∈ e.guarded, P operand := by
  match e, h with
  | .builtin1 .., h =>
    rw [Expr.guarded]
    split
    · simpa using h.2.here
    · simp
  | .binOp .., h =>
    rw [Expr.guarded]
    split
    · simpa using ⟨h.2.1.here, h.2.2.here⟩
    · simp
  | .literal .., _ | .id .., _ | .uniOp .., _ | .call .., _ | .construct .., _ | .builtin2 .., _
  | .methodCall .., _ | .lookup .., _ | .index .., _ | .listLiteral .., _ | .ternary .., _
  | .comprehension .., _ => simp [Expr.guarded]

/-! ## What the rules make -/

namespace Typing

variable {env : Env} {known : Ty → Prop} {ty : Ty} {location : Location}

/-- The types of literals have no outcomes. -/
theorem literalType_accounted (value : LiteralValue) : (literalType value).Accounted known := by
  cases value <;> simp [literalType]

/-- A call gives what the environment declares. -/
theorem functionCall_accounted (henv : env.Accounted known) {name : String}
    {arguments : List (Expr Typed)} (h : functionCall env name arguments location = .ok ty) :
    ty.Accounted known := by
  obtain ⟨signature, hfound, -, rfl⟩ := functionCall_eq_ok.mp h
  exact henv.functions _ (Table.mem_of_find? hfound)

/-- A method call gives what the environment declares. -/
theorem methodCall_accounted (henv : env.Accounted known) {object : Expr Typed}
    {method : String} {arguments : List (Expr Typed)}
    (h : methodCall env object method arguments location = .ok ty) : ty.Accounted known := by
  obtain ⟨name, cls, signature, -, hcls, hfound, -, rfl⟩ := methodCall_eq_ok.mp h
  exact henv.methods _ (Table.mem_of_find? hcls) _ (Table.mem_of_find? hfound)

/-- A field has the type that the environment declares. -/
theorem fieldType_accounted (henv : env.Accounted known) {operation field : String}
    {object : Expr Typed} (h : fieldType env operation object field location = .ok ty) :
    ty.Accounted known := by
  obtain ⟨name, cls, -, hcls, hfound⟩ := fieldType_eq_ok.mp h
  exact henv.fields _ (Table.mem_of_find? hcls) _ (Table.mem_of_find? hfound)

/-- What an iterable yields is a part of its type, or the result of a method. -/
theorem element?_accounted (henv : env.Accounted known) {iterable element : Ty}
    (hiterable : iterable.Accounted known) (h : env.element? iterable = some element) :
    element.Accounted known := by
  cases Env.element?_eq_some_iff.mp h with
  | list => exact Ty.accounted_list.mp hiterable
  | set => exact Ty.accounted_set.mp hiterable
  | generator => exact Ty.accounted_generator.mp hiterable
  | object isClass _ hasNext =>
    exact henv.methods _ (Table.mem_of_find? isClass) _ (Table.mem_of_find? hasNext)

/-- A builtin function gives a declared type, or that of its argument. -/
theorem builtinCall_accounted (henv : env.Accounted known) {name : String}
    {argument : Expr Typed} (hargument : argument.ty.Accounted known)
    (h : builtinCall env name argument location = .ok ty) : ty.Accounted known := by
  rw [builtinCall_eq_ok] at h
  split at h
  · exact h.2 ▸ hargument
  · exact functionCall_accounted henv h

/-- Operators give numbers and truth values. -/
theorem binOpResult_accounted {op : BinOp} {left right : Ty}
    (h : binOpResult op left right location = .ok ty) : ty.Accounted known := by
  rw [binOpResult_eq_ok] at h
  cases op <;> (simp only [operandType] at h; simp [← h.2])

/-- The type of a list has the outcomes of that of its first element. -/
theorem listType_accounted {elements : List (Expr Typed)}
    (helements : ∀ element ∈ elements, element.ty.Accounted known)
    (h : listType elements = .ok ty) : ty.Accounted known := by
  rw [listType_eq_ok] at h
  match elements with
  | [] => simp [← h]
  | first :: _ =>
    rw [← h.2, Ty.accounted_list]
    exact helements first List.mem_cons_self

/-- What a comprehension builds has the outcomes of what it goes through. -/
theorem container_accounted {kind : ComprehensionKind} {element : Ty}
    (h : element.Accounted known) : (kind.container element).Accounted known := by
  cases kind <;> simpa [ComprehensionKind.container] using h

end Typing

/-! ## Checked trees -/

/-- An expression obeys its rule, but objects may be created from anything: creations that stand
in an unchecked tree already are not checked for their arguments. -/
def Expr.Follows (env : Env) : Expr Typed → Prop
  | .construct .. => True
  | e => e.Obeys env

/-- An expression that obeys the rules follows them. -/
theorem Expr.Obeys.follows {env : Env} {e : Expr Typed} (h : e.Obeys env) : e.Follows env := by
  cases e <;> trivial

/-- The creation of an object follows the rules. -/
theorem Expr.creationHas_follows (env : Env) (e : Expr Location) :
    e.CreationHas (Expr.Follows env) := by
  cases e <;> first | trivial | exact fun _ => trivial

/-- An expression obeys its rule, and a conditional whose branches disagree has a known type. -/
structure Expr.Explained (env : Env) (known : Ty → Prop) (e : Expr Typed) : Prop where
  follows : e.Follows env
  joined : ∀ ty, e.joined? = some ty → known ty

variable {env : Env} {known : Ty → Prop} {vars : Table Ty}

/-- The two branches of a conditional have its type, or it is known as that of their outcomes. -/
theorem ternary_accounted {note : Typed} {ifTrue condition ifFalse : Expr Typed}
    (h : (Expr.ternary note ifTrue condition ifFalse).Explained env known)
    (htrue : ifTrue.ty.Accounted known) (hfalse : ifFalse.ty.Accounted known) :
    note.ty.Accounted known := by
  obtain ⟨⟨-, hty⟩, hjoined⟩ := h
  rw [ternaryType] at hty
  split at hty
  · exact hty ▸ htrue
  · next hdisagree =>
    have hknown : known note.ty := hjoined note.ty (by simp [Expr.joined?, hdisagree])
    rw [← hty] at hknown ⊢
    exact Ty.accounted_either hknown htrue hfalse

mutual

/-- No rule makes up outcomes but the one of conditionals: if those in the types of all names and
in all written type arguments are known, so are those in the types of all expressions. -/
theorem Expr.Resolves.accounted {around : Bindings} {e : Expr Location} {names : List String}
    {e' : Expr Typed} (h : e.Resolves env vars around names e') (henv : env.Accounted known)
    (hvars : ∀ entry ∈ vars, entry.2.Accounted known)
    (haround : ∀ entry ∈ around, entry.2.2.Accounted known)
    (hwritten : e.All (Expr.WrittenAccounted known))
    (hexplained : e'.All (Expr.Explained env known)) :
    e'.All fun part => part.ty.Accounted known := by
  match h with
  | .literal =>
    exact (literalType_accounted _).of_eq hexplained.1.1.symm
  | .item bound => exact haround _ (Table.mem_of_find? bound)
  | .local _ declared => exact hvars _ (Table.mem_of_find? declared)
  | .global _ _ declared => exact henv.globals _ (Table.mem_of_find? declared)
  | .binOp onLeft onRight =>
    exact ⟨binOpResult_accounted hexplained.1.1,
      onLeft.accounted henv hvars haround hwritten.2.1 hexplained.2.1,
      onRight.accounted henv hvars haround hwritten.2.2 hexplained.2.2⟩
  | .uniOp onOperand =>
    have hoperand := onOperand.accounted henv hvars haround hwritten.2 hexplained.2
    exact ⟨hoperand.here.of_eq (uniOpResult_eq_ok.mp hexplained.1.1).2, hoperand⟩
  | .call _ onArguments =>
    exact ⟨functionCall_accounted henv hexplained.1.1.2,
      onArguments.accounted henv hvars haround hwritten.2 hexplained.2⟩
  | .create _ onArguments =>
    exact ⟨Ty.accounted_object.mpr hwritten.1,
      onArguments.accounted henv hvars haround hwritten.2 hexplained.2⟩
  | .construct onArguments =>
    exact ⟨Ty.accounted_plain _, onArguments.accounted henv hvars haround hwritten.2 hexplained.2⟩
  | .builtin1 onArgument =>
    have hargument := onArgument.accounted henv hvars haround hwritten.2 hexplained.2
    exact ⟨builtinCall_accounted henv hargument.here hexplained.1.1, hargument⟩
  | .builtin2 onLeft onRight =>
    exact ⟨functionCall_accounted henv hexplained.1.1,
      onLeft.accounted henv hvars haround hwritten.2.1 hexplained.2.1,
      onRight.accounted henv hvars haround hwritten.2.2 hexplained.2.2⟩
  | .methodCall onObject onArguments =>
    exact ⟨methodCall_accounted henv hexplained.1.1,
      onObject.accounted henv hvars haround hwritten.2.1 hexplained.2.1,
      onArguments.accounted henv hvars haround hwritten.2.2 hexplained.2.2⟩
  | .lookup onObject =>
    exact ⟨fieldType_accounted henv hexplained.1.1,
      onObject.accounted henv hvars haround hwritten.2 hexplained.2⟩
  | .index onObject onPosition =>
    have hobject := onObject.accounted henv hvars haround hwritten.2.1 hexplained.2.1
    have hlist := hobject.here
    rw [(indexType_eq_ok.mp hexplained.1.1).2, Ty.accounted_list] at hlist
    exact ⟨hlist, hobject, onPosition.accounted henv hvars haround hwritten.2.2 hexplained.2.2⟩
  | .listLiteral onElements =>
    have helements := onElements.accounted henv hvars haround hwritten.2 hexplained.2
    have heach := fun element hmem => (Expr.allOf_iff.mp helements element hmem).here
    exact ⟨listType_accounted heach hexplained.1.1, helements⟩
  | .ternary onTrue onCondition onFalse =>
    have htrue := onTrue.accounted henv hvars haround hwritten.2.1 hexplained.2.1
    have hfalse := onFalse.accounted henv hvars haround hwritten.2.2.2 hexplained.2.2.2
    exact ⟨ternary_accounted hexplained.1 htrue.here hfalse.here, htrue,
      onCondition.accounted henv hvars haround hwritten.2.2.1 hexplained.2.2.1, hfalse⟩
  | .comprehension onIterable yields onResult =>
    have hiterable := onIterable.accounted henv hvars haround hwritten.2.1 hexplained.2.1
    have helement := element?_accounted henv hiterable.here yields
    obtain ⟨⟨element, hyields, hty⟩, -⟩ := hexplained.1
    rw [expectIterable_eq_ok, yields, Option.some.injEq] at hyields
    subst hyields
    exact ⟨(container_accounted helement).of_eq hty, hiterable,
      onResult.accounted henv hvars (List.forall_mem_cons.mpr ⟨helement, haround⟩)
        hwritten.2.2 hexplained.2.2⟩
  | .filtered onIterable yields onFilter onResult =>
    have hiterable := onIterable.accounted henv hvars haround hwritten.2.1 hexplained.2.1
    have helement := element?_accounted henv hiterable.here yields
    obtain ⟨⟨element, hyields, -, hty⟩, -⟩ := hexplained.1
    rw [expectIterable_eq_ok, yields, Option.some.injEq] at hyields
    subst hyields
    exact ⟨(container_accounted helement).of_eq hty, hiterable,
      onFilter.accounted henv hvars (List.forall_mem_cons.mpr ⟨helement, haround⟩)
        hwritten.2.2.1 hexplained.2.2.1,
      onResult.accounted henv hvars (List.forall_mem_cons.mpr ⟨helement, haround⟩)
        hwritten.2.2.2 hexplained.2.2.2⟩

/-- So are the types of expressions in a row. -/
theorem Expr.ResolvesAll.accounted {around : Bindings} {es : List (Expr Location)}
    {names : List String} {es' : List (Expr Typed)}
    (h : Expr.ResolvesAll env vars around es names es') (henv : env.Accounted known)
    (hvars : ∀ entry ∈ vars, entry.2.Accounted known)
    (haround : ∀ entry ∈ around, entry.2.2.Accounted known)
    (hwritten : Expr.AllOf (Expr.WrittenAccounted known) es)
    (hexplained : Expr.AllOf (Expr.Explained env known) es') :
    Expr.AllOf (fun part => part.ty.Accounted known) es' := by
  match h with
  | .nil => trivial
  | .cons onFirst onRest =>
    exact ⟨onFirst.accounted henv hvars haround hwritten.1 hexplained.1,
      onRest.accounted henv hvars haround hwritten.2 hexplained.2⟩

end

/-- The outcomes in the types of what an expression prints or compares are known. -/
def Expr.GuardsAccounted (known : Ty → Prop) (e : Expr Typed) : Prop :=
  ∀ operand ∈ e.guarded, operand.ty.Accounted known

/-- Outside of comprehensions the names stand for variables alone. -/
theorem Expr.Resolves.guardsAccounted {e : Expr Location} {names : List String}
    {e' : Expr Typed} (h : e.Resolves env vars [] names e') (henv : env.Accounted known)
    (hvars : ∀ entry ∈ vars, entry.2.Accounted known)
    (hwritten : e.All (Expr.WrittenAccounted known))
    (hexplained : e'.All (Expr.Explained env known)) :
    e'.All (Expr.GuardsAccounted known) :=
  (h.accounted henv hvars nofun hwritten hexplained).within.mono fun _ hpart => hpart.guarded

mutual

/-- So it is with the expressions of a statement. -/
theorem Stmt.Resolves.guardsAccounted {s : Stmt Location} {names : List String}
    {s' : Stmt Typed} (h : s.Resolves env vars names s') (henv : env.Accounted known)
    (hvars : ∀ entry ∈ vars, entry.2.Accounted known)
    (hwritten : s.All (Expr.WrittenAccounted known))
    (hexplained : s'.All (Expr.Explained env known)) :
    s'.All (Expr.GuardsAccounted known) := by
  match h with
  | .assign onValue | .expr onValue | .return onValue =>
    exact onValue.guardsAccounted henv hvars hwritten hexplained
  | .fieldAssign onObject onValue =>
    exact ⟨onObject.guardsAccounted henv hvars hwritten.1 hexplained.1,
      onValue.guardsAccounted henv hvars hwritten.2 hexplained.2⟩
  | .indexAssign onObject onPosition onValue =>
    exact ⟨onObject.guardsAccounted henv hvars hwritten.1 hexplained.1,
      onPosition.guardsAccounted henv hvars hwritten.2.1 hexplained.2.1,
      onValue.guardsAccounted henv hvars hwritten.2.2 hexplained.2.2⟩
  | .cond onCondition onBody onOtherwise =>
    exact ⟨onCondition.guardsAccounted henv hvars hwritten.1 hexplained.1,
      onBody.guardsAccounted henv hvars hwritten.2.1 hexplained.2.1,
      onOtherwise.guardsAccounted henv hvars hwritten.2.2 hexplained.2.2⟩
  | .while onCondition onBody =>
    exact ⟨onCondition.guardsAccounted henv hvars hwritten.1 hexplained.1,
      onBody.guardsAccounted henv hvars hwritten.2 hexplained.2⟩
  | .for onIterable onBody onOtherwise =>
    exact ⟨onIterable.guardsAccounted henv hvars hwritten.1 hexplained.1,
      onBody.guardsAccounted henv hvars hwritten.2.1 hexplained.2.1,
      onOtherwise.guardsAccounted henv hvars hwritten.2.2 hexplained.2.2⟩
  | .pass | .continue | .break => trivial

/-- So it is with those of statements in a row. -/
theorem Stmt.ResolvesAll.guardsAccounted {block : List (Stmt Location)} {names : List String}
    {block' : List (Stmt Typed)} (h : Stmt.ResolvesAll env vars block names block')
    (henv : env.Accounted known) (hvars : ∀ entry ∈ vars, entry.2.Accounted known)
    (hwritten : Stmt.AllOf (Expr.WrittenAccounted known) block)
    (hexplained : Stmt.AllOf (Expr.Explained env known) block') :
    Stmt.AllOf (Expr.GuardsAccounted known) block' := by
  match h with
  | .nil => trivial
  | .cons onFirst onRest =>
    exact ⟨onFirst.guardsAccounted henv hvars hwritten.1 hexplained.1,
      onRest.guardsAccounted henv hvars hwritten.2 hexplained.2⟩

end

/-! ## Checked programs -/

/-- What one entry of a row of checked entries has, if it has something else, all entries have. -/
theorem ResolvesEach.forall_mem {β γ : Type} {resolves : β → List String → γ → Prop}
    {P : β → Prop} {Q R : γ → Prop} {entries : List β} {names : List String} {entries' : List γ}
    (h : ResolvesEach resolves entries names entries')
    (hstep : ∀ {entry names entry'}, resolves entry names entry' → P entry → Q entry' → R entry')
    (hentries : ∀ entry ∈ entries, P entry) (hentries' : ∀ entry' ∈ entries', Q entry') :
    ∀ entry' ∈ entries', R entry' := by
  induction h with
  | nil => exact nofun
  | cons onFirst _ ih =>
    rw [List.forall_mem_cons] at hentries hentries' ⊢
    exact ⟨hstep onFirst hentries.1 hentries'.1, ih hentries.2 hentries'.2⟩

/-- The outcomes in the types that a function declares and in those it is written with are known. -/
structure FunDef.Accounted (known : Ty → Prop) (fn : FunDef α) : Prop where
  types : ∀ ty ∈ fn.types, ty.Accounted known
  written : fn.All (Expr.WrittenAccounted known)

/-- The outcomes in the types that a class declares and in those it is written with are known. -/
structure ClassDef.Accounted (known : Ty → Prop) (cls : ClassDef α) : Prop where
  types : ∀ ty ∈ cls.types, ty.Accounted known
  written : cls.All (Expr.WrittenAccounted known)

/-- The methods of a class that is accounted for are. -/
theorem ClassDef.Accounted.method {cls : ClassDef α} (h : cls.Accounted known) :
    ∀ fn ∈ cls.methods, fn.Accounted known :=
  fun fn hfn => ⟨(ClassDef.forall_mem_types.mp h.types).2 fn hfn, h.written fn hfn⟩

/-- What a function prints or compares is accounted for. -/
theorem FunDef.Resolves.guardsAccounted {fn : FunDef Location} {names : List String}
    {fn' : FunDef Typed} (h : fn.Resolves env names fn') (henv : env.Accounted known)
    (hfn : fn.Accounted known) (hexplained : fn'.All (Expr.Explained env known)) :
    fn'.All (Expr.GuardsAccounted known) := by
  obtain ⟨⟨-, hparameters⟩, hinits⟩ := FunDef.forall_mem_types.mp hfn.types
  have hvars : ∀ entry ∈ (bodyLocals fn).vars, entry.2.Accounted known :=
    Table.forall_insertAll (Table.forall_insertAll nofun (List.forall_mem_map.mpr hparameters))
      (List.forall_mem_map.mpr hinits)
  exact h.body.guardsAccounted henv hvars hfn.written hexplained

/-- So is what the methods of a class print or compare. -/
theorem ClassDef.Resolves.guardsAccounted {cls : ClassDef Location} {names : List String}
    {cls' : ClassDef Typed} (h : cls.Resolves env names cls') (henv : env.Accounted known)
    (hcls : cls.Accounted known) (hexplained : cls'.All (Expr.Explained env known)) :
    cls'.All (Expr.GuardsAccounted known) :=
  h.methods.forall_mem (fun onFn hfn => onFn.guardsAccounted henv hfn) hcls.method hexplained

/-- So is what a program prints or compares. -/
theorem Program.Resolves.guardsAccounted {program : Program Location} {names : List String}
    {program' : Program Typed} (h : program.Resolves env names program')
    (henv : env.Accounted known) (htypes : ∀ ty ∈ program.types, ty.Accounted known)
    (hwritten : program.All (Expr.WrittenAccounted known))
    (hexplained : program'.All (Expr.Explained env known)) :
    program'.All (Expr.GuardsAccounted known) := by
  obtain ⟨-, hfuns, hclasses⟩ := Program.forall_mem_types.mp htypes
  obtain ⟨_, _, _, -, onFuns, onClasses, onStmts⟩ := h.parts
  have hfunDefs : ∀ fn ∈ program.funs, fn.Accounted known :=
    fun fn hfn => ⟨hfuns fn hfn, hwritten.funs fn hfn⟩
  have hclassDefs : ∀ cls ∈ program.classes, cls.Accounted known :=
    fun cls hcls => ⟨hclasses cls hcls, hwritten.classes cls hcls⟩
  exact ⟨onFuns.forall_mem (fun onFn hfn => onFn.guardsAccounted henv hfn) hfunDefs
      hexplained.funs,
    onClasses.forall_mem (fun onClass hcls => onClass.guardsAccounted henv hcls) hclassDefs
      hexplained.classes,
    onStmts.guardsAccounted henv nofun hwritten.stmts hexplained.stmts⟩

/-- What accounts for the types of an environment and of the declarations of a program accounts
for those of the environment with these declarations. -/
theorem Env.Accounted.augment {program : Program Location}
    (henv : ∀ ty ∈ env.types, ty.Accounted known)
    (hprogram : ∀ ty ∈ program.types, ty.Accounted known) :
    (env.augment program).Accounted known := by
  obtain ⟨hinits, hfuns, hclasses⟩ := Program.forall_mem_types.mp hprogram
  have hret {fn : FunDef Location} (hfn : ∀ ty ∈ fn.types, ty.Accounted known) :
      fn.ret.Accounted known := (FunDef.forall_mem_types.mp hfn).1.1
  have hbefore := Env.accounted_of_types henv
  exact {
    globals := Table.forall_insertAll hbefore.globals (List.forall_mem_map.mpr hinits)
    functions := Table.forall_insertAll
      (P := fun signature : Signature => signature.ret.Accounted known) hbefore.functions
      (List.forall_mem_map.mpr fun fn hfn => hret (hfuns fn hfn))
    fields := Table.forall_insertAll
      (P := fun cls : ClassInfo => ∀ field ∈ cls.fields, field.2.Accounted known) hbefore.fields
      (List.forall_mem_map.mpr fun cls hcls => Table.forall_insertAll nofun
        (List.forall_mem_map.mpr (ClassDef.forall_mem_types.mp (hclasses cls hcls)).1))
    methods := Table.forall_insertAll
      (P := fun cls : ClassInfo => ∀ method ∈ cls.methods, method.2.ret.Accounted known)
      hbefore.methods (List.forall_mem_map.mpr fun cls hcls =>
        Table.forall_insertAll
          (P := fun signature : Signature => signature.ret.Accounted known) nofun
          (List.forall_mem_map.mpr fun fn hfn =>
            hret ((ClassDef.forall_mem_types.mp (hclasses cls hcls)).2 fn hfn))) }

/-- The guards refuse what has the type of a class. -/
theorem Expr.Follows.guarded_isObject {e : Expr Typed} (h : e.Follows env) :
    ∀ operand ∈ e.guarded, operand.ty.isObject = false := by
  match e, h with
  | .builtin1 note name argument, h =>
    rw [Expr.guarded]
    split
    · next hname =>
      have hcall := builtinCall_eq_ok.mp h
      rw [if_pos hname] at hcall
      simpa using hcall.1
    · simp
  | .binOp note op left right, h =>
    rw [Expr.guarded]
    split
    · next hop =>
      have hresult := binOpResult_eq_ok.mp h
      rcases hop with rfl | rfl <;>
        simp only [operandType, reduceCtorEq, if_false, Bool.and_eq_true, Bool.not_eq_true',
          Bool.or_eq_false_iff] at hresult <;>
        simpa using hresult.1.1
    · simp
  | .literal .., _ | .id .., _ | .uniOp .., _ | .call .., _ | .construct .., _ | .builtin2 .., _
  | .methodCall .., _ | .lookup .., _ | .index .., _ | .listLiteral .., _ | .ternary .., _
  | .comprehension .., _ => simp [Expr.guarded]

/-- The type arguments that the calls of a program are written with. -/
def Program.typeArguments (program : Program α) : List Ty :=
  program.exprs.flatMap Expr.typeArguments

/-- Where two outcomes in a type come from: a conditional of the checked program whose branches
disagree, or a type of the environment, of a declaration of the program, or among the type arguments
that its calls are written with. -/
def HasSource (env : Env) (program : Program Location) (program' : Program Typed) (ty : Ty) :
    Prop :=
  (∃ conditional ∈ program'.exprs, conditional.joined? = some ty) ∨
    ∃ source ∈ env.types ++ (program.types ++ program.typeArguments), ty ∈ source.parts

/-- Where objects come from that are printed or compared: nothing that an accepted program prints
with the builtin `print` or compares with `==` or `!=` has the type of a class.  The outcomes in its
type, with classes among them or not and at any depth, are those of a conditional of the program
whose branches disagree, or they stand in a type of the environment, of a declaration, or among the
type arguments that a call of the program is written with. -/
theorem check_guards_objects {checker after : Checker} {program : Program Location}
    {program' : Program Typed} (h : checker.check program = (.ok program', after)) :
    ∀ e ∈ program'.exprs, ∀ operand ∈ e.guarded, operand.ty.isObject = false ∧
      ∀ left right, .either left right ∈ operand.ty.parts →
        HasSource checker.env program program' (.either left right) := by
  have hfollows : program'.All (Expr.Follows (checker.env.augment program)) :=
    check_all (fun _ => Expr.Obeys.follows)
      (Program.all_iff.mpr fun e _ => e.creationHas_follows _) h
  have hdeclared : ∀ ty ∈ checker.env.types ++ (program.types ++ program.typeArguments),
      ty.Accounted (HasSource checker.env program program') :=
    fun ty hty => Ty.accounted_of_parts fun part hpart => .inr ⟨ty, hty, hpart⟩
  rw [List.forall_mem_append, List.forall_mem_append] at hdeclared
  obtain ⟨henv, hprogram, harguments⟩ := hdeclared
  have hwritten : program.All
      (Expr.WrittenAccounted (HasSource checker.env program program')) :=
    Program.all_iff.mpr (List.forall_mem_flatMap.mp harguments)
  have hexplained : program'.All
      (Expr.Explained (checker.env.augment program) (HasSource checker.env program program')) :=
    Program.all_iff.mpr fun e he =>
      ⟨Program.all_iff.mp hfollows e he, fun ty hty => .inl ⟨e, he, hty⟩⟩
  have haccounted := (check_resolves checker after program program' h).guardsAccounted
    (Env.Accounted.augment henv hprogram) hprogram hwritten hexplained
  intro e he operand hoperand
  exact ⟨(Program.all_iff.mp hfollows e he).guarded_isObject operand hoperand,
    Program.all_iff.mp haccounted e he operand hoperand⟩

/-- A class, and one statement about an object of the class or a number. -/
def aboutOutcome (statement : Expr Location → Expr Location) : Program Location :=
  let here : Location := ⟨1, 1, ""⟩
  let outcome : Expr Location := .ternary here (.call here "object" [] [])
    (.literal here ⟨here, .bool true⟩) (.literal here ⟨here, .num 1⟩)
  ⟨here, [], [], [⟨here, "object", [], [], [Lowering.defaultInit here "object" []]⟩],
    [.expr here (statement outcome)]⟩

/-- An object is printed and compared as an outcome of a conditional, and printed by a call with
type arguments, which is one of a function and not of the builtin. -/
theorem check_guards_objects_outcome :
    (∃ program' after operand note,
      (Checker.new .builtins).check (aboutOutcome fun e => .builtin1 default "print" e) =
        (.ok program', after) ∧
      .builtin1 note "print" operand ∈ program'.exprs ∧ operand.ty.holdsObject = true) ∧
    (∃ program' after left right note,
      (Checker.new .builtins).check (aboutOutcome fun e => .binOp default .eq e e) =
        (.ok program', after) ∧
      .binOp note .eq left right ∈ program'.exprs ∧ left.ty.holdsObject = true) ∧
    ∃ program' after operand note,
      (Checker.new .builtins).check
        (aboutOutcome fun _ => .call default "print" [.num] [.call default "object" [] []]) =
          (.ok program', after) ∧
      .call note "print" [.num] [operand] ∈ program'.exprs ∧ operand.ty.holdsObject = true :=
  ⟨⟨_, _, _, _, rfl, .head _, rfl⟩, ⟨_, _, _, _, _, rfl, .head _, rfl⟩,
    ⟨_, _, _, _, rfl, .head _, rfl⟩⟩

/-- The outcome that is printed has the type of no class, and its type is that of a conditional. -/
theorem check_guards_objects_printed :
    ∃ program' after operand note,
      (Checker.new .builtins).check (aboutOutcome fun e => .builtin1 default "print" e) =
        (.ok program', after) ∧
      .builtin1 note "print" operand ∈ program'.exprs ∧ operand.ty.isObject = false ∧
      HasSource .builtins (aboutOutcome fun e => .builtin1 default "print" e) program'
        operand.ty := by
  obtain ⟨program', after, operand, note, h, hmem, hty⟩ : ∃ program' after operand note,
      (Checker.new .builtins).check (aboutOutcome fun e => .builtin1 default "print" e) =
        (.ok program', after) ∧
      .builtin1 note "print" operand ∈ program'.exprs ∧
      operand.ty = .either (.plain "object") .num := ⟨_, _, _, _, rfl, .head _, rfl⟩
  obtain ⟨hobject, hsource⟩ := check_guards_objects h _ hmem operand (.head _)
  refine ⟨program', after, operand, note, h, hmem, hobject, ?_⟩
  rw [hty] at hsource ⊢
  exact hsource _ _ (Ty.self_mem_parts _)

end Offside
