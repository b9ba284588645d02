import Offside.Typing.Rules
import Mathlib.Data.List.Forall2

/-!
# What the rules accept

Each typing rule refuses for one of several reasons, or gives a type.  This module says for each
rule when it accepts, and with which type, in terms of the types of the checked parts alone.

Main definitions:

- `FitsEach`: arguments fit parameters.

Main results:

- Theorem `checkArguments_eq_ok`: arguments are accepted if they fit one by one.
- Theorems `functionCall_eq_ok` and `methodCall_eq_ok`: calls.
- Theorem `binOpResult_eq_ok`: binary operators.
-/

namespace Offside
namespace Typing

variable {α β : Type} {cause : Cause} {location : Location} {env : Env} {ty : Ty}

/-! ## Combinators -/

/-- A requirement accepts if its condition holds. -/
@[simp]
theorem require_eq_ok {condition : Bool} {value : Unit} :
    require condition cause location = .ok value ↔ condition = true := by
  cases condition <;> simp [require, refuse]

/-- A demand accepts what is found. -/
theorem demand_eq_ok {found : Option α} {value : α} :
    demand found cause location = .ok value ↔ found = some value := by
  cases found <;> simp [demand, refuse]

/-- Two rules in a row accept when both do. -/
theorem verdict_bind_eq_ok {first : Verdict α} {next : α → Verdict β} {result : β} :
    first >>= next = .ok result ↔ ∃ value, first = .ok value ∧ next value = .ok result := by
  cases first with
  | error diagnostic =>
    simp [Bind.bind, Except.bind]
  | ok value => simp [Bind.bind, Except.bind]

/-- A value that is given is accepted. -/
@[simp]
theorem verdict_pure_eq_ok {value result : α} :
    (pure value : Verdict α) = .ok result ↔ value = result := by
  simp [pure, Except.pure]

/-! ## Conditions on single types -/

/-- A condition is accepted if it is a truth value. -/
theorem expectBool_eq_ok {condition : Expr Typed} {value : Unit} :
    expectBool condition = .ok value ↔ condition.ty.same .bool = true := require_eq_ok

/-- An index is accepted if it is a number. -/
theorem expectIndex_eq_ok {position : Expr Typed} {value : Unit} :
    expectIndex position = .ok value ↔ position.ty.same .num = true := require_eq_ok

/-- An iterable is accepted if it yields elements. -/
theorem expectIterable_eq_ok {iterable : Expr Typed} :
    expectIterable env iterable = .ok ty ↔ env.element? iterable.ty = some ty := demand_eq_ok

/-- A value may be stored where it is assignable. -/
theorem storable_eq_ok {target value : Ty} {done : Unit} :
    storable target value location = .ok done ↔ value.isAssignable target = true := require_eq_ok

/-! ## Fields and elements -/

/-- The class of an object is the one of its name. -/
theorem classOf_eq_ok {operation : String} {object : Expr Typed} {found : String × ClassInfo} :
    classOf env operation object location = .ok found ↔
      object.ty.className? = some found.1 ∧ env.class? found.1 = some found.2 := by
  rcases found with ⟨name, cls⟩
  simp only [classOf, expectObject, verdict_bind_eq_ok, demand_eq_ok, verdict_pure_eq_ok,
    Prod.mk.injEq]
  constructor
  · rintro ⟨_, hname, _, hcls, rfl, rfl⟩
    exact ⟨hname, hcls⟩
  · rintro ⟨hname, hcls⟩
    exact ⟨name, hname, cls, hcls, rfl, rfl⟩

/-- A field is looked up in the class of the object. -/
theorem fieldType_eq_ok {operation field : String} {object : Expr Typed} :
    fieldType env operation object field location = .ok ty ↔ ∃ name cls,
      object.ty.className? = some name ∧ env.class? name = some cls ∧
        Table.find? cls.fields field = some ty := by
  simp only [fieldType, verdict_bind_eq_ok, classOf_eq_ok, demand_eq_ok]
  constructor
  · rintro ⟨⟨name, cls⟩, ⟨hname, hcls⟩, hfield⟩
    exact ⟨name, cls, hname, hcls, hfield⟩
  · rintro ⟨name, cls, hname, hcls, hfield⟩
    exact ⟨(name, cls), ⟨hname, hcls⟩, hfield⟩

/-- An element is that of a list, at a number. -/
theorem indexType_eq_ok {object position : Expr Typed} :
    indexType object position location = .ok ty ↔
      position.ty.same .num = true ∧ object.ty = .list ty := by
  simp only [indexType, verdict_bind_eq_ok, expectIndex_eq_ok]
  constructor
  · rintro ⟨_, hposition, h⟩
    split at h
    · cases h
      exact ⟨hposition, by assumption⟩
    · nomatch h
  · rintro ⟨hposition, hobject⟩
    exact ⟨(), hposition, by rw [hobject]; rfl⟩

/-! ## Calls -/

/-- Arguments fit parameters in number and, one by one, in type. -/
def FitsEach (parameters : List Ty) (arguments : List (Expr Typed)) : Prop :=
  List.Forall₂ (fun parameter argument => argument.ty.isAssignable parameter = true) parameters
    arguments

/-- No argument misfits if each of them fits its parameter. -/
theorem find?_misfit_eq_none {parameters : List Ty} {arguments : List (Expr Typed)}
    (hlength : parameters.length = arguments.length) :
    ((parameters.zip arguments).find? fun (parameter, argument) =>
      !argument.ty.isAssignable parameter) = none ↔ FitsEach parameters arguments := by
  rw [FitsEach, List.forall₂_iff_zip, List.find?_eq_none]
  constructor
  · intro h
    refine ⟨hlength, fun hmem => ?_⟩
    simpa using h _ hmem
  · rintro ⟨-, h⟩ ⟨parameter, argument⟩ hmem
    simpa using h hmem

/-- Arguments are accepted if they fit the parameters. -/
theorem checkArguments_eq_ok {name : String} {parameters : List Ty}
    {arguments : List (Expr Typed)} {value : Unit} :
    checkArguments name parameters arguments location = .ok value ↔
      FitsEach parameters arguments := by
  unfold checkArguments
  split
  · next hlength =>
    rw [← find?_misfit_eq_none hlength]
    generalize (parameters.zip arguments).find? _ = misfit
    rcases misfit with _ | ⟨parameter, argument⟩ <;> simp [refuse]
  · next hlength =>
    constructor
    · exact nofun
    · intro h
      exact absurd h.length_eq hlength

/-- A function that is called is there, and its result is that of the call. -/
theorem functionCall_eq_ok {name : String} {arguments : List (Expr Typed)} :
    functionCall env name arguments location = .ok ty ↔ ∃ signature,
      env.function? name = some signature ∧ FitsEach signature.parameters arguments ∧
        signature.ret = ty := by
  simp only [functionCall, verdict_bind_eq_ok, demand_eq_ok, checkArguments_eq_ok,
    verdict_pure_eq_ok, exists_const]

/-- `print` takes what is no object and gives it back; the other builtin functions are called as
functions. -/
theorem builtinCall_eq_ok {name : String} {argument : Expr Typed} :
    builtinCall env name argument location = .ok ty ↔
      if name = "print" then argument.ty.isObject = false ∧ argument.ty = ty
      else functionCall env name [argument] location = .ok ty := by
  unfold builtinCall
  split
  · simp only [verdict_bind_eq_ok, require_eq_ok, verdict_pure_eq_ok, exists_const,
      Bool.not_eq_true']
  · rfl

/-- An object is created from what its constructor takes behind the receiver. -/
theorem construction_eq_ok {cls : ClassInfo} {name : String} {arguments : List (Expr Typed)}
    {value : Unit} :
    construction cls name arguments location = .ok value ↔
      ∀ constructor, Table.find? cls.methods "__init__" = some constructor →
        FitsEach constructor.parameters.tail arguments ∧ constructor.ret.same .none = true := by
  unfold construction
  split
  · next constructor hfound =>
    simp [verdict_bind_eq_ok, checkArguments_eq_ok, hfound]
  · next hnone => simp [hnone]

/-- A method is looked up in the class of the object, which is its first argument. -/
theorem methodCall_eq_ok {object : Expr Typed} {method : String}
    {arguments : List (Expr Typed)} :
    methodCall env object method arguments location = .ok ty ↔ ∃ name cls signature,
      object.ty.className? = some name ∧ env.class? name = some cls ∧
        Table.find? cls.methods method = some signature ∧
        FitsEach signature.parameters (object :: arguments) ∧ signature.ret = ty := by
  simp only [methodCall, verdict_bind_eq_ok, classOf_eq_ok, demand_eq_ok]
  constructor
  · rintro ⟨⟨name, cls⟩, ⟨hname, hcls⟩, signature, hmethod, h⟩
    refine ⟨name, cls, signature, hname, hcls, hmethod, ?_⟩
    split at h
    · nomatch h
    · next receiver parameters hparameters =>
      simp only [verdict_bind_eq_ok, require_eq_ok, checkArguments_eq_ok, verdict_pure_eq_ok] at h
      rcases h with ⟨_, hreceiver, _, harguments, hret⟩
      rw [hparameters]
      exact ⟨.cons hreceiver harguments, hret⟩
  · rintro ⟨name, cls, signature, hname, hcls, hmethod, hfits, hret⟩
    refine ⟨(name, cls), ⟨hname, hcls⟩, signature, hmethod, ?_⟩
    split
    · next hparameters =>
      rw [hparameters] at hfits
      nomatch hfits
    · next receiver parameters hparameters =>
      rw [hparameters] at hfits
      cases hfits with
      | cons hreceiver harguments =>
        simp only [verdict_bind_eq_ok, require_eq_ok, checkArguments_eq_ok, verdict_pure_eq_ok]
        exact ⟨(), hreceiver, (), harguments, hret⟩

/-! ## Lists and operators -/

/-- The elements of a list fit the first one, which gives the type. -/
theorem listType_eq_ok {elements : List (Expr Typed)} :
    listType elements = .ok ty ↔
      match elements with
      | [] => Ty.list .none = ty
      | first :: rest =>
        (∀ element ∈ rest, element.ty.isAssignable first.ty = true) ∧ .list first.ty = ty := by
  unfold listType
  split
  · simp
  · next first rest =>
    have hnone : (rest.find? fun element => !element.ty.isAssignable first.ty) = none ↔
        ∀ element ∈ rest, element.ty.isAssignable first.ty = true := by
      simp [List.find?_eq_none]
    simp only [← hnone]
    generalize rest.find? _ = misfit
    cases misfit <;> simp [refuse]

/-- A unary operator takes operands of its own type. -/
theorem uniOpResult_eq_ok {op : UniOp} {operand : Ty} :
    uniOpResult op operand location = .ok ty ↔
      operand.same (uniOpType op) = true ∧ operand = ty := by
  simp only [uniOpResult, verdict_bind_eq_ok, require_eq_ok, verdict_pure_eq_ok, exists_const]

/-- The type that both operands of an arithmetic or logical operator have, and its result. -/
def operandType : BinOp → Option (Ty × Ty)
  | .plus | .minus | .mul | .idiv | .mod => some (.num, .num)
  | .lte | .gte | .lt | .gt => some (.num, .bool)
  | .and | .or => some (.bool, .bool)
  | .eq | .neq | .is => none

/-- Numbers are added and compared, truth values combined; equality is for equal types that are
no objects, and identity for references. -/
theorem binOpResult_eq_ok {op : BinOp} {left right : Ty} :
    binOpResult op left right location = .ok ty ↔
      match operandType op with
      | some (operand, result) => (left.same operand && right.same operand) = true ∧ result = ty
      | none =>
        (if op = .is then left.isReference && right.isReference
          else !(left.isObject || right.isObject) && left.same right) = true ∧ .bool = ty := by
  cases op <;>
    simp only [binOpResult, bothAre, operandType, verdict_bind_eq_ok, require_eq_ok,
      verdict_pure_eq_ok, exists_const, Bool.and_eq_true, and_assoc, if_true, reduceCtorEq,
      if_false]

end Typing
end Offside
