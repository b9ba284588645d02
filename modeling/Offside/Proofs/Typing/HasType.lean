import Offside.Proofs.Typing.SameTypes

/-!
# The typing rules as relations

The rules of the language, stated without a checker: which types are equal, which values fit where,
what an iterable yields, and which types an expression has, given a module, the variables of a body
and the comprehension items around.  Names are not renamed here and nothing is counted: an item in
scope is known by the name it has in the source.

Main definitions:

- `Ty.Equal`, `Ty.Agrees` and `Ty.Fits`: equality of types, equality up to empty lists, and
  assignability.
- `Env.Yields`: what an iterable yields.
- `BinOp.Gives`: operands and results of the binary operators.
- `Expr.HasType`: the types of an expression.

Main results:

- Theorems `Ty.same_iff`, `Ty.agrees_iff` and `Ty.isAssignable_iff`: the checker decides the
  relations between types.
- Theorem `Env.element?_eq_some_iff`: it finds what an iterable yields.
- Theorem `binOpResult_iff`: it finds the result of an operator.
-/

namespace Offside

/-! ## Types -/

namespace Ty

/-- Two types are equal: objects are known by the name of their class. -/
inductive Equal : Ty → Ty → Prop
  | num : Equal .num .num
  | bool : Equal .bool .bool
  | none : Equal .none .none
  | typeVar : Equal .typeVar .typeVar
  | object {name : String} {arguments arguments' : List Ty} :
    Equal (.object name arguments) (.object name arguments')
  | list {left right : Ty} (element : Equal left right) : Equal (.list left) (.list right)
  | set {left right : Ty} (element : Equal left right) : Equal (.set left) (.set right)
  | generator {left right : Ty} (element : Equal left right) :
    Equal (.generator left) (.generator right)
  | either {left right left' right' : Ty} (onLeft : Equal left left')
    (onRight : Equal right right') : Equal (.either left right) (.either left' right')

/-- Two types are equal, where a list of `None` on the left, the type of the empty list, equals
every list, also as the element type of a list or generator. -/
inductive Agrees : Ty → Ty → Prop
  | equal {left right : Ty} (equal : Equal left right) : Agrees left right
  | emptyList {right : Ty} : Agrees (.list .none) (.list right)
  | list {left right : Ty} (element : Agrees left right) : Agrees (.list left) (.list right)
  | generator {left right : Ty} (element : Agrees left right) :
    Agrees (.generator left) (.generator right)

/-- A value of the first type may stand where the second is expected. -/
inductive Fits : Ty → Ty → Prop
  | agrees {value target : Ty} (agrees : Agrees value target) : Fits value target
  | noObject {name : String} {arguments : List Ty} : Fits .none (.object name arguments)
  | noList {element : Ty} : Fits .none (.list element)
  | noGenerator {element : Ty} : Fits .none (.generator element)
  | generatorObject {element : Ty} {arguments : List Ty} :
    Fits (.generator element) (.object "generator" arguments)
  | generator {value target : Ty} (element : Fits value target) :
    Fits (.generator value) (.generator target)

/-- The checker decides equality of types. -/
theorem same_iff {left right : Ty} : left.same right = true ↔ Equal left right := by
  constructor
  · intro h
    fun_induction same left right with
    | case1 => exact .num
    | case2 => exact .bool
    | case3 => exact .none
    | case4 => exact .typeVar
    | case5 =>
      obtain rfl := of_decide_eq_true h
      exact .object
    | case6 left right ih => exact .list (ih h)
    | case7 left right ih => exact .set (ih h)
    | case8 left right ih => exact .generator (ih h)
    | case9 left right left' right' ihLeft ihRight =>
      rw [Bool.and_eq_true] at h
      exact .either (ihLeft h.1) (ihRight h.2)
    | case10 => cases h
  · intro h
    induction h with
    | num | bool | none | typeVar => rfl
    | object => simp [same]
    | list _ ih | set _ ih | generator _ ih => exact ih
    | either _ _ ihLeft ihRight => rw [same, ihLeft, ihRight, Bool.and_self]

/-- What has no parts that matter is equal to itself alone. -/
theorem same_num_iff {ty : Ty} : ty.same .num = true ↔ ty = .num := by
  cases ty <;> simp [same]

theorem same_bool_iff {ty : Ty} : ty.same .bool = true ↔ ty = .bool := by
  cases ty <;> simp [same]

theorem same_none_iff {ty : Ty} : ty.same .none = true ↔ ty = .none := by
  cases ty <;> simp [same]

/-- What is equal agrees, and what agrees without being equal agrees as lists or generators. -/
theorem agrees_of_same {left right : Ty} (h : left.same right = true) :
    left.agrees right = true := by
  fun_induction agrees left right with
  | case1 left right ih => rw [ih h, Bool.or_true]
  | case2 left right ih => exact ih h
  | case3 => exact h

/-- The checker decides equality up to empty lists. -/
theorem agrees_iff {left right : Ty} : left.agrees right = true ↔ Agrees left right := by
  constructor
  · intro h
    fun_induction agrees left right with
    | case1 left right ih =>
      rw [Bool.or_eq_true, same_none_iff] at h
      rcases h with rfl | h
      · exact .emptyList
      · exact .list (ih h)
    | case2 left right ih => exact .generator (ih h)
    | case3 left right _ _ => exact .equal (same_iff.mp h)
  · intro h
    induction h with
    | equal equal => exact agrees_of_same (same_iff.mpr equal)
    | emptyList => rfl
    | list _ ih => rw [agrees, ih, Bool.or_true]
    | generator _ ih => exact ih

theorem isAssignable_of_agrees {value target : Ty} (h : value.agrees target = true) :
    value.isAssignable target = true := by
  fun_cases isAssignable value target with
  | case1 => rw [h, Bool.true_or]
  | case2 => simp [agrees, same] at h
  | case3 | case4 | case5 => rfl
  | case6 => exact h

/-- The checker decides assignability. -/
theorem isAssignable_iff {value target : Ty} :
    value.isAssignable target = true ↔ Fits value target := by
  constructor
  · intro h
    fun_induction isAssignable value target with
    | case1 value target ih =>
      rw [Bool.or_eq_true] at h
      exact h.elim (fun hagrees => .agrees (agrees_iff.mp hagrees))
        fun hfits => .generator (ih hfits)
    | case2 value name arguments =>
      obtain rfl := of_decide_eq_true h
      exact .generatorObject
    | case3 => exact .noObject
    | case4 => exact .noList
    | case5 => exact .noGenerator
    | case6 => exact .agrees (agrees_iff.mp h)
  · intro h
    induction h with
    | agrees agrees => exact isAssignable_of_agrees (agrees_iff.mpr agrees)
    | noObject | noList | noGenerator => rfl
    | generatorObject => simp [isAssignable]
    | generator _ ih => rw [isAssignable, ih, Bool.or_true]

end Ty

/-! ## Iterables and operators -/

/-- What an iterable yields: a list, set or generator its elements; an object of a class with both
`hasnext` and `next` what `next` returns. -/
inductive Env.Yields (env : Env) : Ty → Ty → Prop
  | list {element : Ty} : Yields env (.list element) element
  | set {element : Ty} : Yields env (.set element) element
  | generator {element : Ty} : Yields env (.generator element) element
  | object {name : String} {arguments : List Ty} {cls : ClassInfo} {hasnext next : Signature}
    (isClass : env.class? name = some cls)
    (hasHasnext : Table.find? cls.methods "hasnext" = some hasnext)
    (hasNext : Table.find? cls.methods "next" = some next) :
    Yields env (.object name arguments) next.ret

/-- The checker finds what an iterable yields. -/
theorem Env.element?_eq_some_iff {env : Env} {ty element : Ty} :
    env.element? ty = some element ↔ env.Yields ty element := by
  constructor
  · intro h
    cases ty with
    | list | set | generator =>
      cases h
      constructor
    | object name arguments =>
      simp only [element?, Option.bind_eq_bind, Option.bind_eq_some_iff, Option.pure_def,
        Option.some.injEq] at h
      obtain ⟨cls, hcls, _, hhasnext, _, hnext, rfl⟩ := h
      exact .object hcls hhasnext hnext
    | num | bool | none | typeVar | either => nomatch h
  · intro h
    cases h with
    | list | set | generator => rfl
    | object isClass hasHasnext hasNext => simp [element?, isClass, hasHasnext, hasNext]

/-- The types of the operands of a binary operator, and of its result: numbers are added and
compared, truth values combined; what is compared for equality has equal types, which are no
classes; what is compared for identity is a reference. -/
inductive BinOp.Gives : BinOp → Ty → Ty → Ty → Prop
  | arithmetic {op : BinOp} (isArithmetic : op ∈ [.plus, .minus, .mul, .idiv, .mod]) :
    Gives op .num .num .num
  | comparison {op : BinOp} (isComparison : op ∈ [.lte, .gte, .lt, .gt]) :
    Gives op .num .num .bool
  | logic {op : BinOp} (isLogic : op ∈ [.and, .or]) : Gives op .bool .bool .bool
  | equality {op : BinOp} {left right : Ty} (isEquality : op ∈ [.eq, .neq])
    (leftNoClass : left.isObject = false) (rightNoClass : right.isObject = false)
    (equal : left.Equal right) : Gives op left right .bool
  | identity {left right : Ty} (onLeft : left.isReference = true)
    (onRight : right.isReference = true) : Gives .is left right .bool

namespace Typing

/-- The checker finds the result of an operator. -/
theorem binOpResult_iff {op : BinOp} {left right ty : Ty} {location : Location} :
    binOpResult op left right location = .ok ty ↔ op.Gives left right ty := by
  constructor
  · intro h
    rw [binOpResult_eq_ok] at h
    cases op <;> simp only [operandType, Bool.and_eq_true, Ty.same_num_iff, Ty.same_bool_iff,
      if_true, reduceCtorEq, if_false, Bool.not_eq_true', Bool.or_eq_false_iff] at h
    case plus | minus | mul | idiv | mod =>
      obtain ⟨⟨rfl, rfl⟩, rfl⟩ := h
      exact .arithmetic (by decide)
    case lte | gte | lt | gt =>
      obtain ⟨⟨rfl, rfl⟩, rfl⟩ := h
      exact .comparison (by decide)
    case and | or =>
      obtain ⟨⟨rfl, rfl⟩, rfl⟩ := h
      exact .logic (by decide)
    case eq | neq =>
      obtain ⟨⟨⟨hleft, hright⟩, hequal⟩, rfl⟩ := h
      exact .equality (by decide) hleft hright (Ty.same_iff.mp hequal)
    case is =>
      obtain ⟨⟨hleft, hright⟩, rfl⟩ := h
      exact .identity hleft hright
  · intro h
    rw [binOpResult_eq_ok]
    cases h with
    | arithmetic isArithmetic =>
      cases op <;> first | exact ⟨rfl, rfl⟩ | exact absurd isArithmetic (by decide)
    | comparison isComparison =>
      cases op <;> first | exact ⟨rfl, rfl⟩ | exact absurd isComparison (by decide)
    | logic isLogic =>
      cases op <;> first | exact ⟨rfl, rfl⟩ | exact absurd isLogic (by decide)
    | equality isEquality leftNoClass rightNoClass equal =>
      have hsame := Ty.same_iff.mpr equal
      cases op <;> first
        | exact absurd isEquality (by decide)
        | simp [operandType, leftNoClass, rightNoClass, hsame]
    | identity onLeft onRight => simp [operandType, onLeft, onRight]

end Typing

/-! ## Expressions -/

/-- The type of the item with a name, from the innermost scope that has one. -/
def itemType? (scopes : List (Table Ty)) (name : String) : Option Ty :=
  scopes.findSome? fun scope => Table.find? scope name

/-- Arguments of some types fit parameters, in number and one by one. -/
abbrev TypesFit (arguments parameters : List Ty) : Prop :=
  List.Forall₂ Ty.Fits arguments parameters

mutual

/-- An expression has a type, given the module, the variables of the body, and the types of the
comprehension items in scope, the innermost scope first.  There is no rule for the creation of an
object as such: a source writes a call. -/
inductive Expr.HasType (env : Env) (vars : Table Ty) :
    List (Table Ty) → Expr Location → Ty → Prop
  | num {scopes : List (Table Ty)} {location location' : Location} {value : Int} :
    HasType env vars scopes (.literal location ⟨location', .num value⟩) .num
  | bool {scopes : List (Table Ty)} {location location' : Location} {value : Bool} :
    HasType env vars scopes (.literal location ⟨location', .bool value⟩) .bool
  | none {scopes : List (Table Ty)} {location location' : Location} :
    HasType env vars scopes (.literal location ⟨location', .none⟩) .none
  | typeVar {scopes : List (Table Ty)} {location location' : Location} :
    HasType env vars scopes (.literal location ⟨location', .typeVar⟩) .typeVar
  | item {scopes : List (Table Ty)} {location : Location} {name : String} {ty : Ty}
    (inScope : itemType? scopes name = some ty) : HasType env vars scopes (.id location name) ty
  | local {scopes : List (Table Ty)} {location : Location} {name : String} {ty : Ty}
    (noItem : itemType? scopes name = Option.none) (declared : Table.find? vars name = some ty) :
    HasType env vars scopes (.id location name) ty
  | global {scopes : List (Table Ty)} {location : Location} {name : String} {ty : Ty}
    (noItem : itemType? scopes name = Option.none)
    (noLocal : Table.find? vars name = Option.none) (declared : env.global? name = some ty) :
    HasType env vars scopes (.id location name) ty
  | binOp {scopes : List (Table Ty)} {location : Location} {op : BinOp}
    {left right : Expr Location} {leftTy rightTy ty : Ty}
    (onLeft : HasType env vars scopes left leftTy)
    (onRight : HasType env vars scopes right rightTy) (gives : op.Gives leftTy rightTy ty) :
    HasType env vars scopes (.binOp location op left right) ty
  | neg {scopes : List (Table Ty)} {location : Location} {operand : Expr Location}
    (onOperand : HasType env vars scopes operand .num) :
    HasType env vars scopes (.uniOp location .neg operand) .num
  | not {scopes : List (Table Ty)} {location : Location} {operand : Expr Location}
    (onOperand : HasType env vars scopes operand .bool) :
    HasType env vars scopes (.uniOp location .not operand) .bool
  | print {scopes : List (Table Ty)} {location : Location} {argument : Expr Location} {ty : Ty}
    (onArgument : HasType env vars scopes argument ty) (noClass : ty.isObject = false) :
    HasType env vars scopes (.builtin1 location "print" argument) ty
  | builtin1 {scopes : List (Table Ty)} {location : Location} {name : String}
    {argument : Expr Location} {argumentTy : Ty} {signature : Signature} (notPrint : name ≠ "print")
    (onArgument : HasType env vars scopes argument argumentTy)
    (isFunction : env.function? name = some signature)
    (fits : TypesFit [argumentTy] signature.parameters) :
    HasType env vars scopes (.builtin1 location name argument) signature.ret
  | builtin2 {scopes : List (Table Ty)} {location : Location} {name : String}
    {left right : Expr Location} {leftTy rightTy : Ty} {signature : Signature}
    (onLeft : HasType env vars scopes left leftTy)
    (onRight : HasType env vars scopes right rightTy)
    (isFunction : env.function? name = some signature)
    (fits : TypesFit [leftTy, rightTy] signature.parameters) :
    HasType env vars scopes (.builtin2 location name left right) signature.ret
  | create {scopes : List (Table Ty)} {location : Location} {name : String}
    {genericArgs : List Ty} {arguments : List (Expr Location)} {argumentTys : List Ty}
    {cls : ClassInfo} {constructor : Signature}
    (onArguments : HaveTypes env vars scopes arguments argumentTys)
    (isClass : env.class? name = some cls)
    (isConstructor : Table.find? cls.methods "__init__" = some constructor)
    (fits : TypesFit argumentTys constructor.parameters.tail) (noResult : constructor.ret = .none) :
    HasType env vars scopes (.call location name genericArgs arguments) (.object name genericArgs)
  /-- A class without a constructor asks nothing of what its objects are made from. -/
  | createAnyhow {scopes : List (Table Ty)} {location : Location} {name : String}
    {genericArgs : List Ty} {arguments : List (Expr Location)} {argumentTys : List Ty}
    {cls : ClassInfo} (onArguments : HaveTypes env vars scopes arguments argumentTys)
    (isClass : env.class? name = some cls)
    (noConstructor : Table.find? cls.methods "__init__" = Option.none) :
    HasType env vars scopes (.call location name genericArgs arguments) (.object name genericArgs)
  | call {scopes : List (Table Ty)} {location : Location} {name : String} {genericArgs : List Ty}
    {arguments : List (Expr Location)} {argumentTys : List Ty} {signature : Signature}
    (onArguments : HaveTypes env vars scopes arguments argumentTys)
    (noClass : env.class? name = Option.none) (isFunction : env.function? name = some signature)
    (fits : TypesFit argumentTys signature.parameters) :
    HasType env vars scopes (.call location name genericArgs arguments) signature.ret
  | lookup {scopes : List (Table Ty)} {location : Location} {object : Expr Location}
    {field name : String} {genericArgs : List Ty} {cls : ClassInfo} {ty : Ty}
    (onObject : HasType env vars scopes object (.object name genericArgs))
    (isClass : env.class? name = some cls) (isField : Table.find? cls.fields field = some ty) :
    HasType env vars scopes (.lookup location object field) ty
  | methodCall {scopes : List (Table Ty)} {location : Location} {object : Expr Location}
    {method name : String} {genericArgs : List Ty} {arguments : List (Expr Location)}
    {argumentTys : List Ty} {cls : ClassInfo} {signature : Signature}
    (onObject : HasType env vars scopes object (.object name genericArgs))
    (onArguments : HaveTypes env vars scopes arguments argumentTys)
    (isClass : env.class? name = some cls)
    (isMethod : Table.find? cls.methods method = some signature)
    (fits : TypesFit (.object name genericArgs :: argumentTys) signature.parameters) :
    HasType env vars scopes (.methodCall location object method arguments) signature.ret
  | index {scopes : List (Table Ty)} {location : Location} {object position : Expr Location}
    {element : Ty} (onObject : HasType env vars scopes object (.list element))
    (onPosition : HasType env vars scopes position .num) :
    HasType env vars scopes (.index location object position) element
  | emptyList {scopes : List (Table Ty)} {location : Location} :
    HasType env vars scopes (.listLiteral location []) (.list .none)
  | list {scopes : List (Table Ty)} {location : Location} {first : Expr Location}
    {rest : List (Expr Location)} {element : Ty} {elementTys : List Ty}
    (onFirst : HasType env vars scopes first element)
    (onRest : HaveTypes env vars scopes rest elementTys)
    (fits : ∀ ty ∈ elementTys, ty.Fits element) :
    HasType env vars scopes (.listLiteral location (first :: rest)) (.list element)
  | ternary {scopes : List (Table Ty)} {location : Location}
    {ifTrue condition ifFalse : Expr Location} {trueTy falseTy : Ty}
    (onTrue : HasType env vars scopes ifTrue trueTy)
    (onCondition : HasType env vars scopes condition .bool)
    (onFalse : HasType env vars scopes ifFalse falseTy) (agrees : trueTy.Agrees falseTy) :
    HasType env vars scopes (.ternary location ifTrue condition ifFalse) trueTy
  | either {scopes : List (Table Ty)} {location : Location}
    {ifTrue condition ifFalse : Expr Location} {trueTy falseTy : Ty}
    (onTrue : HasType env vars scopes ifTrue trueTy)
    (onCondition : HasType env vars scopes condition .bool)
    (onFalse : HasType env vars scopes ifFalse falseTy) (disagree : ¬ trueTy.Agrees falseTy) :
    HasType env vars scopes (.ternary location ifTrue condition ifFalse) (.either trueTy falseTy)
  | comprehension {scopes : List (Table Ty)} {location : Location} {kind : ComprehensionKind}
    {result : Expr Location} {item : String} {iterable : Expr Location}
    {iterableTy element resultTy : Ty} (onIterable : HasType env vars scopes iterable iterableTy)
    (yields : env.Yields iterableTy element)
    (onResult : HasType env vars ([(item, element)] :: scopes) result resultTy) :
    HasType env vars scopes (.comprehension location kind result item iterable Option.none)
      (kind.container element)
  | filtered {scopes : List (Table Ty)} {location : Location} {kind : ComprehensionKind}
    {result : Expr Location} {item : String} {iterable filter : Expr Location}
    {iterableTy element resultTy : Ty} (onIterable : HasType env vars scopes iterable iterableTy)
    (yields : env.Yields iterableTy element)
    (onFilter : HasType env vars ([(item, element)] :: scopes) filter .bool)
    (onResult : HasType env vars ([(item, element)] :: scopes) result resultTy) :
    HasType env vars scopes (.comprehension location kind result item iterable (some filter))
      (kind.container element)

/-- Expressions have types, one by one. -/
inductive Expr.HaveTypes (env : Env) (vars : Table Ty) :
    List (Table Ty) → List (Expr Location) → List Ty → Prop
  | nil {scopes : List (Table Ty)} : HaveTypes env vars scopes [] []
  | cons {scopes : List (Table Ty)} {first : Expr Location} {rest : List (Expr Location)}
    {ty : Ty} {tys : List Ty} (onFirst : HasType env vars scopes first ty)
    (onRest : HaveTypes env vars scopes rest tys) :
    HaveTypes env vars scopes (first :: rest) (ty :: tys)

end

end Offside
