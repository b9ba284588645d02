import Offside.Proofs.Typing.RuleSpecs

/-!
# Rules and equal types

The equality of types of the language does not count the type arguments of classes.  No rule can
tell equal types apart: where a rule accepts, it also accepts parts with equal types, and gives an
equal type.

Main definitions:

- `SameTypes`: expressions have equal types, one by one.

Main results:

- Theorem `Ty.isAssignable_congr`: assignability respects the equality of types.
- Theorems `functionCall_same`, `methodCall_same` and the like: the rules respect it.
-/

namespace Offside

/-! ## Types -/

namespace Ty

variable {a a' b b' : Ty}

/-- Equality does not tell equal types apart. -/
theorem same_congr (ha : same a a' = true) (hb : same b b' = true) : same a b = same a' b' := by
  rw [Bool.eq_iff_iff]
  exact ⟨fun h => same_trans (same_symm ha) (same_trans h hb),
    fun h => same_trans ha (same_trans h (same_symm hb))⟩

/-- Neither does the agreement of two branches. -/
theorem agrees_congr (ha : same a a' = true) (hb : same b b' = true) :
    agrees a b = agrees a' b' := by
  fun_induction agrees a b generalizing a' b' with
  | case1 left right ih =>
    cases a' <;> simp only [same, Bool.false_eq_true] at ha
    cases b' <;> simp only [same, Bool.false_eq_true] at hb
    rw [agrees, ih ha hb, same_congr ha (same_refl .none)]
  | case2 left right ih =>
    cases a' <;> simp only [same, Bool.false_eq_true] at ha
    cases b' <;> simp only [same, Bool.false_eq_true] at hb
    rw [agrees, ih ha hb]
  | case3 left right hlists hgenerators =>
    have hsame := same_congr ha hb
    rw [agrees.eq_def]
    split
    · cases left <;> simp only [same, Bool.false_eq_true] at ha
      cases right <;> simp only [same, Bool.false_eq_true] at hb
      exact (hlists _ _ rfl rfl).elim
    · cases left <;> simp only [same, Bool.false_eq_true] at ha
      cases right <;> simp only [same, Bool.false_eq_true] at hb
      exact (hgenerators _ _ rfl rfl).elim
    · exact hsame

/-- Neither does assignability. -/
theorem isAssignable_congr (ha : same a a' = true) (hb : same b b' = true) :
    isAssignable a b = isAssignable a' b' := by
  have hagrees := agrees_congr ha hb
  fun_induction isAssignable a b generalizing a' b' with
  | case1 value target ih =>
    cases a' <;> simp only [same, Bool.false_eq_true] at ha
    cases b' <;> simp only [same, Bool.false_eq_true] at hb
    rw [isAssignable, hagrees, ih ha hb (agrees_congr ha hb)]
  | case2 value name arguments =>
    cases a' <;> simp only [same, Bool.false_eq_true] at ha
    cases b' <;> simp only [same, Bool.false_eq_true, decide_eq_true_eq] at hb
    rw [isAssignable, hb]
  | case3 | case4 | case5 =>
    cases a' <;> simp only [same, Bool.false_eq_true] at ha
    cases b' <;> simp only [same, Bool.false_eq_true] at hb
    rfl
  | case6 value target hgenerators hclass hobject hlist hgenerator =>
    rw [isAssignable.eq_def]
    split
    · cases value <;> simp only [same, Bool.false_eq_true] at ha
      cases target <;> simp only [same, Bool.false_eq_true] at hb
      exact (hgenerators _ _ rfl rfl).elim
    · cases value <;> simp only [same, Bool.false_eq_true] at ha
      cases target <;> simp only [same, Bool.false_eq_true] at hb
      exact (hclass _ _ _ rfl rfl).elim
    · cases value <;> simp only [same, Bool.false_eq_true] at ha
      cases target <;> simp only [same, Bool.false_eq_true] at hb
      exact (hobject _ _ rfl rfl).elim
    · cases value <;> simp only [same, Bool.false_eq_true] at ha
      cases target <;> simp only [same, Bool.false_eq_true] at hb
      exact (hlist _ rfl rfl).elim
    · cases value <;> simp only [same, Bool.false_eq_true] at ha
      cases target <;> simp only [same, Bool.false_eq_true] at hb
      exact (hgenerator _ rfl rfl).elim
    · exact hagrees

/-- Equal types are both those of objects, or none is. -/
theorem isObject_congr (h : same a a' = true) : a.isObject = a'.isObject := by
  cases a <;> cases a' <;> simp_all [same, isObject]

/-- Equal types both take `None`, or none does. -/
theorem isReference_congr (h : same a a' = true) : a.isReference = a'.isReference := by
  cases a <;> cases a' <;> simp_all [same, isReference]

/-- Equal types are those of the same class, if of any. -/
theorem className?_congr (h : same a a' = true) : a.className? = a'.className? := by
  cases a <;> cases a' <;> simp_all [same, className?]

/-- The type arguments of a class do not count. -/
theorem plain_same (name : String) (arguments : List Ty) :
    same (.plain name) (.object name arguments) = true := by
  simp [plain, same]

/-- What equals a list type is a list type. -/
theorem exists_eq_list (h : same a (.list b) = true) : ∃ c, a = .list c ∧ same c b = true := by
  cases a <;> simp only [same, Bool.false_eq_true] at h
  exact ⟨_, rfl, h⟩

/-- What equals the type of a container is the type of a container, with an equal element
type. -/
theorem element?_same {env : Env} (h : same a b = true) {element : Ty}
    (helement : env.element? b = some element) :
    ∃ element', env.element? a = some element' ∧ same element' element = true := by
  cases a <;> cases b <;> simp only [same, Bool.false_eq_true, decide_eq_true_eq] at h
  case object.object =>
    subst h
    exact ⟨element, helement, same_refl element⟩
  case list.list | set.set | generator.generator =>
    cases helement
    exact ⟨_, rfl, h⟩
  all_goals cases helement

end Ty

namespace Typing

/-! ## Rules -/

section Rules

variable {env : Env} {location : Location} {e e' f f' : Expr Typed}
  {es es' : List (Expr Typed)} {ty : Ty}

/-- Expressions have equal types, one by one. -/
def SameTypes (es es' : List (Expr Typed)) : Prop :=
  List.Forall₂ (fun e e' => e.ty.same e'.ty = true) es es'

/-- Arguments with equal types fit the same parameters. -/
theorem FitsEach.same {parameters : List Ty} (h : FitsEach parameters es')
    (hes : SameTypes es es') : FitsEach parameters es := by
  induction h generalizing es with
  | nil =>
    cases hes
    exact .nil
  | cons hfirst _ ih =>
    cases hes with
    | cons hsame hrest =>
      refine .cons ?_ (ih hrest)
      rw [Ty.isAssignable_congr hsame (Ty.same_refl _)]
      exact hfirst

/-- A function takes arguments with equal types, and returns the same. -/
theorem functionCall_same {name : String} (hes : SameTypes es es')
    (h : functionCall env name es' location = .ok ty) :
    functionCall env name es location = .ok ty := by
  rw [functionCall_eq_ok] at h ⊢
  rcases h with ⟨signature, hfound, hfits, hret⟩
  exact ⟨signature, hfound, hfits.same hes, hret⟩

/-- So does a builtin function, but `print` returns what it is given. -/
theorem builtinCall_same {name : String} (he : e.ty.same e'.ty = true)
    (h : builtinCall env name e' location = .ok ty) :
    ∃ ty', builtinCall env name e location = .ok ty' ∧ ty'.same ty = true := by
  rw [builtinCall_eq_ok] at h
  split at h
  · next hprint =>
    rcases h with ⟨hobject, rfl⟩
    refine ⟨e.ty, ?_, he⟩
    rw [builtinCall_eq_ok, if_pos hprint, Ty.isObject_congr he]
    exact ⟨hobject, rfl⟩
  · next hprint =>
    refine ⟨ty, ?_, Ty.same_refl ty⟩
    rw [builtinCall_eq_ok, if_neg hprint]
    exact functionCall_same (.cons he .nil) h

/-- A field has one type in all objects of a class. -/
theorem fieldType_same {operation field : String} (he : e.ty.same e'.ty = true)
    (h : fieldType env operation e' field location = .ok ty) :
    fieldType env operation e field location = .ok ty := by
  rw [fieldType_eq_ok] at h ⊢
  rwa [Ty.className?_congr he]

/-- A method takes objects and arguments with equal types, and returns the same. -/
theorem methodCall_same {method : String} (he : e.ty.same e'.ty = true) (hes : SameTypes es es')
    (h : methodCall env e' method es' location = .ok ty) :
    methodCall env e method es location = .ok ty := by
  rw [methodCall_eq_ok] at h ⊢
  rcases h with ⟨name, cls, signature, hname, hcls, hmethod, hfits, hret⟩
  refine ⟨name, cls, signature, ?_, hcls, hmethod, hfits.same (.cons he hes), hret⟩
  rw [Ty.className?_congr he, hname]

/-- The elements of lists with equal types have equal types. -/
theorem indexType_same (he : e.ty.same e'.ty = true) (hf : f.ty.same f'.ty = true)
    (h : indexType e' f' location = .ok ty) :
    ∃ ty', indexType e f location = .ok ty' ∧ ty'.same ty = true := by
  rw [indexType_eq_ok] at h
  rw [h.2] at he
  rcases Ty.exists_eq_list he with ⟨ty', hlist, hsame⟩
  exact ⟨ty', indexType_eq_ok.mpr ⟨Ty.same_trans hf h.1, hlist⟩, hsame⟩

/-- Lists of elements with equal types have equal types. -/
theorem listType_same (hes : SameTypes es es') (h : listType es' = .ok ty) :
    ∃ ty', listType es = .ok ty' ∧ ty'.same ty = true := by
  cases hes with
  | nil => exact ⟨ty, h, Ty.same_refl ty⟩
  | @cons first first' rest rest' hfirst hrest =>
    rw [listType_eq_ok] at h
    rcases h with ⟨hfits, rfl⟩
    refine ⟨.list first.ty, listType_eq_ok.mpr ⟨?_, rfl⟩, hfirst⟩
    induction hrest with
    | nil => simp
    | cons hnext _ ih =>
      rw [List.forall_mem_cons] at hfits ⊢
      refine ⟨?_, ih hfits.2⟩
      rw [Ty.isAssignable_congr hnext hfirst]
      exact hfits.1

/-- Conditionals with equal types of their branches have equal types. -/
theorem ternaryType_same {a a' b b' : Ty} (ha : a.same a' = true) (hb : b.same b' = true) :
    (ternaryType a b).same (ternaryType a' b') = true := by
  unfold ternaryType
  rw [Ty.agrees_congr ha hb]
  split
  · exact ha
  · simp [Ty.same, ha, hb]

/-- A unary operator takes operands with equal types, with equal results. -/
theorem uniOpResult_same {op : UniOp} {a a' : Ty} (ha : a.same a' = true)
    (h : uniOpResult op a' location = .ok ty) :
    ∃ ty', uniOpResult op a location = .ok ty' ∧ ty'.same ty = true := by
  rw [uniOpResult_eq_ok] at h
  rcases h with ⟨hop, rfl⟩
  exact ⟨a, uniOpResult_eq_ok.mpr ⟨Ty.same_trans ha hop, rfl⟩, ha⟩

/-- A binary operator takes operands with equal types, with the same result. -/
theorem binOpResult_same {op : BinOp} {a a' b b' : Ty} (ha : a.same a' = true)
    (hb : b.same b' = true) (h : binOpResult op a' b' location = .ok ty) :
    binOpResult op a b location = .ok ty := by
  rw [binOpResult_eq_ok] at h ⊢
  rw [Ty.isReference_congr ha, Ty.isReference_congr hb, Ty.isObject_congr ha,
    Ty.isObject_congr hb, Ty.same_congr ha hb]
  split
  · next operand result hop =>
    rw [hop] at h
    rw [Ty.same_congr ha (Ty.same_refl operand), Ty.same_congr hb (Ty.same_refl operand)]
    exact h
  · next hop =>
    rw [hop] at h
    exact h

/-- A condition may have any type that equals that of truth values. -/
theorem expectBool_same (he : e.ty.same e'.ty = true) (h : expectBool e' = .ok ()) :
    expectBool e = .ok () := by
  rw [expectBool_eq_ok] at h ⊢
  exact Ty.same_trans he h

/-- So it is with an index and numbers. -/
theorem expectIndex_same (he : e.ty.same e'.ty = true) (h : expectIndex e' = .ok ()) :
    expectIndex e = .ok () := by
  rw [expectIndex_eq_ok] at h ⊢
  exact Ty.same_trans he h

/-- What iterables with equal types yield has equal types. -/
theorem expectIterable_same (he : e.ty.same e'.ty = true)
    (h : expectIterable env e' = .ok ty) :
    ∃ ty', expectIterable env e = .ok ty' ∧ ty'.same ty = true := by
  rw [expectIterable_eq_ok] at h
  rcases Ty.element?_same he h with ⟨ty', helement, hsame⟩
  exact ⟨ty', expectIterable_eq_ok.mpr helement, hsame⟩

/-- A value fits each target with a type equal to that of one that it fits. -/
theorem storable_same {target target' value value' : Ty} (htarget : target.same target' = true)
    (hvalue : value.same value' = true) (h : storable target' value' location = .ok ()) :
    storable target value location = .ok () := by
  rw [storable_eq_ok] at h ⊢
  rw [Ty.isAssignable_congr hvalue htarget]
  exact h

/-- What comprehensions build from equal types has equal types. -/
theorem container_same (kind : ComprehensionKind) {a a' : Ty} (h : a.same a' = true) :
    (kind.container a).same (kind.container a') = true := by
  cases kind <;> exact h

end Rules

end Typing
end Offside
