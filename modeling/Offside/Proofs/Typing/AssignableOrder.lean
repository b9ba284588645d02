import Offside.Proofs.Typing.HasType

/-!
# Assignability orders the types

Assignability mixes the empty list, which stands for lists of any type, `None`, which stands for
every reference, the class `generator`, and generators of wider elements.  Taken together these are
still a partial order: what fits where a second type is expected fits wherever the second type
does, and two types that fit each other are equal.

Main results:

- Theorems `Ty.Agrees.trans` and `Ty.Agrees.antisymm`: equality up to empty lists is an order.
- Theorems `Ty.Fits.trans` and `Ty.Fits.antisymm`: so is assignability.
- Theorem `Ty.isAssignable_order`: what the checker decides is a partial order up to the equality
  of types, and respects it.
-/

namespace Offside
namespace Ty

variable {a b c : Ty}

/-! ## Equality up to empty lists -/

namespace Agrees

/-- Only `None` agrees with `None`. -/
theorem eq_none (h : Agrees a .none) : a = .none := by
  cases h with
  | equal equal => cases equal; rfl

/-- A list agrees with lists alone. -/
theorem exists_list (h : Agrees (.list a) b) : ∃ b', b = .list b' := by
  cases h with
  | equal equal => cases equal; exact ⟨_, rfl⟩
  | emptyList | list => exact ⟨_, rfl⟩

/-- A generator agrees with generators alone. -/
theorem exists_generator (h : Agrees (.generator a) b) :
    ∃ b', b = .generator b' ∧ Agrees a b' := by
  cases h with
  | equal equal => cases equal with | generator element => exact ⟨_, rfl, .equal element⟩
  | generator element => exact ⟨_, rfl, element⟩

/-- Only a generator agrees with a generator. -/
theorem exists_generator_of_target (h : Agrees a (.generator b)) :
    ∃ a', a = .generator a' ∧ Agrees a' b := by
  cases h with
  | equal equal => cases equal with | generator element => exact ⟨_, rfl, .equal element⟩
  | generator element => exact ⟨_, rfl, element⟩

/-- Equal types agree with the same types. -/
theorem congr_left (hequal : Equal a b) (h : Agrees b c) : Agrees a c := by
  rw [← agrees_iff] at h ⊢
  rwa [agrees_congr (same_iff.mpr hequal) (same_refl c)]

/-- Agreement is transitive. -/
theorem trans (hab : Agrees a b) (hbc : Agrees b c) : Agrees a c := by
  induction hab generalizing c with
  | equal hequal => exact congr_left hequal hbc
  | emptyList =>
    obtain ⟨c, rfl⟩ := hbc.exists_list
    exact .emptyList
  | list hab ih =>
    cases hbc with
    | equal hequal => cases hequal with | list hequal => exact .list (ih (.equal hequal))
    | emptyList =>
      -- a list of what agrees with `None` is itself the empty list
      obtain rfl := hab.eq_none
      exact .emptyList
    | list hbc => exact .list (ih hbc)
  | generator _ ih =>
    obtain ⟨c, rfl, helement⟩ := hbc.exists_generator
    exact .generator (ih helement)

/-- Types that agree both ways are equal. -/
theorem antisymm (hab : Agrees a b) (hba : Agrees b a) : Equal a b := by
  induction hab with
  | equal hequal => exact hequal
  | emptyList =>
    cases hba with
    | equal hequal => exact same_iff.mp (same_symm (same_iff.mpr hequal))
    | emptyList => exact .list .none
    | list hba =>
      obtain rfl := hba.eq_none
      exact .list .none
  | list hab ih =>
    cases hba with
    | equal hequal => exact same_iff.mp (same_symm (same_iff.mpr hequal))
    | emptyList =>
      obtain rfl := hab.eq_none
      exact .list .none
    | list hba => exact .list (ih hba)
  | generator _ ih =>
    obtain ⟨_, heq, helement⟩ := hba.exists_generator
    cases heq
    exact .generator (ih helement)

end Agrees

/-! ## Assignability -/

namespace Fits

/-- Every type fits itself. -/
theorem refl (a : Ty) : Fits a a := .agrees (.equal (same_iff.mp (same_refl a)))

/-- An object fits its class alone. -/
theorem exists_object {name : String} {arguments : List Ty} (h : Fits (.object name arguments) b) :
    ∃ arguments', b = .object name arguments' := by
  cases h with
  | agrees agrees =>
    cases agrees with
    | equal equal => cases equal; exact ⟨_, rfl⟩

/-- A list fits lists alone. -/
theorem exists_list (h : Fits (.list a) b) : ∃ b', b = .list b' := by
  cases h with
  | agrees agrees => exact agrees.exists_list

/-- A generator stands for generators and for the class `generator`. -/
theorem of_generator (h : Fits (.generator a) b) :
    (∃ b', b = .generator b' ∧ Fits a b') ∨ ∃ arguments, b = .object "generator" arguments := by
  cases h with
  | agrees agrees =>
    obtain ⟨b, rfl, hagrees⟩ := agrees.exists_generator
    exact .inl ⟨b, rfl, .agrees hagrees⟩
  | generatorObject => exact .inr ⟨_, rfl⟩
  | generator element => exact .inl ⟨_, rfl, element⟩

/-- What agrees with a type fits wherever the type does. -/
theorem of_agrees (hab : Agrees a b) (hbc : Fits b c) : Fits a c := by
  induction hbc generalizing a with
  | agrees hbc => exact .agrees (hab.trans hbc)
  | noObject =>
    obtain rfl := hab.eq_none
    exact .noObject
  | noList =>
    obtain rfl := hab.eq_none
    exact .noList
  | noGenerator =>
    obtain rfl := hab.eq_none
    exact .noGenerator
  | generatorObject =>
    obtain ⟨a, rfl, -⟩ := hab.exists_generator_of_target
    exact .generatorObject
  | generator _ ih =>
    obtain ⟨a, rfl, helement⟩ := hab.exists_generator_of_target
    exact .generator (ih helement)

/-- What fits a type that fits another one fits this one. -/
theorem trans (hab : Fits a b) (hbc : Fits b c) : Fits a c := by
  induction hab generalizing c with
  | agrees hab => exact of_agrees hab hbc
  | noObject =>
    obtain ⟨_, rfl⟩ := hbc.exists_object
    exact .noObject
  | noList =>
    obtain ⟨_, rfl⟩ := hbc.exists_list
    exact .noList
  | noGenerator =>
    obtain ⟨_, rfl, -⟩ | ⟨_, rfl⟩ := hbc.of_generator
    · exact .noGenerator
    · exact .noObject
  | generatorObject =>
    obtain ⟨_, rfl⟩ := hbc.exists_object
    exact .generatorObject
  | generator _ ih =>
    obtain ⟨_, rfl, helement⟩ | ⟨_, rfl⟩ := hbc.of_generator
    · exact .generator (ih helement)
    · exact .generatorObject

/-- What agrees with a type that fits it is equal to the type. -/
theorem equal_of_agrees (hba : Fits b a) (hab : Agrees a b) : Equal a b := by
  induction hba with
  | agrees hba => exact hab.antisymm hba
  | noObject | noList | noGenerator => cases hab.eq_none
  | generatorObject => obtain ⟨_, heq, -⟩ := hab.exists_generator_of_target; cases heq
  | generator _ ih =>
    obtain ⟨_, heq, helement⟩ := hab.exists_generator
    cases heq
    exact .generator (ih helement)

/-- Types that fit each other are equal. -/
theorem antisymm (hab : Fits a b) (hba : Fits b a) : Equal a b := by
  induction hab with
  | agrees hab => exact hba.equal_of_agrees hab
  | noObject => obtain ⟨_, heq⟩ := hba.exists_object; cases heq
  | noList => obtain ⟨_, heq⟩ := hba.exists_list; cases heq
  | noGenerator => obtain ⟨_, heq, -⟩ | ⟨_, heq⟩ := hba.of_generator <;> cases heq
  | generatorObject => obtain ⟨_, heq⟩ := hba.exists_object; cases heq
  | generator _ ih =>
    obtain ⟨_, heq, helement⟩ | ⟨_, heq⟩ := hba.of_generator
    · cases heq
      exact .generator (ih helement)
    · cases heq

end Fits

/-- What the checker decides is a partial order up to the equality of types, and respects this
equality on both sides. -/
theorem isAssignable_order :
    (∀ value target : Ty, value.isAssignable target = true ↔ Fits value target) ∧
    (∀ a : Ty, a.isAssignable a = true) ∧
    (∀ a b c : Ty, a.isAssignable b = true → b.isAssignable c = true →
      a.isAssignable c = true) ∧
    (∀ a b : Ty, a.isAssignable b = true → b.isAssignable a = true → a.same b = true) ∧
    ∀ a a' b b' : Ty, a.same a' = true → b.same b' = true →
      a.isAssignable b = a'.isAssignable b' := by
  refine ⟨fun _ _ => isAssignable_iff, ?_⟩
  simp only [isAssignable_iff]
  refine ⟨Fits.refl, fun _ _ _ => Fits.trans, ?_, fun _ _ _ _ => isAssignable_congr⟩
  exact fun a b hab hba => same_iff.mpr (hab.antisymm hba)

/-- `None` stands for a generator of empty lists, which stands for one of lists of numbers. -/
theorem isAssignable_order_emptyLists :
    Ty.none.isAssignable (.generator (.list .none)) = true ∧
    (Ty.generator (.list .none)).isAssignable (.generator (.list .num)) = true ∧
    Ty.none.isAssignable (.generator (.list .num)) = true :=
  ⟨rfl, rfl, isAssignable_order.2.2.1 _ (.generator (.list .none)) _ rfl rfl⟩

end Ty
end Offside
