/-!
# Types

The types of the language: numbers, truth values, `None`, objects of a class, lists,
sets, generators, type variables, and the two outcomes of a conditional that do not
agree.

* `Ty.text` is the written form of a type.
* `Ty.same` is the equality of the language: an object type is known by the name of
  its class alone, everything else by its parts.
-/

namespace Offside

/-- A type of the language. -/
inductive Ty where
  | num
  | bool
  | none
  | typeVar
  /-- Objects of the named class, with the arguments of its type parameters. -/
  | object (name : String) (arguments : List Ty)
  | list (element : Ty)
  | set (element : Ty)
  | generator (element : Ty)
  /-- The outcomes of a conditional whose branches disagree; users cannot write it. -/
  | either (left right : Ty)
  deriving Repr, Inhabited

namespace Ty

/-- The type of a class without type arguments. -/
def plain (name : String) : Ty := .object name []

mutual

/-- The written form of a type. -/
def text : Ty → String
  | .num => "int"
  | .bool => "bool"
  | .none => "None"
  | .typeVar => "TypeVar"
  | .object name [] => name
  | .object name (first :: rest) =>
    name ++ "[" ++ ", ".intercalate (text first :: texts rest) ++ "]"
  | .list element => "[" ++ text element ++ "]"
  | .set element => "set[" ++ text element ++ "]"
  | .generator element => "generator[" ++ text element ++ "]"
  | .either left right => "either[" ++ text left ++ ", " ++ text right ++ "]"

/-- The written forms of several types. -/
def texts : List Ty → List String
  | [] => []
  | first :: rest => text first :: texts rest

end

/-- Equality of the language: type arguments of a class do not count. -/
def same : Ty → Ty → Bool
  | .num, .num => true
  | .bool, .bool => true
  | .none, .none => true
  | .typeVar, .typeVar => true
  | .object left _, .object right _ => left = right
  | .list left, .list right => same left right
  | .set left, .set right => same left right
  | .generator left, .generator right => same left right
  | .either left right, .either left' right' => same left left' && same right right'
  | _, _ => false

/-- Whether a type is that of the objects of a class. -/
def isObject : Ty → Bool
  | .object .. => true
  | _ => false

/-- The name of the class whose objects a type describes. -/
def className? : Ty → Option String
  | .object name _ => some name
  | _ => Option.none

/-- Whether values of a type can be compared by identity: `None`, objects and
generators. -/
def isReference : Ty → Bool
  | .none | .object .. | .generator _ => true
  | _ => false

/-! ## Equality of the language -/

/-- Each type is equal to itself. -/
@[simp]
theorem same_refl (ty : Ty) : same ty ty = true := by
  induction ty using Ty.rec (motive_2 := fun _ => True) <;> simp_all [same]

/-- Equality is symmetric. -/
theorem same_symm {left right : Ty} (h : same left right = true) : same right left = true := by
  fun_induction same left right <;> simp_all [same]

/-- Equality is transitive. -/
theorem same_trans {a b c : Ty} (hab : same a b = true) (hbc : same b c = true) :
    same a c = true := by
  fun_induction same a b generalizing c <;> cases c <;> grind [same]

end Ty
end Offside
