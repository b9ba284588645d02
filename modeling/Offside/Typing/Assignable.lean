import Offside.Ty

/-!
# Assignability

When a value of one type may stand where another type is expected.
-/

namespace Offside
namespace Ty

/-- Equality of types in which a list of `None` on the left, the type of the empty list,
equals every list, at any depth of lists and generators. -/
def agrees : Ty → Ty → Bool
  | .list left, .list right => same left .none || agrees left right
  | .generator left, .generator right => agrees left right
  | left, right => same left right

/-- Whether a value of the first type may stand where the second is expected: the types
agree; `None` stands for any object, list or generator; a generator stands for the class
`generator`, and for a generator of a wider element type. -/
def isAssignable : Ty → Ty → Bool
  | .generator value, .generator target =>
    agrees (.generator value) (.generator target) || isAssignable value target
  | .generator _, .object name _ => name = "generator"
  | .none, .object .. | .none, .list _ | .none, .generator _ => true
  | value, target => agrees value target

end Ty
end Offside
