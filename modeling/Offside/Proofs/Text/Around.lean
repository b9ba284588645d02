import Offside.Text.Blank

/-!
# Texts around a character

What is taken or dropped at an end of a text up to the first character that stays does not depend
on what stands on the other side of this character.

Main results:

- Theorems `takeWhile_append_cons` and `dropWhile_append_cons`: at the start of a text.
- Theorem `dropEnd_append_cons`: at the end of a text.
-/

namespace Offside

section Around

variable {p : Char → Bool} {c : Char} (hc : p c = false) (before after : List Char)

include hc

/-- What is taken from the start of a text does not reach beyond a character that stays. -/
theorem takeWhile_append_cons :
    (before ++ c :: after).takeWhile p = before.takeWhile p := by
  rw [List.takeWhile_append, List.takeWhile_cons_of_neg (by simp [hc])]
  split
  · next hall =>
    rw [List.append_nil]
    exact ((List.takeWhile_prefix p).eq_of_length hall).symm
  · rfl

/-- What is dropped from the start of a text does not reach beyond a character that stays. -/
theorem dropWhile_append_cons :
    (before ++ c :: after).dropWhile p = before.dropWhile p ++ c :: after := by
  rw [List.dropWhile_append, List.dropWhile_cons_of_neg (by simp [hc])]
  cases before.dropWhile p with
  | nil => rfl
  | cons d rest => rfl

/-- What is dropped from the end of a text does not reach beyond a character that stays. -/
theorem dropEnd_append_cons :
    ((before ++ c :: after).reverse.dropWhile p).reverse =
      before ++ c :: (after.reverse.dropWhile p).reverse := by
  rw [List.reverse_append, List.reverse_cons, List.append_assoc, List.singleton_append,
    dropWhile_append_cons hc]
  simp

end Around

end Offside
