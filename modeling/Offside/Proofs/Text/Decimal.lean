import Mathlib.Algebra.Group.Nat.Defs
import Offside.Text.Integer

/-!
# Written numbers

Numbers written in decimal are read back, and a text in front of a written number makes
another written number only if it is one itself.

Main results:

- Theorem `readInt64?_toDigits`: a written number that fits in 64 bits is read back.
- Theorem `toDigits_eq_append`: the ways to split a written number in front of another.
-/

namespace Offside
namespace Text

/-- The value of digits is the one of the standard library. -/
theorem digitsValue_eq_ofDigitChars (digits : List Char) :
    digitsValue digits = Nat.ofDigitChars 10 digits 0 := rfl

/-- The digits of a number have its value. -/
@[simp]
theorem digitsValue_toDigits (n : Nat) : digitsValue (Nat.toDigits 10 n) = n := by
  rw [digitsValue_eq_ofDigitChars, Nat.ofDigitChars_ten_toDigits]

/-- Different numbers are written differently. -/
theorem toDigits_inj {n m : Nat} : Nat.toDigits 10 n = Nat.toDigits 10 m ↔ n = m := by
  constructor
  · intro h
    have hvalue := congrArg digitsValue h
    rwa [digitsValue_toDigits, digitsValue_toDigits] at hvalue
  · rintro rfl
    rfl

/-- They are read as the number. -/
theorem readDigits?_toDigits (n : Nat) : readDigits? (Nat.toDigits 10 n) = some n := by
  have hdigits : (Nat.toDigits 10 n).all Char.isDigit = true := by
    rw [List.all_eq_true]
    intro c hc
    exact Nat.isDigit_of_mem_toDigits (by decide) (by decide) hc
  simp [readDigits?, Nat.toDigits_ne_nil, hdigits]

/-- A written number that fits in 64 bits is read back. -/
theorem readInt64?_toDigits {n : Nat} (h : n < 2 ^ 63) :
    readInt64? (Nat.toDigits 10 n) = some (n : Int) := by
  have hfits : fitsInt64 (n : Int) = true := by
    simp only [fitsInt64, Bool.and_eq_true, decide_eq_true_eq]
    omega
  have hsign : ∀ c ∈ Nat.toDigits 10 n, c ≠ '+' ∧ c ≠ '-' := by
    intro c hc
    have hdigit := Nat.isDigit_of_mem_toDigits (by decide) (by decide) hc
    constructor <;> rintro rfl <;> simp at hdigit
  unfold readInt64?
  split
  · rename_i digits hdigits
    rw [hdigits] at hsign
    exact absurd rfl (hsign '+' (List.mem_cons_self ..)).1
  · rename_i digits hdigits
    rw [hdigits] at hsign
    exact absurd rfl (hsign '-' (List.mem_cons_self ..)).2
  · simp [readDigits?_toDigits, hfits]

/-- Different digits are written differently. -/
theorem digitChar_inj {n m : Nat} (hn : n < 10) (hm : m < 10)
    (h : Nat.digitChar n = Nat.digitChar m) : n = m := by
  have hvalue := congrArg (fun c => c.toNat - 48) h
  simpa [Nat.toNat_digitChar_sub_48_of_lt_ten, hn, hm] using hvalue

/-- A number that ends with the last digit of another ends with the same digit, and the
digits before it are the same. -/
theorem append_digitChar_inj {front front' : List Char} {n m : Nat} (hn : n < 10) (hm : m < 10)
    (h : front ++ [Nat.digitChar n] = front' ++ [Nat.digitChar m]) : front = front' ∧ n = m := by
  rcases List.append_inj' h rfl with ⟨hfront, hlast⟩
  exact ⟨hfront, digitChar_inj hn hm (List.singleton_inj.mp hlast)⟩

/-- What stands in front of a written number, if both together are a written number, is the
number of tens, hundreds and so on above it. -/
theorem toDigits_eq_append {n m : Nat} {front : List Char} (hfront : front ≠ [])
    (h : Nat.toDigits 10 n = front ++ Nat.toDigits 10 m) :
    ∃ k, 0 < k ∧ front = Nat.toDigits 10 k ∧ n = k * 10 ^ (Nat.toDigits 10 m).length + m := by
  induction m using Nat.strongRecOn generalizing n with
  | ind m ih =>
    have hn : 10 ≤ n := by
      refine Nat.le_of_not_lt ?_
      intro hlt
      have hlength := congrArg List.length h
      rw [Nat.toDigits_of_lt_base (by omega), List.length_append] at hlength
      have hfront_pos := List.length_pos_iff.mpr hfront
      have hdigits_pos : 0 < (Nat.toDigits 10 m).length := Nat.length_toDigits_pos
      simp only [List.length_singleton] at hlength
      omega
    rw [Nat.toDigits_of_base_le (by decide) hn] at h
    by_cases hm : m < 10
    · rw [Nat.toDigits_of_lt_base hm] at h ⊢
      rcases append_digitChar_inj (Nat.mod_lt n (by decide)) hm h with ⟨hk, hlast⟩
      refine ⟨n / 10, by omega, hk.symm, ?_⟩
      rw [List.length_singleton]
      omega
    · have hsplit := Nat.toDigits_of_base_le (n := m) (by decide) (Nat.le_of_not_lt hm)
      rw [hsplit, ← List.append_assoc] at h
      obtain ⟨hrest, hlast⟩ := append_digitChar_inj (Nat.mod_lt n (by decide))
        (Nat.mod_lt m (by decide)) h
      rcases ih (m / 10) (by omega) hrest with ⟨k, hpos, hk, hvalue⟩
      refine ⟨k, hpos, hk, ?_⟩
      rw [hsplit, List.length_append, List.length_singleton, Nat.pow_succ, ← Nat.mul_assoc]
      omega

end Text
end Offside
