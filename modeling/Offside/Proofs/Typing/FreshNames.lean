import Offside.Proofs.Text.Decimal
import Offside.Proofs.Typing.CheckResolves
import Offside.Proofs.Typing.Sessions
import Mathlib.Data.List.Nodup

/-!
# Fresh names

A new name is an item with a number right behind it, and items may end in digits: the
eleventh name of `x` is the first name of `x1`.  This module says exactly which names are
the same, and which sessions hand out a name twice.

Main definitions:

- `RunsInto`: a use of an item has the name of a use of a longer one.

Main results:

- Theorem `itemName_eq`: two uses with one name.
- Theorem `names_nodup_iff`: when the names that counters tell of are distinct.
- Theorem `session_names_nodup_iff`: when the names of a session are distinct.
-/

namespace Offside
namespace Typing

open Check (itemName)

/-! ## Uses with the same name -/

/-- The `n`th use of an item has the name of the `m`th use of another: the other is the item
with a number behind it, and this number comes first in `n`. -/
def RunsInto (item : String) (n : Nat) (other : String) (m : Nat) : Prop :=
  ∃ k, 0 < k ∧ other = item ++ toString k ∧ n = k * 10 ^ (Nat.toDigits 10 m).length + m

theorem toList_itemName (item : String) (n : Nat) :
    (itemName item n).toList = "compvar$".toList ++ (item.toList ++ Nat.toDigits 10 n) := by
  simp [itemName]

/-- If one item begins another, equal names come from equal uses or from a use that runs into
another. -/
theorem eq_or_runsInto {item other : String} {n m : Nat} {behind : List Char}
    (hother : other.toList = item.toList ++ behind)
    (hdigits : Nat.toDigits 10 n = behind ++ Nat.toDigits 10 m) :
    (item = other ∧ n = m) ∨ RunsInto item n other m := by
  by_cases hbehind : behind = []
  · subst hbehind
    left
    rw [List.append_nil] at hother
    exact ⟨String.toList_inj.mp hother.symm, Text.toDigits_inj.mp hdigits⟩
  · right
    rcases Text.toDigits_eq_append hbehind hdigits with ⟨k, hpos, rfl, hvalue⟩
    refine ⟨k, hpos, ?_, hvalue⟩
    rw [← String.toList_inj, hother]
    simp

/-- Two uses with one name are the same, or one runs into the other. -/
theorem itemName_eq {item other : String} {n m : Nat} (h : itemName item n = itemName other m) :
    (item = other ∧ n = m) ∨ RunsInto item n other m ∨ RunsInto other m item n := by
  have hlists := congrArg String.toList h
  rw [toList_itemName, toList_itemName, List.append_cancel_left_eq,
    List.append_eq_append_iff] at hlists
  rcases hlists with ⟨behind, hother, hdigits⟩ | ⟨behind, hitem, hdigits⟩
  · rcases eq_or_runsInto hother hdigits with hsame | hruns
    · exact .inl hsame
    · exact .inr (.inl hruns)
  · rcases eq_or_runsInto hitem hdigits with ⟨rfl, rfl⟩ | hruns
    · exact .inl ⟨rfl, rfl⟩
    · exact .inr (.inr hruns)

/-- The first name of an item with a number behind it is a later name of the item. -/
theorem itemName_ten_mul_add_one (item : String) {k : Nat} (hk : 0 < k) :
    itemName item (10 * k + 1) = itemName (item ++ toString k) 1 := by
  have hdigits : Nat.toDigits 10 (10 * k + 1) = Nat.toDigits 10 k ++ Nat.toDigits 10 1 :=
    (Nat.toDigits_append_toDigits (by decide) hk (by decide)).symm
  rw [← String.toList_inj, toList_itemName, toList_itemName, hdigits]
  simp

/-! ## Distinct names -/

/-- No use runs into another where the counts forbid it. -/
theorem not_runsInto {counters : Table Nat} {item other : String} {n m : Nat}
    (hbound : ∀ item k, 0 < k → 0 < used counters (item ++ toString k) →
      used counters item ≤ 10 * k)
    (hn : n ≤ used counters item) (hm : 0 < m) (hm' : m ≤ used counters other) :
    ¬ RunsInto item n other m := by
  rintro ⟨k, hk, rfl, hvalue⟩
  have hcount := hbound item k hk (by omega)
  have hpow : 10 ≤ 10 ^ (Nat.toDigits 10 m).length :=
    Nat.le_self_pow (Nat.ne_of_gt Nat.length_toDigits_pos) 10
  have hmul : k * 10 ≤ k * 10 ^ (Nat.toDigits 10 m).length := Nat.mul_le_mul_left k hpow
  omega

/-- The names that counters tell of are distinct exactly if, where an item with a number `k`
behind it has been used, the item itself has not been used more than `10 * k` times. -/
theorem names_nodup_iff {counters : Table Nat} (h : Counted counters) :
    (names counters).Nodup ↔
      ∀ item k, 0 < k → 0 < used counters (item ++ toString k) →
        used counters item ≤ 10 * k := by
  rw [names, List.nodup_map_iff_inj_on h.nodup]
  constructor
  · intro hinj item k hk hused
    by_contra hmore
    have hfirst : (item, 10 * k + 1) ∈ uses counters := (h.mem_iff _ _).mpr (by omega)
    have hsecond : (item ++ toString k, 1) ∈ uses counters := (h.mem_iff _ _).mpr (by omega)
    have hsame := hinj _ hfirst _ hsecond (itemName_ten_mul_add_one item hk)
    rw [Prod.mk.injEq] at hsame
    omega
  · rintro hbound ⟨item, n⟩ hfirst ⟨other, m⟩ hsecond heq
    rcases (h.mem_iff _ _).mp hfirst with ⟨hn, hn'⟩
    rcases (h.mem_iff _ _).mp hsecond with ⟨hm, hm'⟩
    rcases itemName_eq heq with ⟨rfl, rfl⟩ | hruns | hruns
    · rfl
    · exact absurd hruns (not_runsInto hbound hn' hm hm')
    · exact absurd hruns (not_runsInto hbound hm' hn hn')

/-- The names of a run of items are distinct exactly if, where an item with a number `k`
behind it is among them, the item itself is not among them more than `10 * k` times. -/
theorem newNames_nodup_iff (items : List String) :
    (newNames [] items).Nodup ↔
      ∀ item k, 0 < k → item ++ toString k ∈ items → items.count item ≤ 10 * k := by
  have hperm := names_countAll_perm [] items
  have hused : ∀ item, used (countAll [] items) item = items.count item := by
    intro item
    rw [used_countAll, used_nil, Nat.zero_add]
  have hnone : names [] = [] := rfl
  rw [hnone, List.append_nil] at hperm
  rw [← hperm.nodup_iff, names_nodup_iff (Counted.nil.countAll items)]
  simp only [hused, List.count_pos_iff]

end Typing

/-! ## Sessions -/

open Typing

/-- In a session each program gets names for a beginning of its items, and the items of the
checked programs are names handed out. -/
theorem session_counters (checker : Checker) (programs : List (Program Location)) :
    ∃ handed : List (List String),
      List.Forall₂ (fun items program => items <+: program.items) handed programs ∧
      (checker.session programs).2.counters = countAll checker.counters handed.flatten ∧
      ((checkedPrograms (checker.session programs).1).flatMap Program.items).Sublist
        (newNames checker.counters handed.flatten) := by
  induction programs generalizing checker with
  | nil => exact ⟨[], .nil, rfl, .slnil⟩
  | cons program rest ih =>
    rcases check_footprint checker program with ⟨first, hprefix, hcounters, hverdict⟩
    rcases ih (checker.check program).2 with ⟨handed, hall, hlast, hitems⟩
    rw [hcounters] at hlast hitems
    refine ⟨first :: handed, .cons hprefix hall, ?_, ?_⟩
    · rw [Checker.session_cons, hlast, List.flatten_cons, countAll_append]
    · rw [Checker.session_cons, List.flatten_cons, newNames_append]
      rcases hverdict with ⟨⟨typed, hok⟩, rfl, -⟩ | ⟨⟨diagnostic, herror⟩, -⟩
      · have hresolves := check_resolves checker _ program typed (Prod.ext hok rfl)
        have hchecked : checkedPrograms ((checker.check program).1 ::
            ((checker.check program).2.session rest).1) =
              typed :: checkedPrograms ((checker.check program).2.session rest).1 := by
          rw [hok]
          rfl
        rw [hchecked, List.flatMap_cons, hresolves.items_eq]
        exact List.Sublist.append (List.Sublist.refl _) hitems
      · have hchecked : checkedPrograms ((checker.check program).1 ::
            ((checker.check program).2.session rest).1) =
              checkedPrograms ((checker.check program).2.session rest).1 := by
          rw [herror]
          rfl
        rw [hchecked]
        exact hitems.trans (List.sublist_append_right _ _)

/-- The names of a session, those of its accepted programs among them, are distinct exactly
if, where an item with a number `k` behind it gets a name, the item itself does not get more
than `10 * k` names. -/
theorem session_names_nodup_iff (env : Env) (programs : List (Program Location)) :
    ∃ handed : List (List String),
      List.Forall₂ (fun items program => items <+: program.items) handed programs ∧
      ((Checker.new env).session programs).2.counters = countAll [] handed.flatten ∧
      ((checkedPrograms ((Checker.new env).session programs).1).flatMap Program.items).Sublist
        (newNames [] handed.flatten) ∧
      ((newNames [] handed.flatten).Nodup ↔
        ∀ item k, 0 < k → item ++ toString k ∈ handed.flatten →
          handed.flatten.count item ≤ 10 * k) := by
  rcases session_counters (Checker.new env) programs with ⟨handed, hall, hlast, hitems⟩
  exact ⟨handed, hall, hlast, hitems, newNames_nodup_iff handed.flatten⟩

/-- A program with eleven comprehensions over `x`, and one with a comprehension over `x1`. -/
def clashingSources : List Source :=
  [(String.join (List.replicate 11 "[x for x in [1]]\n")).toList, "[x1 for x1 in [1]]\n".toList]

/-- The checked programs of a session with the clashing sources. -/
def clashingPrograms : List (Program Typed) :=
  checkedPrograms ((Checker.new .builtins).session
    (clashingSources.filterMap fun source => (parseProgram source).toOption)).1

/-- The eleventh name of `x` is the first of `x1`, and both are in accepted programs. -/
theorem session_names_clash :
    (clashingPrograms.map fun program => program.items.getLast?) =
        [some "compvar$x11", some "compvar$x11"] ∧
      ¬ (clashingPrograms.flatMap Program.items).Nodup := by
  decide +kernel

end Offside
