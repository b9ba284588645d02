import Offside.Typing.Session

/-!
# Names for comprehension items

The checker gives each comprehension a new name for its item: the item, behind a mark,
with a number that counts the comprehensions over items of this name.  This module says
which items a tree has, in the order in which they are named, and which names a run of
items gets.

Main definitions:

- `Expr.items`, `Stmt.items` and `Program.items`: the items of a tree.
- `Typing.newNames`: the names that items get one after the other.
- `Typing.names`: all names that counters tell of.
- `Typing.Counted`: the counters tell of each use once.

Main results:

- Theorem `newNames_append`: naming a run of items in two parts.
- Theorem `names_countAll_perm`: the counters of a checker tell the names it has handed
  out.
-/

namespace Offside

variable {α : Type}

/-! ## The items of a tree -/

mutual

/-- The comprehension items of an expression, in the order in which they are named: an
iterable comes before the item, and the filter and the result come behind it. -/
def Expr.items : Expr α → List String
  | .literal _ _ | .id _ _ => []
  | .binOp _ _ left right => left.items ++ right.items
  | .uniOp _ _ operand => operand.items
  | .call _ _ _ arguments | .construct _ _ arguments => Expr.itemsAll arguments
  | .builtin1 _ _ argument => argument.items
  | .builtin2 _ _ left right => left.items ++ right.items
  | .methodCall _ object _ arguments => object.items ++ Expr.itemsAll arguments
  | .lookup _ object _ => object.items
  | .index _ object position => object.items ++ position.items
  | .listLiteral _ elements => Expr.itemsAll elements
  | .ternary _ ifTrue condition ifFalse => ifTrue.items ++ (condition.items ++ ifFalse.items)
  | .comprehension _ _ result item iterable none => iterable.items ++ (item :: result.items)
  | .comprehension _ _ result item iterable (some filter) =>
    iterable.items ++ (item :: (filter.items ++ result.items))

/-- The comprehension items of several expressions. -/
def Expr.itemsAll : List (Expr α) → List String
  | [] => []
  | first :: rest => first.items ++ Expr.itemsAll rest

end

mutual

/-- The comprehension items of a statement, in the order in which they are named. -/
def Stmt.items : Stmt α → List String
  | .assign _ _ value => value.items
  | .fieldAssign _ object _ value => object.items ++ value.items
  | .indexAssign _ object position value => object.items ++ (position.items ++ value.items)
  | .expr _ value | .return _ value => value.items
  | .cond _ condition body otherwise =>
    condition.items ++ (Stmt.itemsAll body ++ Stmt.itemsAll otherwise)
  | .while _ condition body => condition.items ++ Stmt.itemsAll body
  | .for _ _ iterable body otherwise =>
    iterable.items ++ (Stmt.itemsAll body ++ Stmt.itemsAll otherwise)
  | .pass _ | .continue _ | .break _ => []

/-- The comprehension items of several statements. -/
def Stmt.itemsAll : List (Stmt α) → List String
  | [] => []
  | first :: rest => first.items ++ Stmt.itemsAll rest

end

/-- The comprehension items of a function. -/
def FunDef.items (fn : FunDef α) : List String := Stmt.itemsAll fn.body

/-- The comprehension items of a class. -/
def ClassDef.items (cls : ClassDef α) : List String := cls.methods.flatMap FunDef.items

/-- The comprehension items of a program. -/
def Program.items (program : Program α) : List String :=
  program.funs.flatMap FunDef.items ++
    (program.classes.flatMap ClassDef.items ++ Stmt.itemsAll program.stmts)

namespace Typing

open Check (itemName)

/-! ## Counting names -/

/-- How many names have been handed out for an item. -/
def used (counters : Table Nat) (item : String) : Nat := (Table.find? counters item).getD 0

/-- The counters after one more name for an item. -/
def countUp (counters : Table Nat) (item : String) : Table Nat :=
  Table.insert counters item (used counters item + 1)

/-- The counters after one more name for each of some items. -/
def countAll (counters : Table Nat) (items : List String) : Table Nat :=
  items.foldl countUp counters

/-- At first no name has been handed out. -/
@[simp]
theorem used_nil (item : String) : used [] item = 0 := rfl

/-- Counting an item changes the count of this item alone. -/
theorem used_countUp (counters : Table Nat) (item other : String) :
    used (countUp counters item) other =
      if other = item then used counters item + 1 else used counters other := by
  unfold countUp
  rw [used, Table.find?_insert]
  split <;> rfl

/-- Where there are no items, nothing is counted. -/
@[simp]
theorem countAll_nil (counters : Table Nat) : countAll counters [] = counters := rfl

/-- Items are counted one after the other. -/
@[simp]
theorem countAll_cons (counters : Table Nat) (item : String) (items : List String) :
    countAll counters (item :: items) = countAll (countUp counters item) items := rfl

/-- Two rows of items are counted one after the other. -/
@[simp]
theorem countAll_append (counters : Table Nat) (items more : List String) :
    countAll counters (items ++ more) = countAll (countAll counters items) more := by
  simp [countAll]

/-- An item is counted as often as it comes. -/
theorem used_countAll (counters : Table Nat) (items : List String) (item : String) :
    used (countAll counters items) item = used counters item + items.count item := by
  induction items generalizing counters with
  | nil => rfl
  | cons first rest ih =>
    rw [countAll_cons, ih, used_countUp, List.count_cons]
    by_cases hitem : item = first
    · subst hitem
      simp only [if_true, BEq.rfl]
      omega
    · have hne : (first == item) = false := by simpa using Ne.symm hitem
      simp [hitem, hne]

/-! ## The names of a run of items -/

/-- The names that items get, one after the other. -/
def newNames : Table Nat → List String → List String
  | _, [] => []
  | counters, item :: rest =>
    itemName item (used counters item + 1) :: newNames (countUp counters item) rest

/-- Where there are no items, there are no new names. -/
@[simp]
theorem newNames_nil (counters : Table Nat) : newNames counters [] = [] := rfl

/-- The first item gets the next name, and the others are named behind it. -/
@[simp]
theorem newNames_cons (counters : Table Nat) (item : String) (rest : List String) :
    newNames counters (item :: rest) =
      itemName item (used counters item + 1) :: newNames (countUp counters item) rest := rfl

/-- The second part of a run is named with the counters that the first part leaves. -/
@[simp]
theorem newNames_append (counters : Table Nat) (items more : List String) :
    newNames counters (items ++ more) =
      newNames counters items ++ newNames (countAll counters items) more := by
  induction items generalizing counters with
  | nil => rfl
  | cons item items ih => simp [ih]

/-! ## All names handed out -/

/-- The uses of an item with a count: the item with the numbers from one to the count. -/
def usesOf (item : String) (count : Nat) : List (String × Nat) :=
  (List.range count).map fun n => (item, n + 1)

/-- One more use is the last one. -/
theorem usesOf_succ (item : String) (count : Nat) :
    usesOf item (count + 1) = usesOf item count ++ [(item, count + 1)] := by
  simp [usesOf, List.range_succ]

/-- All uses that the counters tell of. -/
def uses (counters : Table Nat) : List (String × Nat) :=
  counters.flatMap fun entry => usesOf entry.1 entry.2

/-- All names that the counters tell of. -/
def names (counters : Table Nat) : List String :=
  (uses counters).map fun use => itemName use.1 use.2

/-- A new use is added to the uses before. -/
theorem uses_countUp_perm (counters : Table Nat) (item : String) :
    (uses (countUp counters item)).Perm ((item, used counters item + 1) :: uses counters) := by
  induction counters with
  | nil => simp [uses, countUp, Table.insert, usesOf]
  | cons entry rest ih =>
    rcases entry with ⟨key, count⟩
    by_cases hkey : key = item
    · subst hkey
      have hused : used ((key, count) :: rest) key = count := by
        simp [used, Table.find?_cons]
      rw [countUp, hused]
      simp only [uses, Table.insert, if_true, List.flatMap_cons, usesOf_succ,
        List.append_assoc, List.singleton_append]
      exact List.perm_middle
    · have hused : used ((key, count) :: rest) item = used rest item := by
        simp [used, Table.find?_cons, Ne.symm hkey]
      have hins : countUp ((key, count) :: rest) item = (key, count) :: countUp rest item := by
        simp [countUp, hused, Table.insert, hkey]
      rw [hused, hins]
      simp only [uses, List.flatMap_cons]
      exact (List.Perm.append_left _ ih).trans List.perm_middle

/-- The names that the counters tell of are those handed out before and since. -/
theorem names_countAll_perm (counters : Table Nat) (items : List String) :
    (names (countAll counters items)).Perm (newNames counters items ++ names counters) := by
  induction items generalizing counters with
  | nil => simp
  | cons item items ih =>
    have hfirst := (uses_countUp_perm counters item).map fun use => itemName use.1 use.2
    have hrest := ih (countUp counters item)
    refine hrest.trans ?_
    exact (List.Perm.append_left _ hfirst).trans List.perm_middle

/-- The uses that counters tell of are told apart, and are those up to the counts. -/
structure Counted (counters : Table Nat) : Prop where
  nodup : (uses counters).Nodup
  mem_iff : ∀ item n, (item, n) ∈ uses counters ↔ 0 < n ∧ n ≤ used counters item

/-- At first all that is counted has been handed out. -/
theorem Counted.nil : Counted [] where
  nodup := List.nodup_nil
  mem_iff item n := by
    have hnone : ¬ (0 < n ∧ n ≤ used [] item) := by
      rw [used_nil]
      omega
    simpa [uses] using hnone

/-- It stays so when one more name is handed out. -/
theorem Counted.countUp {counters : Table Nat} (h : Counted counters) (item : String) :
    Counted (countUp counters item) := by
  have hperm := uses_countUp_perm counters item
  refine ⟨?_, ?_⟩
  · rw [hperm.nodup_iff, List.nodup_cons]
    refine ⟨?_, h.nodup⟩
    intro hmem
    have hle := ((h.mem_iff item _).mp hmem).2
    omega
  · intro other n
    rw [hperm.mem_iff, List.mem_cons, h.mem_iff, used_countUp, Prod.mk.injEq]
    by_cases hother : other = item
    · subst hother
      simp only [if_true, true_and]
      omega
    · simp [hother]

/-- It stays so when names are handed out for a row of items. -/
theorem Counted.countAll {counters : Table Nat} (h : Counted counters) (items : List String) :
    Counted (countAll counters items) := by
  induction items generalizing counters with
  | nil => exact h
  | cons item items ih => exact ih (h.countUp item)

end Typing

/-! ## Checkers and contexts -/

namespace Checker

open Typing

/-- The checker after handing out names for some items. -/
def handOut (checker : Checker) (items : List String) : Checker :=
  { checker with counters := countAll checker.counters items }

/-- A checker hands out names for one row of items after another. -/
@[simp]
theorem handOut_handOut (checker : Checker) (items more : List String) :
    (checker.handOut items).handOut more = checker.handOut (items ++ more) := by
  simp [handOut]

end Checker
end Offside
