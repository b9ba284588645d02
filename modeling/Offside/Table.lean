/-!
# Tables

Finite maps from names, kept in the order in which the names came first.
-/

namespace Offside

/-- A finite map from names; of several entries for a name the first counts. -/
abbrev Table (β : Type) := List (String × β)

namespace Table

variable {β : Type}

/-- The value at a name. -/
def find? (table : Table β) (name : String) : Option β := List.lookup name table

/-- Sets the value at a name. -/
def insert (table : Table β) (name : String) (value : β) : Table β :=
  match table with
  | [] => [(name, value)]
  | (key, old) :: rest =>
    if key = name then (key, value) :: rest else (key, old) :: insert rest name value

/-- Sets the values of several entries, one after the other. -/
def insertAll (table : Table β) (entries : List (String × β)) : Table β :=
  entries.foldl (fun table entry => insert table entry.1 entry.2) table

/-- In the empty table nothing is found. -/
@[simp]
theorem find?_nil (name : String) : find? ([] : Table β) name = none := rfl

/-- The first entry of a name is the one that is found. -/
theorem find?_cons (key : String) (value : β) (rest : Table β) (name : String) :
    find? ((key, value) :: rest) name = if name = key then some value else find? rest name := by
  by_cases h : name = key
  · simp [find?, h]
  · have hb : (name == key) = false := by simpa using h
    simp [find?, List.lookup_cons, h, hb]

/-- What is found after setting a value: that value at its name, and what was there before
at every other name. -/
theorem find?_insert (table : Table β) (name : String) (value : β) (other : String) :
    find? (insert table name value) other =
      if other = name then some value else find? table other := by
  induction table with
  | nil => simp [insert, find?_cons]
  | cons entry rest ih =>
    obtain ⟨key, old⟩ := entry
    by_cases hk : key = name
    · subst hk
      by_cases ho : other = key <;> simp [insert, find?_cons, ho]
    · by_cases ho : other = key
      · subst ho
        simp [insert, find?_cons, hk]
      · simp [insert, find?_cons, hk, ho, ih]

end Table
end Offside
