/-! # Tables

A table assigns values to names and keeps the names in the order of their first appearance.

* **`Table.put`** — a new name comes last; a name that is there keeps its place and changes value.
* **`Table.get?`** — the value of a name.
* **`Table.names`** — the names in order. -/

namespace Descent

/-- Names with values, in order. -/
abbrev Table (α : Type) := List (String × α)

namespace Table

variable {α : Type}

/-- The value of a name. -/
def get? : Table α → String → Option α
  | [], _ => none
  | (key, value) :: rest, name => if key = name then some value else get? rest name

/-- The table with a value for a name: in the place of the name, or at the end. -/
def put : Table α → String → α → Table α
  | [], name, value => [(name, value)]
  | (key, old) :: rest, name, value =>
      if key = name then (key, value) :: rest else (key, old) :: put rest name value

/-- The names in order. -/
def names (table : Table α) : List String := table.map (·.1)

/-- Whether a name has a value. -/
def has (table : Table α) (name : String) : Bool := (table.get? name).isSome

/-- The table with the entries of another put into it, one by one. -/
def putAll (table entries : Table α) : Table α :=
  entries.foldl (fun table entry => table.put entry.1 entry.2) table

@[simp] theorem get?_nil (name : String) : get? ([] : Table α) name = none := rfl

@[simp] theorem get?_put_self (table : Table α) (name : String) (value : α) :
    (table.put name value).get? name = some value := by
  induction table with
  | nil => simp [put, get?]
  | cons entry rest ih =>
    obtain ⟨key, old⟩ := entry
    by_cases h : key = name <;> simp [put, get?, h, ih]

/-- A value put under one name leaves the others alone. -/
theorem get?_put_of_ne (table : Table α) {name other : String} (value : α) (h : name ≠ other) :
    (table.put name value).get? other = table.get? other := by
  induction table with
  | nil => simp [put, get?, h]
  | cons entry rest ih =>
    obtain ⟨key, old⟩ := entry
    by_cases hk : key = name
    · subst hk
      simp [put, get?, h]
    · by_cases ho : key = other
      · subst ho
        simp [put, get?, hk]
      · simp [put, get?, hk, ho, ih]

/-- A name that is there keeps its place. -/
theorem names_put_of_mem (table : Table α) {name : String} (value : α) (h : name ∈ table.names) :
    (table.put name value).names = table.names := by
  induction table with
  | nil => simp [names] at h
  | cons entry rest ih =>
    obtain ⟨key, old⟩ := entry
    by_cases hk : key = name
    · simp [put, names, hk]
    · have hrest : name ∈ names rest := by
        simpa [names, Ne.symm hk] using h
      have := ih hrest
      simp only [names] at this
      simp [put, names, hk, this]

/-- A new name comes last. -/
theorem names_put_of_notMem (table : Table α) {name : String} (value : α)
    (h : name ∉ table.names) : (table.put name value).names = table.names ++ [name] := by
  induction table with
  | nil => rfl
  | cons entry rest ih =>
    obtain ⟨key, old⟩ := entry
    simp only [names, List.map_cons, List.mem_cons, not_or] at h
    have hk : key ≠ name := fun e => h.1 e.symm
    have := ih h.2
    simp only [names] at this
    simp [put, names, hk, this]

end Table

end Descent
