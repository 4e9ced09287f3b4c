import Descent.Position

/-! # Values

What parsers produce, and what the functions of a grammar compute with.

* **`Value`** — nothing, a truth value, an integer, a text, a list, a tuple, a place in the source,
  or a node (a value tagged with a name and the span of source it came from).
* **`Value.same`** — when two values count as equal. Truth values are the integers zero and one,
  and a place is the tuple of its three coordinates; all else is equal only to its own kind.
* **`Value.distinct`** — several values, each at its first occurrence.
* **`Value.isKey`** — whether a value can be told apart from others by being looked up, which no
  value can that holds a list.
* **`Value.isUnique`** — whether a value is one and the same wherever it is written.
* **`Value.isTrue`** — whether a value counts as true where a truth value is asked for.
* **`Value.kind`** — the name by which error messages call a value's kind. -/

namespace Descent

/-- A value that a parser can produce. -/
inductive Value : Type where
  /-- The absence of a value. -/
  | nothing
  /-- A truth value. -/
  | bool (truth : Bool)
  /-- An integer. -/
  | int (number : Int)
  /-- A text. -/
  | str (text : String)
  /-- A list of values. -/
  | list (items : List Value)
  /-- A tuple of values. -/
  | tuple (items : List Value)
  /-- A place in the source. -/
  | position (place : Position)
  /-- A value tagged with a name and the span of source that it came from. -/
  | node (name : String) (value : Value) (start stop : Position)
  deriving Inhabited, Repr

namespace Value

/-! ## Equality of values -/

/-- Whether two values are built alike. -/
def equal : Value → Value → Bool
  | .nothing, .nothing => true
  | .bool a, .bool b => a = b
  | .int a, .int b => a = b
  | .str a, .str b => a = b
  | .list a, .list b => equalAll a b
  | .tuple a, .tuple b => equalAll a b
  | .position a, .position b => a = b
  | .node n v s e, .node n' v' s' e' => n = n' && equal v v' && s = s' && e = e'
  | _, _ => false
where
  /-- Whether two lists of values are built alike, item by item. -/
  equalAll : List Value → List Value → Bool
    | [], [] => true
    | a :: as, b :: bs => equal a b && equalAll as bs
    | _, _ => false

mutual
/-- Values built alike are equal. -/
theorem eq_of_equal : ∀ a b : Value, equal a b = true → a = b
  | .nothing, b => by cases b <;> simp [equal]
  | .bool x, b => by cases b <;> simp [equal]
  | .int x, b => by cases b <;> simp [equal]
  | .str x, b => by cases b <;> simp [equal]
  | .list xs, b => by
      cases b <;> simp [equal]
      exact eq_of_equalAll xs _
  | .tuple xs, b => by
      cases b <;> simp [equal]
      exact eq_of_equalAll xs _
  | .position x, b => by cases b <;> simp [equal]
  | .node n v s e, b => by
      cases b <;> simp [equal]
      rename_i n' v' s' e'
      intro hn hv hs he
      exact ⟨hn, eq_of_equal v v' hv, hs, he⟩
/-- Lists of values built alike are equal. -/
theorem eq_of_equalAll : ∀ as bs : List Value, equal.equalAll as bs = true → as = bs
  | [], bs => by cases bs <;> simp [equal.equalAll]
  | a :: as, bs => by
      cases bs <;> simp [equal.equalAll]
      rename_i b bs
      intro ha has
      exact ⟨eq_of_equal a b ha, eq_of_equalAll as bs has⟩
end

mutual
/-- Every value is built like itself. -/
theorem equal_refl : ∀ a : Value, equal a a = true
  | .nothing | .bool _ | .int _ | .str _ | .position _ => by simp [equal]
  | .list xs => by simpa [equal] using equalAll_refl xs
  | .tuple xs => by simpa [equal] using equalAll_refl xs
  | .node n v s e => by simpa [equal] using equal_refl v
/-- Every list of values is built like itself. -/
theorem equalAll_refl : ∀ as : List Value, equal.equalAll as as = true
  | [] => by simp [equal.equalAll]
  | a :: as => by simp [equal.equalAll, equal_refl a, equalAll_refl as]
end

/-- Being built alike is equality. -/
theorem equal_iff {a b : Value} : equal a b = true ↔ a = b :=
  ⟨eq_of_equal a b, fun h => h ▸ equal_refl a⟩

instance : DecidableEq Value := fun _ _ => decidable_of_iff _ equal_iff

/-- A value with every truth value written as an integer and every place as a tuple. -/
def plain : Value → Value
  | .bool truth => .int (if truth then 1 else 0)
  | .list items => .list (plainAll items)
  | .tuple items => .tuple (plainAll items)
  | .position place => .tuple [.int place.index, .int place.line, .int place.column]
  | .node name value start stop => .node name value.plain start stop
  | value => value
where
  /-- The plain forms of a list of values. -/
  plainAll : List Value → List Value
    | [] => []
    | value :: rest => value.plain :: plainAll rest

/-- Whether two values count as equal: their plain forms are the same. -/
def same (a b : Value) : Bool := equal a.plain b.plain

theorem same_iff {a b : Value} : same a b = true ↔ a.plain = b.plain := equal_iff

/-- Every value counts as equal to itself. -/
@[simp] theorem same_refl (a : Value) : same a a = true := equal_refl _

/-- Several values, each at its first occurrence. -/
def distinct (values : List Value) : List Value := values.eraseDupsBy same

@[simp] theorem distinct_nil : distinct [] = [] := rfl

/-- The first of several values is among the distinct ones. -/
theorem distinct_cons_ne_nil (value : Value) (rest : List Value) :
    distinct (value :: rest) ≠ [] := by
  simp [distinct, List.eraseDupsBy_cons]

/-- Whether a value can stand as a key: no list is part of it. -/
def isKey : Value → Bool
  | .list _ => false
  | .tuple items => isKeyAll items
  | .node _ value _ _ => value.isKey
  | _ => true
where
  /-- Whether all of several values can stand as keys. -/
  isKeyAll : List Value → Bool
    | [] => true
    | value :: rest => value.isKey && isKeyAll rest

/-- Whether a value counts as true: nothing, zero and whatever is empty do not. -/
def isTrue : Value → Bool
  | .nothing => false
  | .bool truth => truth
  | .int number => number ≠ 0
  | .str text => text ≠ ""
  | .list items => !items.isEmpty
  | .tuple items => !items.isEmpty
  | .position _ => true
  | .node .. => true

/-- Whether a value exists only once, so that it is the same wherever it is written: the constants,
the smallest integers, the texts of no more than one character of the first 256, and the tuple
without items. -/
def isUnique : Value → Bool
  | .nothing => true
  | .bool _ => true
  | .int number => -5 ≤ number && number ≤ 256
  | .str text => text.length ≤ 1 && text.toList.all (·.toNat < 256)
  | .tuple items => items.isEmpty
  | _ => false

/-! ## Views -/

/-- The name of a value's kind in error messages. -/
def kind : Value → String
  | .nothing => "NoneType"
  | .bool _ => "bool"
  | .int _ => "int"
  | .str _ => "str"
  | .list _ => "list"
  | .tuple _ => "tuple"
  | .position _ => "Position"
  | .node .. => "Node"

/-- The integer that a value stands for in arithmetic. -/
def int? : Value → Option Int
  | .bool truth => some (if truth then 1 else 0)
  | .int number => some number
  | _ => none

/-- The items of a list or a tuple; a place is the tuple of its coordinates. -/
def items? : Value → Option (List Value)
  | .list items => some items
  | .tuple items => some items
  | .position place => some [.int place.index, .int place.line, .int place.column]
  | _ => none

/-- The item of a tuple at an index, counted from zero, and nothing if there is none. -/
def item (index : Nat) : Value → Value
  | .tuple items => items.getD index .nothing
  | _ => .nothing

@[simp] theorem item_tuple (index : Nat) (items : List Value) :
    item index (.tuple items) = items.getD index .nothing := rfl

/-- A list with a value put in front; any other value is kept as it is. -/
def consTo (first : Value) : Value → Value
  | .list rest => .list (first :: rest)
  | other => other

@[simp] theorem consTo_list (first : Value) (rest : List Value) :
    consTo first (.list rest) = .list (first :: rest) := rfl

/-- The empty list in place of nothing; any other value is kept as it is. -/
def orEmpty : Value → Value
  | .nothing => .list []
  | other => other

@[simp] theorem orEmpty_nothing : orEmpty .nothing = .list [] := rfl

@[simp] theorem orEmpty_list (items : List Value) : orEmpty (.list items) = .list items := rfl

end Value

end Descent
