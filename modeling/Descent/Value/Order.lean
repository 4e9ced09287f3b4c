import Descent.Raised

/-! # The order of values

Integers are ordered by size, texts by their characters, and lists and tuples by the first items
that differ, a shorter one coming before its extensions. Values of any other two kinds have no
order.

* **`Value.Sense`** — the two ways to ask for the order.
* **`Value.precedes`** — whether one value comes before, or after, another. A place is a special
  tuple: where it stands on the right of a tuple, the question is put to the place, the other way
  round. -/

namespace Descent.Value

/-- The two ways to ask for the order of values. -/
inductive Sense : Type where
  /-- Whether the left one is less. -/
  | less
  /-- Whether the left one is greater. -/
  | greater
  deriving DecidableEq, Inhabited, Repr

namespace Sense

/-- The symbol for a sense. -/
def symbol : Sense → String
  | .less => "<"
  | .greater => ">"

/-- The sense in which the same question is put with the sides exchanged. -/
def flip : Sense → Sense
  | .less => .greater
  | .greater => .less

/-- The way two things have to compare for the answer to be yes. -/
def ordering : Sense → Ordering
  | .less => .lt
  | .greater => .gt

@[simp] theorem flip_flip (sense : Sense) : sense.flip.flip = sense := by cases sense <;> rfl

end Sense

/-- The coordinates of a place. -/
def coordinates (place : Position) : List Int := [place.index, place.line, place.column]

/-- Whether a list of integers comes before, or after, a list of values. -/
def integersPrecede (sense : Sense) : List Int → List Value → Except Raised Bool
  | [], [] => .ok false
  | [], _ :: _ => .ok (sense = .less)
  | _ :: _, [] => .ok (sense = .greater)
  | m :: ms, b :: bs =>
      match b.int? with
      | some n =>
          if m = n then integersPrecede sense ms bs else .ok (compare m n = sense.ordering)
      | none => .error (.unordered sense.symbol "int" b.kind)

/-- Whether one value comes before, or after, another. -/
def precedes (sense : Sense) : Value → Value → Except Raised Bool
  | .str a, .str b => .ok (compare a b = sense.ordering)
  | .list a, .list b => allPrecede a b
  | .tuple a, .tuple b => allPrecede a b
  | .tuple a, .position b => integersPrecede sense.flip (coordinates b) a
  | .position a, .tuple b => integersPrecede sense (coordinates a) b
  | .position a, .position b =>
      integersPrecede sense (coordinates a) ((coordinates b).map .int)
  | a, b =>
      match a.int?, b.int? with
      | some m, some n => .ok (compare m n = sense.ordering)
      | _, _ => .error (.unordered sense.symbol a.kind b.kind)
where
  /-- Whether one list of items comes before, or after, another. -/
  allPrecede : List Value → List Value → Except Raised Bool
    | [], [] => .ok false
    | [], _ :: _ => .ok (sense = .less)
    | _ :: _, [] => .ok (sense = .greater)
    | a :: as, b :: bs => if same a b then allPrecede as bs else precedes sense a b

end Descent.Value
