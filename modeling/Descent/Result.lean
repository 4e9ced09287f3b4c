import Descent.Value.Printer

/-! # Results of parsing

* **`Labels`** — what a parser is called in an error message: one or more labels. A label is a text
  as a rule, but any value that can stand as a key is accepted.
* **`Failure`** — where a parser got stuck, and the labels of what it would have accepted there.
* **`Failure.merge`** — the one failure reported for two: the one further into the source, and the
  labels of both where they are equally far.
* **`Result`** — what a parser returns: a match, with the value and the place where it stopped, or
  a failure. -/

namespace Descent

/-- One or more labels. -/
structure Labels where
  /-- The first label. -/
  first : Value
  /-- The others, in order. -/
  others : List Value
  deriving DecidableEq, Inhabited, Repr

namespace Labels

/-- The labels of a list, unless it is empty. -/
def ofList? : List Value → Option Labels
  | [] => none
  | first :: others => some ⟨first, others⟩

/-- The labels in order, each at its first occurrence. -/
def toList (labels : Labels) : List Value := Value.distinct (labels.first :: labels.others)

/-- There is at least one label. -/
theorem toList_ne_nil (labels : Labels) : labels.toList ≠ [] := Value.distinct_cons_ne_nil _ _

end Labels

/-- A failed parse. -/
structure Failure where
  /-- Where the parser got stuck. -/
  place : Position
  /-- The labels of what was expected there, in the order of their discovery. -/
  expected : List Value
  deriving DecidableEq, Inhabited, Repr

namespace Failure

/-- The labels of two lists, each at its first occurrence. -/
def union (left right : List Value) : List Value := Value.distinct (left ++ right)

/-- The failure reported for two: the one further into the source; of two at the same index, the
place of the first with the labels of both. -/
def merge (first second : Failure) : Failure :=
  if first.place.index > second.place.index then first
  else if second.place.index > first.place.index then second
  else ⟨first.place, union first.expected second.expected⟩

/-- The text of a failure. -/
def shown (failure : Failure) : String :=
  let labels := Value.roundBrackets (failure.expected.map Value.shown)
  s!"Failure(position={failure.place.shown}, expected={labels})"

end Failure

/-- What a parser returns. -/
inductive Result : Type where
  /-- A match: where the parser stopped, and the value. -/
  | matched (place : Position) (value : Value)
  /-- No match. -/
  | failed (failure : Failure)
  deriving DecidableEq, Inhabited, Repr

namespace Result

/-- Where the parser stopped or got stuck. -/
def place : Result → Position
  | .matched place _ => place
  | .failed failure => failure.place

@[simp] theorem place_matched (place : Position) (value : Value) :
    (matched place value).place = place := rfl

@[simp] theorem place_failed (failure : Failure) : (failed failure).place = failure.place := rfl

/-- The result with a function applied to its value, if it has one. -/
def mapValue (f : Value → Value) : Result → Result
  | .matched place value => .matched place (f value)
  | .failed failure => .failed failure

@[simp] theorem mapValue_matched (f : Value → Value) (place : Position) (value : Value) :
    (matched place value).mapValue f = .matched place (f value) := rfl

@[simp] theorem mapValue_failed (f : Value → Value) (failure : Failure) :
    (failed failure).mapValue f = .failed failure := rfl

/-- Whether two results count as equal: they are of the same sort, at the same place, with values
or labels that count as equal. -/
def same : Result → Result → Bool
  | .matched p v, .matched q w => p = q && v.same w
  | .failed f, .failed g =>
      f.place = g.place && (Value.tuple f.expected).same (.tuple g.expected)
  | _, _ => false

/-- Every result counts as equal to itself. -/
@[simp] theorem same_refl (result : Result) : same result result = true := by
  cases result <;> simp [same]

/-- The values in a result: the one that it has, or its labels. -/
def values : Result → List Value
  | .matched _ value => [value]
  | .failed failure => failure.expected

/-- The text of a result. -/
def shown : Result → String
  | .matched place value => s!"Match(position={place.shown}, value={value.shown})"
  | .failed failure => failure.shown

end Result

end Descent
