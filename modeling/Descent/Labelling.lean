import Descent.Raised

/-! # Labels from any values

A grammar may compute its labels, so they are values of any kind. Labels are told apart by being
looked up, which fails for a value that cannot stand as a key.

* **`Value.distinct?`** — several values, each once, if they can stand as keys.
* **`Failure.merge?`** — the one failure reported for two whose labels may be any values. -/

namespace Descent

/-- Several values, each at its first occurrence, unless one of them cannot stand as a key. -/
def Value.distinct? (values : List Value) : Except Raised (List Value) :=
  if values.all isKey then .ok (distinct values) else .error .notKey

@[simp] theorem Value.distinct?_nil : distinct? [] = .ok [] := rfl

/-- The failure reported for two, whose labels are looked at only if they are equally far. -/
def Failure.merge? (first second : Failure) : Except Raised Failure :=
  if first.place.index = second.place.index then do
    let _ ← Value.distinct? (first.expected ++ second.expected)
    return first.merge second
  else .ok (first.merge second)

/-- Where all labels can stand as keys, merging succeeds. -/
theorem Failure.merge?_eq_ok {first second : Failure}
    (h : (first.expected ++ second.expected).all Value.isKey = true) :
    first.merge? second = .ok (first.merge second) := by
  unfold merge? Value.distinct?
  rw [if_pos h]
  split <;> rfl

end Descent
