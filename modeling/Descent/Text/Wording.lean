import Descent.Labelling

/-! # The wording of what was expected

The labels of a failure as an English phrase:

* **`Wording.name`** — a text as it is, or quoted if it is empty or cannot be printed.
* **`Wording.label`** — a label: a text as its name. Of other values only those that do not count as
  true have words.
* **`Wording.expected`** — "expected A", "expected A or B", "expected A, B, or C", and so on, each
  label once; without labels, "unexpected input". -/

namespace Descent.Text.Wording

/-- A text as a reader sees it. -/
def name (text : String) : String :=
  if text.toList ≠ [] ∧ Printable.allPrintable text.toList then text else Quoted.quote text

/-- A label as a reader sees it. -/
def label : Value → Except Raised String
  | .str text => .ok (name text)
  | other => if other.isTrue then .error (.noMethod other.kind "isprintable") else .ok other.shown

/-- Several labels as a phrase. -/
def phrase : List String → String
  | [] => "unexpected input"
  | [only] => "expected " ++ only
  | [first, second] => "expected " ++ first ++ " or " ++ second
  | first :: second :: third :: more =>
      let labels := first :: second :: third :: more
      "expected " ++ ", ".intercalate labels.dropLast ++ ", or " ++ labels.getLastD ""

/-- What was expected, as a phrase in which every label stands once. -/
def expected (labels : List Value) : Except Raised String := do
  return phrase (← (← Value.distinct? labels).mapM label)

@[simp] theorem expected_nil : expected [] = .ok "unexpected input" := rfl

@[simp] theorem label_str (text : String) : label (.str text) = .ok (name text) := rfl

end Descent.Text.Wording
