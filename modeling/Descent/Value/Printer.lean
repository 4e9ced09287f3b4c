import Descent.Value
import Descent.Text.Quoted

/-! # The text of a value

The form in which a value stands in a message: texts are quoted, a list is in square brackets, a
tuple is in round brackets (with a comma after a single item), and records name their fields. -/

namespace Descent

/-- The text of a place: its three coordinates by name. -/
def Position.shown (place : Position) : String :=
  s!"Position(index={place.index}, line={place.line}, column={place.column})"

namespace Value

/-- Items in round brackets; a comma tells a single item from a parenthesis. -/
def roundBrackets : List String → String
  | [item] => "(" ++ item ++ ",)"
  | items => "(" ++ ", ".intercalate items ++ ")"

/-- The text of a value. -/
def shown : Value → String
  | .nothing => "None"
  | .bool true => "True"
  | .bool false => "False"
  | .int number => toString number
  | .str text => Text.Quoted.quote text
  | .list items => "[" ++ ", ".intercalate (shownAll items) ++ "]"
  | .tuple items => roundBrackets (shownAll items)
  | .position place => place.shown
  | .node name value start stop =>
      s!"Node(name={Text.Quoted.quote name}, value={shown value}, start={start.shown}, "
        ++ s!"end={stop.shown})"
where
  /-- The texts of several values. -/
  shownAll : List Value → List String
    | [] => []
    | value :: rest => shown value :: shownAll rest

end Value

end Descent
