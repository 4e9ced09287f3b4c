import Descent.Parser
import Descent.Value.Arithmetic

/-! # Functions of a grammar

* **`Grammar.Function`** — the functions that a grammar can apply to the value of a parser.
* **`Grammar.Function.apply`** — what each does with a value. -/

namespace Descent.Grammar

/-- A function that a grammar can apply to a value. -/
inductive Function : Type where
  /-- The value itself. -/
  | id
  /-- The integer that a text denotes. -/
  | int
  /-- The number of items or characters. -/
  | len
  /-- The texts of a sequence as one. -/
  | join
  /-- The items of a sequence as a list. -/
  | list
  /-- The sum of the items. -/
  | sum
  /-- The negative of a number. -/
  | neg
  /-- The first item. -/
  | first
  /-- The second item. -/
  | second
  /-- The first item put in front of the items of the second. -/
  | cons
  /-- A first value combined with others by operations. -/
  | fold
  /-- A list without a last item that is the list of one empty text. -/
  | dropTrailing
  /-- The same value for all. -/
  | const (value : Value)
  /-- The pair of a tag and the value. -/
  | tag (label : Value)
  /-- The sum with another value. -/
  | add (value : Value)
  /-- The value itself, with a note. -/
  | trace (label : Value)
  deriving Inhabited, Repr

/-- What a function does with a value. -/
def Function.apply : Function → Value → Action Value
  | .id, value => .done value
  | .int, value => .ofExcept value.toInteger
  | .len, value => .ofExcept value.size
  | .join, value => .ofExcept value.join
  | .list, value => .ofExcept (value.toList.map .list)
  | .sum, value => .ofExcept value.total
  | .neg, value => .ofExcept value.negative
  | .first, value => .ofExcept (value.itemAt 0)
  | .second, value => .ofExcept (value.itemAt 1)
  | .cons, value => .ofExcept value.consPair
  | .fold, value => .ofExcept value.foldOperations
  | .dropTrailing, value => .ofExcept value.dropTrailing
  | .const result, _ => .done result
  | .tag label, value => .done (.tuple [label, value])
  | .add other, value => .ofExcept (value.plus other)
  | .trace label, value =>
      -- a note is written at once, so that a value that cannot be written ends the run
      if value.isWritable then .note (.mapped label value) (.done value)
      else .raise .numberTooLong

end Descent.Grammar
