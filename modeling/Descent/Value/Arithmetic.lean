import Descent.Text.Numeral
import Descent.Value.Order

/-! # Computing with values

The operations that the functions of a grammar apply to values: reading and writing integers, sums
and the other arithmetic, repetition, lengths, items, taking pairs apart and joining texts. Each
says which values it is not fit for.

* **`Value.times`** — a product of numbers, or a sequence repeated.
* **`Value.pair`** — the two items of a sequence that has exactly two.
* **`Value.isWritable`** — whether no integer in a value is too long to be written. -/

namespace Descent.Value

/-- Whether every integer in a value may be written. -/
def isWritable : Value → Bool
  | .int number => Text.Numeral.isWritable number
  | .list items => isWritableAll items
  | .tuple items => isWritableAll items
  | .position place => (coordinates place).all Text.Numeral.isWritable
  | .node _ value start stop =>
      value.isWritable && (coordinates start ++ coordinates stop).all Text.Numeral.isWritable
  | _ => true
where
  /-- Whether every integer in several values may be written. -/
  isWritableAll : List Value → Bool
    | [] => true
    | value :: rest => value.isWritable && isWritableAll rest

/-- The text of a value, if it may be written. -/
def shown? (value : Value) : Except Raised String :=
  if value.isWritable then .ok value.shown else .error .numberTooLong

/-- The text of a value on its own: a text is shown without quotes. -/
def plainText : Value → Except Raised String
  | .str text => .ok text
  | value => value.shown?

/-- The integer that a value denotes: a text has to be a numeral. -/
def toInteger : Value → Except Raised Value
  | .str text =>
      match Text.Numeral.read text.toList with
      | .ok number => .ok (.int number)
      | .error .malformed => .error (.badNumeral text)
      | .error (.tooLong digits) => .error (.numeralTooLong digits)
  | value =>
      match value.int? with
      | some number => .ok (.int number)
      | none => .error (.notNumeric value.kind)

/-- The items of a tuple; a place is the tuple of its coordinates. -/
def tupleItems? : Value → Option (List Value)
  | .tuple items => some items
  | .position place => some ((coordinates place).map .int)
  | _ => none

/-- The sum of two numbers, or two sequences of one kind put together. -/
def plus : Value → Value → Except Raised Value
  | .str a, .str b => .ok (.str (a ++ b))
  | .list a, .list b => .ok (.list (a ++ b))
  | .str _, b => .error (.notConcatenable "str" b.kind)
  | .list _, b => .error (.notConcatenable "list" b.kind)
  | a, b =>
      match a.int?, b.int? with
      | some m, some n => .ok (.int (m + n))
      | _, _ =>
          match a.tupleItems?, b.tupleItems? with
          | some xs, some ys => .ok (.tuple (xs ++ ys))
          | some _, none => .error (.notConcatenable "tuple" b.kind)
          | none, _ => .error (.unfitOperands "+" a.kind b.kind)

/-- An operation on two integers. -/
def arithmetic (symbol : String) (operation : Int → Int → Except Raised Int) (a b : Value) :
    Except Raised Value :=
  match a.int?, b.int? with
  | some m, some n => (operation m n).map .int
  | _, _ => .error (.unfitOperands symbol a.kind b.kind)

/-- The difference of two numbers. -/
def minus : Value → Value → Except Raised Value := arithmetic "-" fun m n => .ok (m - n)

/-- The quotient of two numbers, rounded down. -/
def quotient : Value → Value → Except Raised Value :=
  arithmetic "//" fun m n => if n = 0 then .error .divisionByZero else .ok (m.fdiv n)

/-! ## Repetition -/

/-- One more than the greatest number that a sequence can be counted by. -/
def countBound : Int := 9223372036854775808

/-- How many items or characters a sequence can have before there is no room for it. -/
def capacity : Nat := 1099511627776

/-- A text repeated a number of times. -/
def repeatedText (count : Nat) (text : String) : Except Raised Value :=
  if countBound ≤ count * text.length then .error .repeatedTooLong
  else if capacity < count * text.length then .error .outOfMemory
  else .ok (.str (String.join (List.replicate count text)))

/-- Items repeated a number of times. -/
def repeatedItems (count : Nat) (items : List Value) : Except Raised (List Value) :=
  if capacity < count * items.length then .error .outOfMemory
  else if items.isEmpty then .ok []
  else .ok (List.replicate count items).flatten

/-- Whether a value can be repeated. -/
def isSequence : Value → Bool
  | .str _ | .list _ | .tuple _ | .position _ => true
  | _ => false

/-- A sequence repeated as often as a value says, a number below one giving an empty sequence. -/
def repeatedBy (sequence count : Value) : Except Raised Value :=
  match count.int? with
  | none => .error (.notCount count.kind)
  | some times =>
      if times < -countBound ∨ countBound ≤ times then .error .countTooLarge
      else
        match sequence with
        | .str text => if text = "" then .ok (.str "") else repeatedText times.toNat text
        | .list items => (repeatedItems times.toNat items).map .list
        | .tuple items => (repeatedItems times.toNat items).map .tuple
        | .position place =>
            -- a place that is repeated is no place any more, not even if it is repeated once
            (repeatedItems times.toNat ((coordinates place).map .int)).map .tuple
        | other => .error (.unfitOperands "*" other.kind count.kind)

/-- The product of two numbers, or the repetition of a sequence by a number on either side. -/
def times (a b : Value) : Except Raised Value :=
  match a.int?, b.int? with
  | some m, some n => .ok (.int (m * n))
  | _, _ =>
      if a.isSequence then a.repeatedBy b
      else if b.isSequence then b.repeatedBy a
      else .error (.unfitOperands "*" a.kind b.kind)

/-! ## Signs, lengths and items -/

/-- The integer in which a binary digit is one if it is one in either of two integers. The negative
integers have infinitely many ones in front. -/
def bitwiseOr : Int → Int → Int
  | .ofNat m, .ofNat n => .ofNat (m ||| n)
  | .ofNat m, .negSucc n => .negSucc (n - (n &&& m))
  | .negSucc m, .ofNat n => .negSucc (m - (m &&& n))
  | .negSucc m, .negSucc n => .negSucc (m &&& n)

/-- The negative of a number. -/
def negative (value : Value) : Except Raised Value :=
  match value.int? with
  | some number => .ok (.int (-number))
  | none => .error (.unfitNegation value.kind)

/-- The number of items or characters. -/
def size : Value → Except Raised Value
  | .str text => .ok (.int text.length)
  | value =>
      match value.items? with
      | some items => .ok (.int items.length)
      | none => .error (.noLength value.kind)

/-- The items of a sequence; those of a text are its characters. -/
def sequence? : Value → Option (List Value)
  | .str text => some (text.toList.map fun c => .str (String.ofList [c]))
  | value => value.items?

/-- The items of a sequence as a list. -/
def toList (value : Value) : Except Raised (List Value) :=
  match value.sequence? with
  | some items => .ok items
  | none => .error (.notIterable value.kind)

/-- The name of a sequence's kind in the message that an index is out of range. -/
def sequenceKind : Value → String
  | .str _ => "string"
  | .position _ => "tuple"
  | value => value.kind

/-- The item of a sequence at an index, counted from zero. -/
def itemAt (index : Nat) (value : Value) : Except Raised Value :=
  match value.sequence? with
  | none => .error (.notSubscriptable value.kind)
  | some items =>
      match items[index]? with
      | some item => .ok item
      | none => .error (.indexOutOfRange value.sequenceKind)

/-- The sum of the items of a sequence. -/
def total (value : Value) : Except Raised Value := do
  (← value.toList).foldlM plus (.int 0)

/-- The texts of a sequence one after another. `index` is the number of the first. -/
def joinFrom (index : Nat) : List Value → Except Raised String
  | [] => .ok ""
  | .str text :: rest => (joinFrom (index + 1) rest).map (text ++ ·)
  | other :: _ => .error (.notText index other.kind)

/-- The texts of a sequence as one text. -/
def join (value : Value) : Except Raised Value :=
  match value.sequence? with
  | some items => (joinFrom 0 items).map .str
  | none => .error .notJoinable

/-- The first item of a pair put in front of the items of the second. -/
def consPair (value : Value) : Except Raised Value := do
  let first ← value.itemAt 0
  let second ← value.itemAt 1
  match second.sequence? with
  | some rest => return .list (first :: rest)
  | none => throw (.notSpreadable second.kind)

/-- The two items of a sequence that has exactly two. -/
def pair (value : Value) : Except Raised (Value × Value) :=
  match value.sequence? with
  | none => .error (.notUnpackable value.kind)
  | some [first, second] => .ok (first, second)
  | some [] => .error (.tooFewItems 2 0)
  | some [_] => .error (.tooFewItems 2 1)
  | some _ => .error (.tooManyItems 2)

/-- A value combined with another by a named operation; an unknown one leaves the first as it is. -/
def combine (a : Value) (operation : Value) (b : Value) : Except Raised Value :=
  match operation with
  | .str "+" => a.plus b
  | .str "-" => a.minus b
  | .str "*" => a.times b
  | .str "/" => a.quotient b
  | _ => .ok a

/-- A first value combined with others from left to right: the value is the pair of it and a
sequence, in which each of the others is paired with the operation before it. -/
def foldOperations (value : Value) : Except Raised Value := do
  let (first, rest) ← value.pair
  (← rest.toList).foldlM
    (fun sofar step => do
      let (operation, operand) ← step.pair
      sofar.combine operation operand)
    first

/-- Items without the last one, if that is the list of one empty text. -/
def withoutTrailing (items : List Value) : List Value :=
  if items.getLast?.any (same (.list [.str ""])) then items.dropLast else items

/-- A sequence without its last item, if that one is the list of one empty text. What has no items
has to count as false. -/
def dropTrailing : Value → Except Raised Value
  | .list items => .ok (.list (withoutTrailing items))
  | .tuple items => .ok (.tuple (withoutTrailing items))
  | .str text => .ok (.str text)
  | .position place => .ok (.position place)
  | other => if other.isTrue then .error (.notSubscriptable other.kind) else .ok other

end Descent.Value
