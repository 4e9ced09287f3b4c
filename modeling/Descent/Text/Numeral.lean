import Descent.Text.Category

/-! # Decimal numerals

Reading an integer from a text: blanks around it are ignored, one sign may come first, and then
follow decimal digits, with single underscores allowed between two digits. The digits may come from
any script that has a run of ten decimal digits.

* **`Numeral.isBlank`** — the characters ignored around a numeral.
* **`Numeral.digits?`** — the number that a run of digits and underscores denotes.
* **`Numeral.integer?`** — the integer that a whole text denotes.
* **`Numeral.longest`** — how many digits an integer may have, in a text that is read as in one that
  is written. A text that starts with more is refused for that, whatever follows them. -/

namespace Descent.Text.Numeral

open Category

/-- The characters ignored around a numeral: white space, less the four separators among the ASCII
controls. -/
def isBlank (c : Char) : Bool := isSpace c && !(0x1c ≤ c.toNat && c.toNat ≤ 0x1f)

/-- The number denoted by the rest of a numeral after digits worth `sofar`: more digits, each of
which may follow one underscore. -/
def digitsFrom? (sofar : Nat) : List Char → Option Nat
  | [] => some sofar
  | '_' :: c :: rest => (digit? c).bind fun d => digitsFrom? (10 * sofar + d) rest
  | c :: rest => (digit? c).bind fun d => digitsFrom? (10 * sofar + d) rest

/-- The number denoted by digits and underscores: the first character is a digit. -/
def digits? : List Char → Option Nat
  | [] => none
  | c :: rest => (digit? c).bind fun d => digitsFrom? d rest

/-- The text without the blanks at its two ends. -/
def trimBlanks (text : List Char) : List Char :=
  (((text.dropWhile isBlank).reverse).dropWhile isBlank).reverse

/-- The integer denoted by a sign and digits. -/
def signed? : List Char → Option Int
  | '-' :: rest => (digits? rest).map fun n => -(n : Int)
  | '+' :: rest => (digits? rest).map Int.ofNat
  | rest => (digits? rest).map Int.ofNat

/-- The integer that a text denotes, if it is a numeral. -/
def integer? (text : List Char) : Option Int := signed? (trimBlanks text)

/-! ## The limit -/

/-- How many digits an integer may have. -/
def longest : Nat := 4300

/-- Whether each of some characters is a digit, which may follow one underscore. -/
def isRun : List Char → Bool
  | [] => true
  | '_' :: c :: rest => (digit? c).isSome && isRun rest
  | c :: rest => (digit? c).isSome && isRun rest

/-- A text without the sign at its start, if it has one. -/
def withoutSign : List Char → List Char
  | '-' :: rest => rest
  | '+' :: rest => rest
  | rest => rest

/-- The digits and underscores that a text starts with, after blanks and a sign. -/
def leadingRun (text : List Char) : List Char :=
  (withoutSign (trimBlanks text)).takeWhile fun c => (digit? c).isSome || c = '_'

/-- How many digits a text starts with; none if underscores stand at the wrong places among them. -/
def leadingDigits (text : List Char) : Nat :=
  let run := leadingRun text
  if run.head? ≠ some '_' ∧ isRun run then run.countP (· ≠ '_') else 0

/-- Why a text cannot be read as an integer. -/
inductive Trouble : Type where
  /-- It is no numeral. -/
  | malformed
  /-- It starts with that many digits. -/
  | tooLong (digits : Nat)
  deriving DecidableEq, Inhabited, Repr

/-- The integer that a text denotes, within the limit. -/
def read (text : List Char) : Except Trouble Int :=
  if longest < leadingDigits text then .error (.tooLong (leadingDigits text))
  else
    match integer? text with
    | some number => .ok number
    | none => .error .malformed

/-- Whether an integer may be written. -/
def isWritable (number : Int) : Bool :=
  -- the first test settles nearly all cases without the large power
  number.natAbs < Nat.pow 10 18 || number.natAbs < Nat.pow 10 longest

@[simp] theorem digits?_nil : digits? [] = none := rfl

@[simp] theorem digitsFrom?_nil (sofar : Nat) : digitsFrom? sofar [] = some sofar := by
  simp [digitsFrom?]

end Descent.Text.Numeral
