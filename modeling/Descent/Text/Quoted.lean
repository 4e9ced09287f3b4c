import Descent.Text.Printable

/-! # Quoted text

The quoted form of a text shows it between quotes on one line, with every character that cannot be
shown as itself escaped.

* **`Quoted.quoteFor`** — the quote in use: a single quote, unless the text holds a single quote
  and no double quote.
* **`Quoted.escape`** — one character inside quotes: the quote and the backslash follow a
  backslash, tab, line feed and carriage return have a letter, and any other character that is not
  printable is written by its code point in two, four or eight hexadecimal digits.
* **`Quoted.quoted`** — the whole text, quotes included. -/

namespace Descent.Text.Quoted

open Printable

/-- A number in lower-case hexadecimal digits, at least `width` of them. -/
def hexadecimal (width number : Nat) : List Char :=
  (Nat.toDigits 16 number).leftpad width '0'

/-- The quote put around a text. -/
def quoteFor (text : List Char) : Char :=
  if text.contains '\'' && !text.contains '"' then '"' else '\''

/-- A character by its code point, in the shortest of the three numeric forms that holds it. -/
def numeric (c : Char) : List Char :=
  if c.toNat < 0x100 then '\\' :: 'x' :: hexadecimal 2 c.toNat
  else if c.toNat < 0x10000 then '\\' :: 'u' :: hexadecimal 4 c.toNat
  else '\\' :: 'U' :: hexadecimal 8 c.toNat

/-- One character of a text inside the given quotes. -/
def escape (quote c : Char) : List Char :=
  if c = quote ∨ c = '\\' then ['\\', c]
  else if c = '\t' then ['\\', 't']
  else if c = '\n' then ['\\', 'n']
  else if c = '\r' then ['\\', 'r']
  else if isPrintable c then [c]
  else numeric c

/-- A text between quotes. -/
def quoted (text : List Char) : List Char :=
  quoteFor text :: text.flatMap (escape (quoteFor text)) ++ [quoteFor text]

@[simp] theorem quoted_nil : quoted [] = ['\'', '\''] := rfl

/-- The quote is one of the two kinds. -/
theorem quoteFor_eq_or (text : List Char) : quoteFor text = '\'' ∨ quoteFor text = '"' := by
  unfold quoteFor
  split <;> simp

/-- The quoted form of a string. -/
def quote (text : String) : String := String.ofList (quoted text.toList)

end Descent.Text.Quoted
