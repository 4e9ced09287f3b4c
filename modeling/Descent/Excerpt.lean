import Descent.Raised

/-! # Excerpts of a source text

To show a place to a reader, its line is printed with a caret below its column.

* **`Excerpt.lines`** — the lines of a source, cut at each line feed.
* **`Excerpt.lineAt`** — the line with a given number. A number past the last line gives the empty
  line; zero and the negative numbers count back from the last line, and fail before the first.
* **`Excerpt.caretLine`** — blanks up to a column, then the caret. A tab of the line stays a tab, so
  that the caret lines up however tabs are shown.
* **`Excerpt.excerpt`** — both lines for a place. -/

namespace Descent.Excerpt

/-- The lines of a source, without the line feeds between them; there is always one. -/
def lines : List Char → List (List Char)
  | [] => [[]]
  | c :: rest =>
      if c = '\n' then [] :: lines rest
      else
        match lines rest with
        | [] => [[c]]
        | line :: more => (c :: line) :: more

/-- A line without the carriage return at its end, if it has one. -/
def withoutReturn (line : List Char) : List Char :=
  if line.getLast? = some '\r' then line.dropLast else line

/-- The item of a list with a number counted from one. Zero and the negative numbers count back
from the last item. -/
def numbered? {α : Type} (items : List α) (number : Int) : Option α :=
  if 1 ≤ number then items[(number - 1).toNat]?
  else if 0 ≤ number - 1 + items.length then items[(number - 1 + items.length).toNat]?
  else none

/-- The first characters of a text up to a count; a negative count leaves that many off the end. -/
def firstUpTo (text : List Char) (count : Int) : List Char :=
  if 0 ≤ count then text.take count.toNat else text.take (text.length + count).toNat

/-- The least index that a sequence can be asked for. -/
def leastIndex : Int := -9223372036854775808

/-- The line with the given number, without its line break. -/
def lineAt (source : Source) (number : Int) : Except Raised (List Char) :=
  if number ≤ (lines source).length then
    match numbered? (lines source) number with
    | some line => .ok (withoutReturn line)
    | none => .error (if number - 1 < leastIndex then .indexTooLarge else .indexOutOfRange "list")
  else .ok []

/-- The line that points at a column of another line. -/
def caretLine (line : List Char) (column : Int) : List Char :=
  (firstUpTo line (column - 1)).map (fun c => if c = '\t' then '\t' else ' ') ++ ['^']

/-- The line of a place and the line that points at its column. -/
def excerpt (source : Source) (place : Position) : Except Raised (List Char × List Char) :=
  (lineAt source place.line).map fun line => (line, caretLine line place.column)

@[simp] theorem lines_nil : lines [] = [[]] := rfl

@[simp] theorem lines_lineFeed (rest : List Char) : lines ('\n' :: rest) = [] :: lines rest := by
  simp [lines]

/-- A source has at least one line. -/
theorem lines_ne_nil (source : List Char) : lines source ≠ [] := by
  cases source with
  | nil => simp
  | cons c rest =>
    unfold lines
    split
    · simp
    · split <;> simp

end Descent.Excerpt
