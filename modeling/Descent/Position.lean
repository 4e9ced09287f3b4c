/-! # Places in a source text

A source text is the list of its characters, and a place in it carries three coordinates:

* **`Position`** — an index counted from zero, and a line and a column counted from one.
* **`Position.start`** — the place before the first character.
* **`Position.advance`** — the place reached by consuming a piece of text.

Only a line feed starts a new line, so a carriage return before it is an ordinary character of the
line that it ends. The coordinates are integers because a caller may hand in any three numbers,
negative ones included. -/

namespace Descent

/-- The text being parsed, character by character; an index counts these. -/
abbrev Source := List Char

/-- A place in a source text. -/
structure Position where
  /-- How many characters lie before the place. -/
  index : Int
  /-- The line of the place, counted from one. -/
  line : Int
  /-- The column of the place within its line, counted from one. -/
  column : Int
  deriving DecidableEq, Repr, Inhabited

/-- Whether a text stands in a source at an index. A negative index counts back from the end, and
nothing stands behind the end, not even the empty text. -/
def Source.standsAt (source : Source) (literal : List Char) (index : Int) : Bool :=
  -- an index further back than the whole source counts as zero, by `toNat`
  let offset := if index < 0 then index + source.length else index
  offset ≤ source.length && literal.isPrefixOf (source.drop offset.toNat)

namespace Position

/-- The place before the first character. -/
def start : Position := ⟨0, 1, 1⟩

/-- How many characters of a text follow its last line feed: all of them if it has none. -/
def tailLength (consumed : List Char) : Nat :=
  (consumed.reverse.takeWhile (· ≠ '\n')).length

/-- The place just past a piece of text that starts at `place`: every line feed in the piece moves
one line down, and the last of them decides the column. -/
def advance (place : Position) (consumed : List Char) : Position :=
  match consumed.count '\n' with
  | 0 => ⟨place.index + consumed.length, place.line, place.column + consumed.length⟩
  | breaks => ⟨place.index + consumed.length, place.line + breaks, tailLength consumed + 1⟩

/-- The places reached after each of several pieces of text, consumed one after another. -/
def trail : Position → List (List Char) → List Position
  | _, [] => []
  | place, piece :: pieces => place.advance piece :: trail (place.advance piece) pieces

@[simp] theorem tailLength_nil : tailLength [] = 0 := rfl

@[simp] theorem advance_nil (place : Position) : place.advance [] = place := by
  simp [advance]

/-- The index moves by the number of characters consumed. -/
@[simp] theorem advance_index (place : Position) (consumed : List Char) :
    (place.advance consumed).index = place.index + consumed.length := by
  unfold advance
  split <;> rfl

@[simp] theorem trail_nil (place : Position) : trail place [] = [] := rfl

@[simp] theorem trail_cons (place : Position) (piece : List Char) (pieces : List (List Char)) :
    trail place (piece :: pieces) = place.advance piece :: trail (place.advance piece) pieces := rfl

end Position

end Descent
