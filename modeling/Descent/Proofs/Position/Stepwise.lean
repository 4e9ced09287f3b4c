import Descent.Proofs.Position.Advance

/-! # Consuming text character by character

Consuming a text takes a place to the place behind it. That is an action of texts on places: the
empty text does nothing, and one text after another does what both do as one. Such an action is
fixed by what the single characters do.

* **`Position.past`** — the place just past one character.
* **`Position.advance_cons`** — a text is consumed by consuming its first character and then the
  others.
* **`Position.getLastD_trail`** — text that is consumed in pieces leads where it leads as a whole.
* **`Position.advance_action`** — main statement: an action, and the one that goes from character to
  character. -/

namespace Descent.Position

/-- The place just past one character. A line feed leads to the start of the next line, and any
other character, a carriage return included, to the next column. -/
def past (place : Position) (c : Char) : Position :=
  if c = '\n' then ⟨place.index + 1, place.line + 1, 1⟩
  else ⟨place.index + 1, place.line, place.column + 1⟩

@[simp] theorem past_lineFeed (place : Position) :
    place.past '\n' = ⟨place.index + 1, place.line + 1, 1⟩ := rfl

theorem past_of_ne {c : Char} (h : c ≠ '\n') (place : Position) :
    place.past c = ⟨place.index + 1, place.line, place.column + 1⟩ := if_neg h

/-- To consume a text of one character is to go past it. -/
theorem advance_singleton (place : Position) (c : Char) : place.advance [c] = place.past c := by
  by_cases h : c = '\n'
  · subst h
    rfl
  · have hcount : [c].count '\n' = 0 := List.count_eq_zero.mpr (by simpa using Ne.symm h)
    rw [past_of_ne h, advance, hcount]
    rfl

/-- To consume a text is to go past its first character, and to consume the others from there. -/
theorem advance_cons (place : Position) (c : Char) (rest : List Char) :
    place.advance (c :: rest) = (place.past c).advance rest := by
  rw [← advance_singleton, advance_append, List.singleton_append]

/-- Where a text leads is where its characters lead, one after another. -/
theorem advance_eq_foldl (place : Position) (consumed : List Char) :
    place.advance consumed = consumed.foldl past place := by
  induction consumed generalizing place with
  | nil => exact advance_nil place
  | cons c rest ih => rw [advance_cons, List.foldl_cons, ih]

/-- The last place behind some pieces of text is the one behind the text that they make up. -/
theorem getLastD_trail (place : Position) (pieces : List (List Char)) :
    (trail place pieces).getLastD place = place.advance pieces.flatten := by
  induction pieces generalizing place with
  | nil => exact (advance_nil place).symm
  | cons piece pieces ih =>
    rw [trail_cons, List.getLastD_cons, ih, advance_append, List.flatten_cons]

/-- Consuming text is an action of texts on places: the empty text leaves every place as it is, two
texts one after the other lead where they lead together, and so do any pieces into which a text is
cut. It is the action that goes past one character after another. -/
theorem advance_action (place : Position) (first second : List Char) :
    place.advance [] = place ∧
    (place.advance first).advance second = place.advance (first ++ second) ∧
    (∀ pieces, (trail place pieces).getLastD place = place.advance pieces.flatten) ∧
    place.advance first = first.foldl past place :=
  ⟨advance_nil place, advance_append place first second, getLastD_trail place,
    advance_eq_foldl place first⟩

-- a cut between a carriage return and its line feed
example : start.trail [['a', '\r'], ['\n', 'b']] = [⟨2, 1, 3⟩, ⟨4, 2, 2⟩] := by decide

end Descent.Position
