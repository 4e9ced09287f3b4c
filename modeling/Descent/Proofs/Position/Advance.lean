import Descent.Position
import Mathlib.Data.List.TakeWhile

/-! # Consuming text piece by piece

How the place behind a text depends on the text:

* **`Position.advance_line`**, **`Position.advance_column`** — each coordinate in closed form.
* **`Position.advance_append`** — main statement: it does not matter into which pieces the consumed
  text is cut, not even between a carriage return and its line feed. -/

namespace Descent.Position

variable {place : Position} {consumed first second : List Char}

/-- Without a line feed all of a text follows the last one. -/
theorem tailLength_of_notMem (h : '\n' ∉ consumed) : tailLength consumed = consumed.length := by
  have hall : consumed.reverse.takeWhile (· ≠ '\n') = consumed.reverse := by
    rw [List.takeWhile_eq_self_iff]
    intro c hc
    have hne : c ≠ '\n' := fun e => h (e ▸ List.mem_reverse.mp hc)
    simpa using hne
  rw [tailLength, hall, List.length_reverse]

/-- Of two texts, one after the other, only the second counts if it has a line feed. -/
theorem tailLength_append :
    tailLength (first ++ second)
      = if '\n' ∈ second then tailLength second else tailLength first + second.length := by
  unfold tailLength
  rw [List.reverse_append, List.takeWhile_append]
  by_cases h : '\n' ∈ second
  · -- the line feed stops the scan before it gets to the first text
    have hlt : (second.reverse.takeWhile (· ≠ '\n')).length ≠ second.reverse.length := by
      intro heq
      have hself := (List.takeWhile_prefix (· ≠ '\n')).eq_of_length heq
      have := List.takeWhile_eq_self_iff.mp hself '\n' (List.mem_reverse.mpr h)
      simp at this
    rw [if_neg hlt, if_pos h]
  · have hall := tailLength_of_notMem h
    unfold tailLength at hall
    rw [if_pos (by rw [hall, List.length_reverse]), if_neg h, List.length_append,
      List.length_reverse, Nat.add_comm]

/-- The line moves by the number of line feeds consumed. -/
@[simp] theorem advance_line (place : Position) (consumed : List Char) :
    (place.advance consumed).line = place.line + consumed.count '\n' := by
  unfold advance
  split
  · rename_i h
    simp [h]
  · rfl

/-- The column counts from the last line feed consumed, or goes on if there is none. -/
theorem advance_column (place : Position) (consumed : List Char) :
    (place.advance consumed).column
      = if '\n' ∈ consumed then (tailLength consumed : Int) + 1
        else place.column + consumed.length := by
  unfold advance
  split
  · rename_i h
    rw [if_neg (List.count_eq_zero.mp h)]
  · rename_i h
    rw [if_pos (by_contra fun hn => h (List.count_eq_zero.mpr hn))]

/-- Consuming one text and then another is consuming both at once. -/
theorem advance_append (place : Position) (first second : List Char) :
    (place.advance first).advance second = place.advance (first ++ second) := by
  -- coordinate by coordinate; only for the column it matters where the last line feed is
  have hindex : ((place.advance first).advance second).index
      = (place.advance (first ++ second)).index := by
    simp only [advance_index, List.length_append]
    omega
  have hline : ((place.advance first).advance second).line
      = (place.advance (first ++ second)).line := by
    simp only [advance_line, List.count_append]
    omega
  have hcolumn : ((place.advance first).advance second).column
      = (place.advance (first ++ second)).column := by
    simp only [advance_column, tailLength_append, List.mem_append, List.length_append]
    by_cases hs : '\n' ∈ second
    · simp only [hs, or_true, if_true]
    · by_cases hf : '\n' ∈ first
      · simp only [hs, hf, or_false, if_true, if_false]
        omega
      · simp only [hs, hf, or_false, if_false]
        omega
  cases h : (place.advance first).advance second
  cases h' : place.advance (first ++ second)
  simp_all

/-- Consuming a mark, a text and another text is consuming all of them. -/
theorem advance_mark (place : Position) (c : Char) (text more : List Char) :
    ((place.advance [c]).advance text).advance more = place.advance (c :: (text ++ more)) := by
  rw [advance_append, advance_append]
  rfl

/-- From the start the line is one more than the number of line feeds before the place. -/
theorem advance_start_line (consumed : List Char) :
    (start.advance consumed).line = 1 + consumed.count '\n' := by
  rw [advance_line]
  rfl

/-- From the start the column is one more than the number of characters since the last line feed. -/
theorem advance_start_column (consumed : List Char) :
    (start.advance consumed).column = 1 + tailLength consumed := by
  rw [advance_column]
  split
  · omega
  · rename_i h
    rw [tailLength_of_notMem h]
    rfl

end Descent.Position
