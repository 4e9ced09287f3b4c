import Descent.Proofs.Excerpts
import Descent.Result
import Mathlib.Algebra.Ring.Nat
import Mathlib.Data.Int.ConditionallyCompleteOrder
import Mathlib.Data.Prod.Lex

/-! # Line and column as coordinates

A place carries its index and, counted on their own, its line and column. In a source each of the
two says what the other says:

* **`Position.coordinates`** — line and column, in the order in which a text is read.
* **`Position.coordinates_lt_advance`** — consuming anything moves on in that order.
* **`Excerpt.lengthAbove`** — how long the first lines of a source are, line feeds included.
* **`Failure.mergeByLine`** — the merge of two failures, decided by line and column.
* **`Position.coordinates_faithful`** — main statement: the order of places is the order of their
  indexes, the index can be computed from line and column with the lines of the source, and so a
  merge decides the same by either. -/

namespace Descent

open Excerpt Position

variable {source : Source} {index : Nat}

/-! ## The order of places -/

namespace Position

/-- The line and the column of a place; the line counts first. -/
def coordinates (place : Position) : Int ×ₗ Int := toLex (place.line, place.column)

theorem coordinates_lt_iff {first second : Position} :
    first.coordinates < second.coordinates
      ↔ first.line < second.line ∨ first.line = second.line ∧ first.column < second.column :=
  Prod.Lex.toLex_lt_toLex

/-- Whatever is consumed, the place behind it comes later. -/
theorem coordinates_lt_advance (place : Position) {consumed : List Char} (h : consumed ≠ []) :
    place.coordinates < (place.advance consumed).coordinates := by
  have hlength := List.length_pos_iff.mpr h
  rw [coordinates_lt_iff, advance_line, advance_column]
  by_cases hmem : '\n' ∈ consumed
  · have hcount := List.count_pos_iff.mpr hmem
    exact .inl (by omega)
  · rw [List.count_eq_zero.mpr hmem, if_neg hmem]
    exact .inr ⟨by omega, by omega⟩

/-- In a source a higher index comes later. -/
theorem coordinates_lt_of_lt {i j : Nat} (hlt : i < j) (hj : j ≤ source.length) :
    (start.advance (source.take i)).coordinates < (start.advance (source.take j)).coordinates := by
  have htake : source.take j = source.take i ++ (source.drop i).take (j - i) := by
    rw [← List.take_add, Nat.add_sub_cancel' hlt.le]
  have hne : (source.drop i).take (j - i) ≠ [] := by
    rw [← List.length_pos_iff, List.length_take, List.length_drop]
    omega
  rw [htake, ← advance_append]
  exact coordinates_lt_advance _ hne

/-- Of two indexes in a source the lower one is the one that comes earlier. -/
theorem coordinates_lt_coordinates_iff {i j : Nat} (hi : i ≤ source.length)
    (hj : j ≤ source.length) :
    (start.advance (source.take i)).coordinates < (start.advance (source.take j)).coordinates
      ↔ i < j := by
  refine ⟨fun h => ?_, fun h => coordinates_lt_of_lt h hj⟩
  rcases lt_trichotomy i j with hlt | rfl | hgt
  · exact hlt
  · exact absurd h (lt_irrefl _)
  · exact absurd h (coordinates_lt_of_lt hgt hi).asymm

end Position

/-! ## The index, from line and column -/

namespace Excerpt

/-- Above the line of an index there is one line for each line feed before the index. -/
theorem toNat_line_sub_one (source : Source) (index : Nat) :
    ((start.advance (source.take index)).line - 1).toNat = (source.take index).count '\n' := by
  rw [advance_start_line]
  omega

/-- The line with the number that the place of an index has is the line the index lies in. -/
theorem getElem?_lines_place (source : Source) (index : Nat) :
    (lines source)[((start.advance (source.take index)).line - 1).toNat]?
      = some (source.lineBefore index ++ source.lineBehind index) := by
  rw [toNat_line_sub_one, getElem?_lines_count]

/-- How much of a source its first lines take up, each with its line feed. -/
def lengthAbove (source : Source) (number : Nat) : Nat :=
  (((lines source).take number).map (·.length + 1)).sum

/-- The lines of a text are as long as the text, once each has a line feed. -/
theorem sum_lines (text : List Char) :
    ((lines text).map (·.length + 1)).sum = text.length + 1 := by
  induction text with
  | nil => rfl
  | cons c rest ih =>
    by_cases h : c = '\n'
    · rw [h, lines_lineFeed, List.map_cons, List.sum_cons, ih, List.length_nil, List.length_cons]
      omega
    · cases hrest : lines rest with
      | nil => exact absurd hrest (lines_ne_nil rest)
      | cons line more =>
        simp only [hrest, List.map_cons, List.sum_cons] at ih
        simp only [lines, h, if_false, hrest, List.map_cons, List.sum_cons, List.length_cons]
        omega

/-- The lines above an index, with their line feeds, are what is before the line of the index. -/
theorem lengthAbove_count (source : Source) (index : Nat) :
    lengthAbove source ((source.take index).count '\n') + (source.lineBefore index).length
      = (source.take index).length := by
  obtain ⟨above, htake, hlast⟩ := source.take_eq_append index
  have hbefore : (source.lineBefore index).count '\n' = 0 :=
    List.count_eq_zero.mpr Source.notMem_lineBefore
  rw [htake, List.count_append, hbefore, Nat.add_zero, List.length_append, Nat.add_right_cancel_iff]
  rcases List.eq_nil_or_concat above with rfl | ⟨more, c, rfl⟩
  · rfl
  · -- the lines above are the lines of all but their last line feed
    obtain rfl : c = '\n' := hlast c (by simp)
    have hsource : source = more ++ '\n' :: (source.lineBefore index ++ source.drop index) := by
      conv_lhs => rw [← List.take_append_drop index source, htake]
      simp
    have hcount : (more.concat '\n').count '\n' = (lines more).length := by
      rw [length_lines, List.concat_eq_append, List.count_append, List.count_singleton_self]
    have hlines := congrArg lines hsource
    rw [lines_append_lineFeed] at hlines
    rw [lengthAbove, hcount, hlines, List.take_left, sum_lines, List.length_concat]

end Excerpt

/-! ## Merging by line and column -/

namespace Failure

/-- The failure reported for two, with lines and columns compared in place of the indexes. -/
def mergeByLine (first second : Failure) : Failure :=
  if second.place.coordinates < first.place.coordinates then first
  else if first.place.coordinates < second.place.coordinates then second
  else ⟨first.place, union first.expected second.expected⟩

/-- Failures whose places are in the same order either way are merged the same. -/
theorem merge_eq_mergeByLine {first second : Failure}
    (hlt : first.place.index < second.place.index
      ↔ first.place.coordinates < second.place.coordinates)
    (hgt : second.place.index < first.place.index
      ↔ second.place.coordinates < first.place.coordinates) :
    first.merge second = first.mergeByLine second := by
  simp only [merge, mergeByLine, gt_iff_lt, hlt, hgt]

end Failure

/-! ## Both at once -/

namespace Position

/-- The index of a place of a source is the index it is the place of. -/
theorem index_start_advance_take (h : index ≤ source.length) :
    (start.advance (source.take index)).index = index := by
  rw [advance_index, List.length_take, Nat.min_eq_left h]
  exact Int.zero_add _

/-- In a source a place comes earlier by its index exactly if it comes earlier by its coordinates. -/
theorem index_lt_iff_coordinates_lt {i j : Nat} (hi : i ≤ source.length) (hj : j ≤ source.length) :
    (start.advance (source.take i)).index < (start.advance (source.take j)).index
      ↔ (start.advance (source.take i)).coordinates
          < (start.advance (source.take j)).coordinates := by
  rw [index_start_advance_take hi, index_start_advance_take hj, Int.ofNat_lt,
    coordinates_lt_coordinates_iff hi hj]

/-- The line of a place of a source is one of its lines, the column lies in that line or just
behind it, and the index is the length of the lines above, line feeds included, and of what the
column leaves of the line. -/
theorem exists_line_index_eq (h : index ≤ source.length) :
    ∃ line, (lines source)[((start.advance (source.take index)).line - 1).toNat]? = some line ∧
      1 ≤ (start.advance (source.take index)).line ∧
      (start.advance (source.take index)).line ≤ (lines source).length ∧
      1 ≤ (start.advance (source.take index)).column ∧
      (start.advance (source.take index)).column ≤ line.length + 1 ∧
      (index : Int)
        = lengthAbove source ((start.advance (source.take index)).line - 1).toNat
          + (start.advance (source.take index)).column - 1 := by
  have hcount : (source.take index).count '\n' ≤ source.count '\n' :=
    (List.take_sublist index source).count_le '\n'
  have hsum := lengthAbove_count source index
  rw [List.length_take, Nat.min_eq_left h] at hsum
  refine ⟨_, getElem?_lines_place source index, ?_⟩
  rw [toNat_line_sub_one, advance_start_line, source.column_eq, length_lines, List.length_append]
  omega

/-- Line and column are coordinates of a source as good as the index: both order its places alike;
the index follows from line and column and the lines of the source; and of two failures the merge
picks the same by either, and finds them at one place if their indexes are the same. -/
theorem coordinates_faithful (source : Source) (i j : Nat) (hi : i ≤ source.length)
    (hj : j ≤ source.length) :
    (i < j ↔ (start.advance (source.take i)).coordinates
      < (start.advance (source.take j)).coordinates) ∧
    (∃ line, (lines source)[((start.advance (source.take i)).line - 1).toNat]? = some line ∧
      1 ≤ (start.advance (source.take i)).line ∧
      (start.advance (source.take i)).line ≤ (lines source).length ∧
      1 ≤ (start.advance (source.take i)).column ∧
      (start.advance (source.take i)).column ≤ line.length + 1 ∧
      (i : Int)
        = lengthAbove source ((start.advance (source.take i)).line - 1).toNat
          + (start.advance (source.take i)).column - 1) ∧
    (∀ left right : List Value,
      Failure.merge ⟨start.advance (source.take i), left⟩ ⟨start.advance (source.take j), right⟩
        = Failure.mergeByLine ⟨start.advance (source.take i), left⟩
            ⟨start.advance (source.take j), right⟩) ∧
    ((start.advance (source.take i)).index = (start.advance (source.take j)).index →
      start.advance (source.take i) = start.advance (source.take j)) := by
  refine ⟨(coordinates_lt_coordinates_iff hi hj).symm, exists_line_index_eq hi,
    fun left right => ?_, fun hindex => ?_⟩
  · exact Failure.merge_eq_mergeByLine (index_lt_iff_coordinates_lt hi hj)
      (index_lt_iff_coordinates_lt hj hi)
  · rw [index_start_advance_take hi, index_start_advance_take hj, Int.natCast_inj] at hindex
    rw [hindex]

/-- Before the line feed of a text of two lines comes earlier than behind its second line. -/
theorem coordinates_faithful_twoLines :
    (start.advance (['a', '\n', 'b'].take 1)).coordinates
      < (start.advance (['a', '\n', 'b'].take 3)).coordinates :=
  (coordinates_faithful ['a', '\n', 'b'] 1 3 (by decide) (by decide)).1.mp (by decide)

end Position

end Descent
