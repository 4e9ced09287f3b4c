import Descent.Excerpt
import Descent.Proofs.Position.Advance
import Mathlib.Data.List.DropRight

/-! # What an excerpt shows

An index of a source lies in one line, part of which stands before the index and part behind it:

* **`Source.lineBefore`**, **`Source.lineBehind`** — the two parts, cut at line feeds alone.
* **`Source.untilBreak`** — a text up to its first line break, which is a line feed with or without
  a carriage return before it. A carriage return anywhere else is a character like any other.
* **`Source.lineAround`** — the line of an index: from behind the last line feed before the index
  up to the first line break after that.
* **`Excerpt.lineAt_advance`** — the number that the place of an index carries picks the line that
  the index lies in.
* **`Excerpt.excerpt_line_iff`**, **`Excerpt.excerpt_caret_iff`** — main statements: which sources
  and indexes get the line they lie in, and which get the caret below their column.

Both fail for the same reason. The carriage return at the end of a line is dropped without a look at
what follows it, so it is gone even where it is no part of a line break, and it is gone before the
line is cut at the column, so a place behind it finds the line too short.

An index past the end of the source counts as the end. -/

namespace Descent

open Excerpt

variable {source : Source} {index : Nat}

/-! ## The line of an index -/

namespace Source

/-- What stands before an index on its line. -/
def lineBefore (source : Source) (index : Nat) : List Char :=
  (source.take index).rtakeWhile (· ≠ '\n')

/-- What stands behind an index up to the next line feed. -/
def lineBehind (source : Source) (index : Nat) : List Char :=
  (source.drop index).takeWhile (· ≠ '\n')

/-- A text up to its first line break. -/
def untilBreak : List Char → List Char
  | [] => []
  | '\n' :: _ => []
  | '\r' :: '\n' :: _ => []
  | c :: rest => c :: untilBreak rest

/-- The line of an index, without its line break. -/
def lineAround (source : Source) (index : Nat) : List Char :=
  untilBreak (source.lineBefore index ++ source.drop index)

theorem notMem_lineBefore : '\n' ∉ source.lineBefore index := fun h => by
  simpa using List.mem_rtakeWhile_imp h

theorem takeWhile_lineBefore_append (source : Source) (index : Nat) (rest : List Char) :
    (source.lineBefore index ++ rest).takeWhile (· ≠ '\n')
      = source.lineBefore index ++ rest.takeWhile (· ≠ '\n') :=
  List.takeWhile_append_of_pos fun c hc => by
    have hne : c ≠ '\n' := fun h => notMem_lineBefore (h ▸ hc)
    simpa using hne

/-- Up to an index there are whole lines, and then what stands before the index on its line. -/
theorem take_eq_append (source : Source) (index : Nat) :
    ∃ above : List Char, source.take index = above ++ source.lineBefore index ∧
      ∀ c ∈ above.getLast?, c = '\n' := by
  refine ⟨(source.take index).rdropWhile (· ≠ '\n'), ?_, fun c hc => ?_⟩
  · exact (List.rdropWhile_append_rtakeWhile ..).symm
  · obtain ⟨hne, rfl⟩ := List.mem_getLast?_eq_getLast hc
    simpa using List.rdropWhile_last_not _ _ hne

/-- A place behind an index has as many characters of the line before it as its column says. -/
theorem column_eq (source : Source) (index : Nat) :
    (Position.start.advance (source.take index)).column = (source.lineBefore index).length + 1 := by
  rw [Position.advance_start_column, Position.tailLength, lineBefore, List.rtakeWhile,
    List.length_reverse, Int.add_comm]

end Source

/-! ## The lines of a source -/

namespace Excerpt

/-- The first line goes up to the first line feed. -/
theorem head?_lines (source : List Char) :
    (lines source).head? = some (source.takeWhile (· ≠ '\n')) := by
  induction source with
  | nil => rfl
  | cons c rest ih =>
    by_cases h : c = '\n'
    · simp [h]
    · cases hrest : lines rest with
      | nil => exact absurd hrest (lines_ne_nil rest)
      | cons line more =>
        rw [hrest, List.head?_cons, Option.some_inj] at ih
        simp [lines, h, hrest, ih]

/-- At a line feed the lines before it and the lines behind it part. -/
theorem lines_append_lineFeed (first rest : List Char) :
    lines (first ++ '\n' :: rest) = lines first ++ lines rest := by
  induction first with
  | nil => simp
  | cons c first ih =>
    by_cases h : c = '\n'
    · simp [h, ih]
    · cases hfirst : lines first with
      | nil => exact absurd hfirst (lines_ne_nil first)
      | cons line more => simp [lines, h, ih, hfirst]

/-- There is one line more than there are line feeds. -/
theorem length_lines (source : List Char) : (lines source).length = source.count '\n' + 1 := by
  induction source with
  | nil => rfl
  | cons c rest ih =>
    by_cases h : c = '\n'
    · simp [h, ih]
    · cases hrest : lines rest with
      | nil => exact absurd hrest (lines_ne_nil rest)
      | cons line more => simpa [lines, h, hrest] using ih

/-- Behind as many line feeds as stand before an index comes the line of the index. -/
theorem getElem?_lines_count (source : Source) (index : Nat) :
    (lines source)[(source.take index).count '\n']?
      = some (source.lineBefore index ++ source.lineBehind index) := by
  obtain ⟨above, htake, hlast⟩ := source.take_eq_append index
  have hbefore : (source.lineBefore index).count '\n' = 0 :=
    List.count_eq_zero.mpr Source.notMem_lineBefore
  have hline : (lines (source.lineBefore index ++ source.drop index))[0]?
      = some (source.lineBefore index ++ source.lineBehind index) := by
    rw [← List.head?_eq_getElem?, head?_lines, Source.takeWhile_lineBefore_append]
    rfl
  have hsource : source = above ++ (source.lineBefore index ++ source.drop index) := by
    rw [← List.append_assoc, ← htake, List.take_append_drop]
  rw [htake, List.count_append, hbefore, Nat.add_zero]
  rcases List.eq_nil_or_concat above with rfl | ⟨more, c, rfl⟩
  · rw [List.nil_append] at hsource
    rwa [← hsource] at hline
  · obtain rfl : c = '\n' := hlast c (by simp)
    rw [List.concat_eq_append] at hsource ⊢
    rw [List.append_assoc, List.singleton_append] at hsource
    have hcount : (more ++ ['\n']).count '\n' = (lines more).length := by
      rw [length_lines, List.count_append, List.count_singleton_self]
    conv_lhs => rw [hsource]
    rw [hcount, lines_append_lineFeed, List.getElem?_append_right Nat.le.refl, Nat.sub_self, hline]

/-- The line that is looked up for the place of an index is the one around the index, cut at the
next line feed and then without a carriage return at its end. -/
theorem lineAt_advance (source : Source) (index : Nat) :
    lineAt source (Position.start.advance (source.take index)).line
      = .ok (withoutReturn (source.lineBefore index ++ source.lineBehind index)) := by
  have hcount : (source.take index).count '\n' ≤ source.count '\n' :=
    (List.take_sublist index source).count_le '\n'
  have hnumber : (1 + ((source.take index).count '\n' : Int) - 1).toNat
      = (source.take index).count '\n' := by omega
  rw [Position.advance_start_line, lineAt, length_lines, if_pos (by omega), numbered?,
    if_pos (by omega), hnumber, getElem?_lines_count]

/-! ## Line breaks -/

@[simp] theorem withoutReturn_concat (line : List Char) (c : Char) :
    withoutReturn (line ++ [c]) = if c = '\r' then line else line ++ [c] := by
  simp [withoutReturn]

theorem withoutReturn_cons {c : Char} {line : List Char} (h : line ≠ [] ∨ c ≠ '\r') :
    withoutReturn (c :: line) = c :: withoutReturn line := by
  rcases List.eq_nil_or_concat line with rfl | ⟨more, last, rfl⟩
  · simpa [withoutReturn] using h
  · rw [List.concat_eq_append, withoutReturn_concat, ← List.cons_append, withoutReturn_concat]
    split <;> rfl

/-- Cutting at a line feed and dropping a carriage return there is cutting at a line break, as long
as there is a line feed. -/
theorem untilBreak_eq (text : List Char) :
    Source.untilBreak text
      = if '\n' ∈ text then withoutReturn (text.takeWhile (· ≠ '\n')) else text := by
  induction text using Source.untilBreak.induct with
  | case1 => rfl
  | case2 rest => simp [Source.untilBreak, withoutReturn]
  | case3 rest => simp [Source.untilBreak, withoutReturn]
  | case4 c rest hfeed hreturn ih =>
    have hc : c ≠ '\n' := hfeed
    rw [Source.untilBreak.eq_4 c rest hfeed hreturn, ih]
    by_cases hmem : '\n' ∈ rest
    · have hkeep : rest.takeWhile (· ≠ '\n') ≠ [] ∨ c ≠ '\r' := by
        by_contra hn
        rw [not_or, not_not, not_not] at hn
        cases rest with
        | nil => simp at hmem
        | cons d rest =>
          by_cases hd : d = '\n'
          · exact hreturn rest hn.2 (by rw [hd])
          · simp [hd] at hn
      rw [if_pos hmem, if_pos (List.mem_cons_of_mem c hmem),
        List.takeWhile_cons_of_pos (by simpa using hc), withoutReturn_cons hkeep]
    · simp [hmem, hc.symm]

theorem withoutReturn_eq_self_iff {line : List Char} :
    withoutReturn line = line ↔ line.getLast? ≠ some '\r' := by
  induction line using List.reverseRecOn with
  | nil => simp [withoutReturn]
  | append_singleton line c =>
    rw [withoutReturn_concat, List.getLast?_concat]
    split <;> simp_all

theorem withoutReturn_append_return {line : List Char} (h : line.getLast? = some '\r') :
    withoutReturn line ++ ['\r'] = line := by
  obtain ⟨hne, hlast⟩ := List.mem_getLast?_eq_getLast h
  rw [withoutReturn, if_pos h, hlast, List.dropLast_append_getLast]

theorem withoutReturn_append {first second : List Char} (h : second ≠ []) :
    withoutReturn (first ++ second) = first ++ withoutReturn second := by
  rw [withoutReturn, withoutReturn, List.getLast?_append_of_ne_nil _ h,
    List.dropLast_append_of_ne_nil h]
  split <;> rfl

theorem length_withoutReturn_le (line : List Char) :
    (withoutReturn line).length ≤ line.length := by
  unfold withoutReturn
  split
  · simp
  · rfl

end Excerpt

namespace Source

/-! ## Carriage returns that are dropped -/

/-- Whether an index lies on the last line of a source that ends with a carriage return. -/
def EndsInReturn (source : Source) (index : Nat) : Prop :=
  source.getLast? = some '\r' ∧ '\n' ∉ source.drop index

/-- Whether an index lies at the end of its line, right behind a carriage return. -/
def IsBehindReturn (source : Source) (index : Nat) : Prop :=
  (source.take index).getLast? = some '\r' ∧ ∀ c ∈ (source.drop index).head?, c = '\n'

/-- Behind whole lines a text ends like itself, unless it ends with a line feed. -/
theorem getLast?_append_iff {above rest : List Char} {c : Char}
    (habove : ∀ d ∈ above.getLast?, d = '\n') (hc : c ≠ '\n') :
    (above ++ rest).getLast? = some c ↔ rest.getLast? = some c := by
  by_cases hrest : rest = []
  · subst hrest
    have hne : above.getLast? ≠ some c := fun h => hc (habove c h)
    simpa using hne
  · rw [List.getLast?_append_of_ne_nil _ hrest]

theorem lineBehind_eq_nil_iff :
    source.lineBehind index = [] ↔ ∀ c ∈ (source.drop index).head?, c = '\n' := by
  unfold lineBehind
  cases source.drop index with
  | nil => simp
  | cons c rest => by_cases h : c = '\n' <;> simp [h]

theorem isBehindReturn_iff :
    source.IsBehindReturn index
      ↔ (source.lineBefore index).getLast? = some '\r' ∧ source.lineBehind index = [] := by
  obtain ⟨above, htake, habove⟩ := source.take_eq_append index
  rw [IsBehindReturn, ← lineBehind_eq_nil_iff, htake, getLast?_append_iff habove (by decide)]

/-- The line of an index ends at the next line feed, without a carriage return there, or with the
source. -/
theorem lineAround_eq (source : Source) (index : Nat) :
    source.lineAround index
      = if '\n' ∈ source.drop index
        then withoutReturn (source.lineBefore index ++ source.lineBehind index)
        else source.lineBefore index ++ source.lineBehind index := by
  rw [lineAround, untilBreak_eq, takeWhile_lineBefore_append]
  by_cases h : '\n' ∈ source.drop index
  · rw [if_pos (List.mem_append_right _ h), if_pos h, lineBehind]
  · have hbehind : source.lineBehind index = source.drop index := by
      rw [lineBehind, List.takeWhile_eq_self_iff]
      intro c hc
      have hne : c ≠ '\n' := fun e => h (e ▸ hc)
      simpa using hne
    rw [if_neg (by simp [h, notMem_lineBefore]), if_neg h, hbehind]

theorem endsInReturn_iff :
    source.EndsInReturn index
      ↔ '\n' ∉ source.drop index ∧ (source.lineAround index).getLast? = some '\r' := by
  obtain ⟨above, htake, habove⟩ := source.take_eq_append index
  have hsource : above ++ (source.lineBefore index ++ source.drop index) = source := by
    rw [← List.append_assoc, ← htake, List.take_append_drop]
  have hlast : (source.lineBefore index ++ source.drop index).getLast? = some '\r'
      ↔ source.getLast? = some '\r' := by
    rw [← getLast?_append_iff habove (by decide), hsource]
  rw [EndsInReturn, and_comm, and_congr_right_iff]
  intro h
  rw [lineAround, untilBreak_eq, if_neg (by simp [h, notMem_lineBefore]), hlast]

end Source

/-! ## The line and the caret -/

namespace Excerpt

/-- What stands above the caret's line for a character of the line before the caret. -/
def blank (c : Char) : Char := if c = '\t' then '\t' else ' '

theorem excerpt_advance (source : Source) (index : Nat) :
    excerpt source (Position.start.advance (source.take index))
      = .ok (withoutReturn (source.lineBefore index ++ source.lineBehind index),
          ((withoutReturn (source.lineBefore index ++ source.lineBehind index)).take
            (source.lineBefore index).length).map blank ++ ['^']) := by
  have hcolumn : (Position.start.advance (source.take index)).column - 1
      = (source.lineBefore index).length := by
    rw [source.column_eq]
    omega
  rw [excerpt, lineAt_advance, Except.map, caretLine, hcolumn, firstUpTo, if_pos (by omega),
    Int.toNat_natCast]
  rfl

/-- The line of an excerpt is the line that the index lies in, unless that is the last line and ends
with a carriage return, which is then missing. -/
theorem excerpt_line_iff (source : Source) (index : Nat) :
    ∃ line caret,
      excerpt source (Position.start.advance (source.take index)) = .ok (line, caret) ∧
      (line = source.lineAround index ↔ ¬ source.EndsInReturn index) ∧
      (source.EndsInReturn index → source.lineAround index = line ++ ['\r']) := by
  refine ⟨_, _, excerpt_advance source index, ?_⟩
  rw [Source.endsInReturn_iff, source.lineAround_eq]
  by_cases h : '\n' ∈ source.drop index
  · simp [h]
  · rw [if_neg h, withoutReturn_eq_self_iff]
    exact ⟨by simp [h], fun hreturn => (withoutReturn_append_return hreturn.2).symm⟩

/-- A source that ends with a carriage return is shown without it. -/
theorem not_forall_excerpt_line :
    ¬ ∀ (source : Source) (index : Nat), index ≤ source.length → ∃ line caret,
      excerpt source (Position.start.advance (source.take index)) = .ok (line, caret) ∧
      line = source.lineAround index := by
  intro h
  obtain ⟨line, caret, heq, hline⟩ := h ['a', '\r'] 0 (by decide)
  have hshown : excerpt ['a', '\r'] (Position.start.advance (['a', '\r'].take 0))
      = .ok (['a'], ['^']) := by decide
  have haround : Source.lineAround ['a', '\r'] 0 = ['a', '\r'] := by decide
  rw [hshown, Except.ok.injEq, Prod.mk.injEq] at heq
  rw [← heq.1, haround] at hline
  simp at hline

/-- What is left of the line before an index once a carriage return at the end of the line is
dropped. -/
theorem take_withoutReturn (source : Source) (index : Nat) :
    (withoutReturn (source.lineBefore index ++ source.lineBehind index)).take
        (source.lineBefore index).length
      = if source.lineBehind index = [] then withoutReturn (source.lineBefore index)
        else source.lineBefore index := by
  split
  · rename_i h
    rw [h, List.append_nil, List.take_of_length_le (length_withoutReturn_le _)]
  · rename_i h
    rw [withoutReturn_append h, List.take_left]

/-- The caret stands below the column of a place, behind one blank for each character of the line
before the place, unless the place lies at the end of its line, right behind a carriage return.
There the last blank is missing, and the caret is one column short. -/
theorem excerpt_caret_iff (source : Source) (index : Nat) :
    ∃ line caret,
      excerpt source (Position.start.advance (source.take index)) = .ok (line, caret) ∧
      (caret = (source.lineBefore index).map blank ++ ['^'] ↔ ¬ source.IsBehindReturn index) ∧
      ((caret.length : Int) = (Position.start.advance (source.take index)).column
        ↔ ¬ source.IsBehindReturn index) ∧
      (source.IsBehindReturn index →
        caret = (source.lineBefore index).dropLast.map blank ++ ['^'] ∧
        caret.length + 1 = (Position.start.advance (source.take index)).column) := by
  refine ⟨_, _, excerpt_advance source index, ?_⟩
  rw [take_withoutReturn, source.column_eq]
  by_cases h : source.IsBehindReturn index
  · -- the carriage return is the last character before the place
    obtain ⟨hlast, hbehind⟩ := Source.isBehindReturn_iff.mp h
    have hlength := congrArg List.length (withoutReturn_append_return hlast)
    have hdrop : withoutReturn (source.lineBefore index) = (source.lineBefore index).dropLast :=
      if_pos hlast
    rw [List.length_append, List.length_singleton] at hlength
    rw [if_pos hbehind]
    refine ⟨iff_of_false (fun hcaret => ?_) (not_not_intro h),
      iff_of_false (fun hcaret => ?_) (not_not_intro h), fun _ => ⟨by rw [hdrop], ?_⟩⟩
    · have hsame := congrArg List.length hcaret
      simp only [List.length_append, List.length_map, List.length_singleton] at hsame
      omega
    · simp only [List.length_append, List.length_map, List.length_singleton] at hcaret
      omega
    · simp only [List.length_append, List.length_map, List.length_singleton]
      omega
  · have hkept : (if source.lineBehind index = [] then withoutReturn (source.lineBefore index)
        else source.lineBefore index) = source.lineBefore index := by
      split
      · rename_i hbehind
        exact withoutReturn_eq_self_iff.mpr fun hlast =>
          h (Source.isBehindReturn_iff.mpr ⟨hlast, hbehind⟩)
      · rfl
    rw [hkept]
    simp [h]

/-- Between a carriage return and its line feed the caret stands below the carriage return's own
column. -/
theorem not_forall_excerpt_caret :
    ¬ ∀ (source : Source) (index : Nat), index ≤ source.length → ∃ line caret,
      excerpt source (Position.start.advance (source.take index)) = .ok (line, caret) ∧
      caret = (source.lineBefore index).map blank ++ ['^'] ∧
      (caret.length : Int) = (Position.start.advance (source.take index)).column := by
  intro h
  obtain ⟨line, caret, heq, -, hlength⟩ := h ['a', '\r', '\n', 'b'] 2 (by decide)
  have hshown : excerpt ['a', '\r', '\n', 'b']
      (Position.start.advance (['a', '\r', '\n', 'b'].take 2)) = .ok (['a'], [' ', '^']) := by
    decide
  rw [hshown, Except.ok.injEq, Prod.mk.injEq] at heq
  rw [← heq.2] at hlength
  exact absurd hlength (by decide)

end Excerpt

end Descent
