import Descent.Proofs.Coordinates
import Descent.Proofs.Verdicts
import Descent.Raised.Message
import Mathlib.Data.List.Infix
import Mathlib.Data.Nat.Digits.Defs
import Mathlib.Tactic.IntervalCases

/-! # The lines of a report

A report is one text of three lines, whatever the source and the labels hold:

* **`Text.Quoted.allPrintable_quote`** — a quoted text is printable, whatever the text was.
* **`Text.Wording.allPrintable_expected`** — so are the words for what was expected.
* **`Excerpt.lines_append_lineFeed`** cuts a text at its line feeds; what is printable has none, and
  neither has a line of a source (`Excerpt.notMem_of_mem_lines`).
* **`Report.lines_text`** — main statement: the report of a failure at any place of a source can be
  written; its first line is printable, its second is the line of the place, and its third has blanks
  and a caret only. -/

namespace Descent

open Excerpt Position

/-! ## Printable words -/

namespace Text

namespace Printable

theorem allPrintable_iff {text : List Char} :
    allPrintable text = true ↔ ∀ c ∈ text, isPrintable c = true := List.all_eq_true

/-- The visible characters of the ASCII range, and the space, are printable. -/
theorem isPrintable_of_ascii {c : Char} (hlow : 0x20 ≤ c.toNat) (hhigh : c.toNat ≤ 0x7e) :
    isPrintable c = true := by
  have hfirst : (0x20, 0x7e) ∈ ranges := List.mem_cons_self
  exact List.any_eq_true.mpr ⟨_, hfirst, by simp [hlow, hhigh]⟩

/-- What is printable has no line feed. -/
theorem notMem_of_allPrintable {text : List Char} (h : allPrintable text = true) : '\n' ∉ text := by
  intro hmem
  have hfeed := allPrintable_iff.mp h _ hmem
  rw [isPrintable_lineFeed] at hfeed
  cases hfeed

/-- The digits of a number are those that digits can be. -/
theorem exists_digitChar_of_mem_toDigits {base : Nat} (hbase : 1 < base) (number : Nat) {c : Char}
    (h : c ∈ Nat.toDigits base number) : ∃ digit < base, c = digit.digitChar := by
  induction number using Nat.strong_induction_on with
  | _ number ih =>
    rw [Nat.toDigits_eq_if hbase] at h
    split at h
    · rename_i hlt
      exact ⟨number, hlt, List.mem_singleton.mp h⟩
    · rename_i hle
      have hpos : 0 < number := by omega
      rcases List.mem_append.mp h with hfront | hlast
      · exact ih _ (Nat.div_lt_self hpos hbase) hfront
      · exact ⟨_, Nat.mod_lt _ (by omega), List.mem_singleton.mp hlast⟩

/-- A number is printable in every base up to sixteen. -/
theorem allPrintable_toDigits {base : Nat} (hbase : 1 < base) (hle : base ≤ 16) (number : Nat) :
    allPrintable (Nat.toDigits base number) = true := by
  refine allPrintable_iff.mpr fun c hc => ?_
  obtain ⟨digit, hdigit, rfl⟩ := exists_digitChar_of_mem_toDigits hbase number hc
  have hsixteen : digit < 16 := by omega
  have hrange : 0x20 ≤ digit.digitChar.toNat ∧ digit.digitChar.toNat ≤ 0x7e := by
    interval_cases digit <;> decide
  exact isPrintable_of_ascii hrange.1 hrange.2

theorem allPrintable_toString_nat (number : Nat) :
    allPrintable (toString number).toList = true := by
  show allPrintable number.repr.toList = true
  rw [Nat.toList_repr]
  exact allPrintable_toDigits (by decide) (by decide) number

/-- A whole number is printable, be it negative or not. -/
theorem allPrintable_toString (number : Int) : allPrintable (toString number).toList = true := by
  cases number with
  | ofNat count => exact allPrintable_toString_nat count
  | negSucc count =>
    show allPrintable ("-" ++ toString (count + 1)).toList = true
    rw [String.toList_append, allPrintable_append, allPrintable_toString_nat, Bool.and_true]
    exact allPrintable_iff.mpr fun c hc => by
      obtain rfl : c = '-' := by simpa using hc
      exact isPrintable_of_ascii (by decide) (by decide)

end Printable

open Printable

namespace Quoted

theorem allPrintable_hexadecimal (width number : Nat) :
    allPrintable (hexadecimal width number) = true := by
  rw [hexadecimal, List.leftpad, allPrintable_append,
    allPrintable_toDigits (by decide) (by decide), Bool.and_true]
  refine allPrintable_iff.mpr fun c hc => ?_
  obtain rfl := List.eq_of_mem_replicate hc
  exact isPrintable_of_ascii (by decide) (by decide)

theorem allPrintable_numeric (c : Char) : allPrintable (numeric c) = true := by
  have hslash : isPrintable '\\' = true := isPrintable_of_ascii (by decide) (by decide)
  have hx : isPrintable 'x' = true := isPrintable_of_ascii (by decide) (by decide)
  have hu : isPrintable 'u' = true := isPrintable_of_ascii (by decide) (by decide)
  have hU : isPrintable 'U' = true := isPrintable_of_ascii (by decide) (by decide)
  unfold numeric
  split
  · simp [hslash, hx, allPrintable_hexadecimal]
  · split
    · simp [hslash, hu, allPrintable_hexadecimal]
    · simp [hslash, hU, allPrintable_hexadecimal]

/-- Inside quotes every character is written with printable ones. -/
theorem allPrintable_escape {quote : Char} (hquote : isPrintable quote = true) (c : Char) :
    allPrintable (escape quote c) = true := by
  have hslash : isPrintable '\\' = true := isPrintable_of_ascii (by decide) (by decide)
  have ht : isPrintable 't' = true := isPrintable_of_ascii (by decide) (by decide)
  have hn : isPrintable 'n' = true := isPrintable_of_ascii (by decide) (by decide)
  have hr : isPrintable 'r' = true := isPrintable_of_ascii (by decide) (by decide)
  unfold escape
  split
  · rename_i hc
    rcases hc with rfl | rfl
    · simp [hslash, hquote]
    · simp [hslash]
  · repeat' split
    · simp [hslash, ht]
    · simp [hslash, hn]
    · simp [hslash, hr]
    · rename_i hc
      simp [hc]
    · exact allPrintable_numeric c

/-- A quoted text is printable. -/
theorem allPrintable_quoted (text : List Char) : allPrintable (quoted text) = true := by
  have hquote : isPrintable (quoteFor text) = true := by
    rcases quoteFor_eq_or text with h | h
    · rw [h]
      exact isPrintable_of_ascii (by decide) (by decide)
    · rw [h]
      exact isPrintable_of_ascii (by decide) (by decide)
  have hescaped : allPrintable (text.flatMap (escape (quoteFor text))) = true := by
    refine allPrintable_iff.mpr fun c hc => ?_
    obtain ⟨d, -, hd⟩ := List.mem_flatMap.mp hc
    exact allPrintable_iff.mp (allPrintable_escape hquote d) c hd
  simp [quoted, hquote, hescaped]

theorem allPrintable_quote (text : String) : allPrintable (quote text).toList = true := by
  rw [quote, String.toList_ofList]
  exact allPrintable_quoted text.toList

end Quoted

namespace Wording

/-- A text is shown as it is only if it is printable. -/
theorem allPrintable_name (text : String) : allPrintable (name text).toList = true := by
  unfold name
  split
  · rename_i h
    exact h.2
  · exact Quoted.allPrintable_quote text

theorem allPrintable_intercalate {separator : List Char} (hseparator : allPrintable separator = true)
    {parts : List (List Char)} (h : ∀ part ∈ parts, allPrintable part = true) :
    allPrintable (separator.intercalate parts) = true := by
  induction parts with
  | nil => rfl
  | cons first rest ih =>
    have hfirst := h first List.mem_cons_self
    have hrest := ih fun part hpart => h part (List.mem_cons_of_mem _ hpart)
    cases rest with
    | nil => simpa using hfirst
    | cons second more =>
      rw [List.intercalate_cons_cons, allPrintable_append, allPrintable_append, hfirst, hseparator,
        hrest]
      rfl

/-- Each shape of the phrase is printable if the labels are. -/
theorem allPrintable_phrase {labels : List String}
    (h : ∀ label ∈ labels, allPrintable label.toList = true) :
    allPrintable (phrase labels).toList = true := by
  have hunexpected : allPrintable "unexpected input".toList = true := by decide +kernel
  have hexpected : allPrintable "expected ".toList = true := by decide +kernel
  have hor : allPrintable " or ".toList = true := by decide +kernel
  have hlast : allPrintable ", or ".toList = true := by decide +kernel
  have hcomma : allPrintable ", ".toList = true := by decide +kernel
  match labels with
  | [] => exact hunexpected
  | [only] =>
    simp only [phrase, String.toList_append, allPrintable_append, hexpected,
      h only List.mem_cons_self, Bool.and_self]
  | [first, second] =>
    simp only [phrase, String.toList_append, allPrintable_append, hexpected, hor,
      h first List.mem_cons_self, h second (List.mem_cons_of_mem _ List.mem_cons_self),
      Bool.and_self]
  | first :: second :: third :: more =>
    have hfront : allPrintable (", ".toList.intercalate
        ((first :: second :: third :: more).dropLast.map String.toList)) = true := by
      refine allPrintable_intercalate hcomma fun part hpart => ?_
      obtain ⟨label, hlabel, rfl⟩ := List.mem_map.mp hpart
      exact h label (List.mem_of_mem_dropLast hlabel)
    have hend : allPrintable ((first :: second :: third :: more).getLastD "").toList = true :=
      h ((second :: third :: more).getLastD first) List.getLastD_mem_cons
    simp only [phrase, String.toList_append, String.toList_intercalate, allPrintable_append,
      hexpected, hfront, hlast, hend, Bool.and_self]

/-- The words for labels that are texts are printable. -/
theorem exists_expected_allPrintable {labels : List Value}
    (h : ∀ label ∈ labels, ∃ text, label = .str text) :
    ∃ wording, expected labels = .ok wording ∧ allPrintable wording.toList = true := by
  obtain ⟨texts, htexts⟩ := exists_expected h
  refine ⟨_, htexts, allPrintable_phrase fun shown hshown => ?_⟩
  obtain ⟨text, -, rfl⟩ := List.mem_map.mp hshown
  exact allPrintable_name text

end Wording

end Text

/-! ## Texts of several lines -/

namespace Excerpt

/-- A text without a line feed is one line. -/
theorem lines_of_notMem {text : List Char} (h : '\n' ∉ text) : lines text = [text] := by
  induction text with
  | nil => rfl
  | cons c rest ih =>
    rw [List.mem_cons, not_or] at h
    have hc : c ≠ '\n' := fun e => h.1 e.symm
    simp [lines, hc, ih h.2]

/-- No line has a line feed. -/
theorem notMem_of_mem_lines {text line : List Char} (h : line ∈ lines text) : '\n' ∉ line := by
  induction text generalizing line with
  | nil =>
    obtain rfl := List.mem_singleton.mp h
    exact List.not_mem_nil
  | cons c rest ih =>
    by_cases hc : c = '\n'
    · rw [hc, lines_lineFeed] at h
      rcases List.mem_cons.mp h with rfl | hrest
      · exact List.not_mem_nil
      · exact ih hrest
    · cases hlines : lines rest with
      | nil => exact absurd hlines (lines_ne_nil rest)
      | cons first more =>
        simp only [lines, hc, if_false, hlines] at h
        rcases List.mem_cons.mp h with rfl | hmore
        · have hfirst : '\n' ∉ first := ih (by rw [hlines]; exact List.mem_cons_self)
          simp [hfirst, Ne.symm hc]
        · exact ih (by rw [hlines]; exact List.mem_cons_of_mem _ hmore)

/-- A line without the carriage return at its end is the line up to a carriage return. -/
theorem eq_withoutReturn_or (line : List Char) :
    line = withoutReturn line ∨ line = withoutReturn line ++ ['\r'] := by
  by_cases h : line.getLast? = some '\r'
  · exact .inr (withoutReturn_append_return h).symm
  · exact .inl (withoutReturn_eq_self_iff.mpr h).symm

theorem blank_eq_or (c : Char) : blank c = '\t' ∨ blank c = ' ' := by
  unfold blank
  split <;> simp

end Excerpt

/-! ## The report -/

namespace Report

open Text.Printable

/-- The first line of a report is printable if the words are. -/
theorem allPrintable_header (place : Position) {wording : String}
    (h : allPrintable wording.toList = true) :
    allPrintable (header place wording).toList = true := by
  have hcolon : allPrintable ":".toList = true := by decide +kernel
  have hspace : allPrintable ": ".toList = true := by decide +kernel
  show allPrintable (toString place.line ++ ":" ++ toString place.column ++ ": "
    ++ wording).toList = true
  simp only [String.toList_append, allPrintable_append, allPrintable_toString, hcolon, hspace, h,
    Bool.and_self]

/-- Of three texts without line feeds, one below the other, the lines are these three. -/
theorem lines_of_three {first second third : String} (hfirst : '\n' ∉ first.toList)
    (hsecond : '\n' ∉ second.toList) (hthird : '\n' ∉ third.toList) :
    lines (first ++ "\n" ++ second ++ "\n" ++ third).toList
      = [first.toList, second.toList, third.toList] := by
  have htext : (first ++ "\n" ++ second ++ "\n" ++ third).toList
      = first.toList ++ '\n' :: (second.toList ++ '\n' :: third.toList) := by
    simp [String.toList_append]
  rw [htext, lines_append_lineFeed, lines_append_lineFeed, lines_of_notMem hfirst,
    lines_of_notMem hsecond, lines_of_notMem hthird]
  rfl

/-- A report is put together from the excerpt and the words. -/
theorem text_eq {source : Source} {failure : Failure} {line caret : List Char} {wording : String}
    (hexcerpt : excerpt source failure.place = .ok (line, caret))
    (hwording : Text.Wording.expected failure.expected = .ok wording) :
    text source failure
      = .ok (header failure.place wording ++ "\n" ++ String.ofList line ++ "\n"
          ++ String.ofList caret) := by
  rw [text, hexcerpt, hwording]
  rfl

/-- A reader of the error that a source was not parsed sees the report, if it can be written. -/
theorem message_unparsed {source : Source} {failure : Failure} {report : String}
    (h : text source failure = .ok report) : (Raised.unparsed source failure).message = report := by
  have hsettled : (Raised.unparsed source failure).settled = .unparsed source failure := by
    rw [Raised.settled, h]
  rw [Raised.message, hsettled]
  show (text source failure).toOption.getD "" = report
  rw [h]
  rfl

/-- The report of a failure at the place of an index, with any texts as labels, can be written, and
it is what a reader of the error sees. It has three lines: the line and the column of the place with
printable words; the line of the source that has this number, up to a carriage return at its end;
and tabs and spaces followed by a caret. -/
theorem lines_text (source : Source) (index : Nat) (labels : List String) :
    ∃ report wording shown line blanks,
      text source ⟨start.advance (source.take index), labels.map .str⟩ = .ok report ∧
      (Raised.unparsed source ⟨start.advance (source.take index), labels.map .str⟩).message
        = report ∧
      lines report.toList
        = [(header (start.advance (source.take index)) wording).toList, shown, blanks ++ ['^']] ∧
      allPrintable (header (start.advance (source.take index)) wording).toList = true ∧
      (lines source)[((start.advance (source.take index)).line - 1).toNat]? = some line ∧
      (line = shown ∨ line = shown ++ ['\r']) ∧
      ∀ c ∈ blanks, c = '\t' ∨ c = ' ' := by
  have htexts : ∀ label ∈ labels.map Value.str, ∃ text, label = .str text := by
    intro label hlabel
    obtain ⟨text, -, rfl⟩ := List.mem_map.mp hlabel
    exact ⟨text, rfl⟩
  obtain ⟨wording, hwording, hprintable⟩ := Text.Wording.exists_expected_allPrintable htexts
  have hheader := allPrintable_header (start.advance (source.take index)) hprintable
  have hline := getElem?_lines_place source index
  have hshown : '\n' ∉ withoutReturn (source.lineBefore index ++ source.lineBehind index) := by
    intro hmem
    refine notMem_of_mem_lines (List.mem_of_getElem? hline) ?_
    rcases eq_withoutReturn_or (source.lineBefore index ++ source.lineBehind index) with h | h
    · rwa [h]
    · rw [h]
      exact List.mem_append_left _ hmem
  have hblanks : ∀ c ∈ ((withoutReturn (source.lineBefore index ++ source.lineBehind index)).take
      (source.lineBefore index).length).map blank, c = '\t' ∨ c = ' ' := by
    intro c hc
    obtain ⟨d, -, rfl⟩ := List.mem_map.mp hc
    exact blank_eq_or d
  have hcaret : '\n' ∉ ((withoutReturn (source.lineBefore index ++ source.lineBehind index)).take
      (source.lineBefore index).length).map blank ++ ['^'] := by
    intro hmem
    rcases List.mem_append.mp hmem with hmem | hmem
    · rcases hblanks _ hmem with h | h <;> cases h
    · simp at hmem
  have htext : text source ⟨start.advance (source.take index), labels.map .str⟩ = .ok _ :=
    text_eq (excerpt_advance source index) hwording
  refine ⟨_, wording, _, _, _, htext, message_unparsed htext, ?_, hheader, hline,
    eq_withoutReturn_or _, hblanks⟩
  rw [lines_of_three (notMem_of_allPrintable hheader) (by rwa [String.toList_ofList])
    (by rwa [String.toList_ofList]), String.toList_ofList, String.toList_ofList]

end Report

end Descent
