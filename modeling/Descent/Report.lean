import Descent.Excerpt
import Descent.Text.Wording

/-! # The report of a failed parse

A failure is reported to a reader in three lines: the place and what was expected there, the line of
the source, and a caret below the column. -/

namespace Descent.Report

/-- The first line of a report: the line and column, and what was expected. -/
def header (place : Position) (wording : String) : String :=
  s!"{place.line}:{place.column}: {wording}"

/-- The report of a failure. -/
def text (source : Source) (failure : Failure) : Except Raised String := do
  let (line, caret) ← Excerpt.excerpt source failure.place
  let wording ← Text.Wording.expected failure.expected
  return header failure.place wording ++ "\n" ++ String.ofList line ++ "\n" ++ String.ofList caret

end Descent.Report
