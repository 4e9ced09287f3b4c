import Descent.Proofs.Composed.Obeys
import Descent.Proofs.Position.Reaches

/-! # Where parsers stop and get stuck

A composed parser that starts in a source neither goes back nor leaves the source, and where it
stops or gets stuck is the place reached by consuming the text in between. It does not matter how
many parsers that text was shared out to, or which failure of several was the one reported.

* **`Position.law_reaches`** — reaching is a law.
* **`Parser.Composed.result_place`** — main statement: the place in the result of a composed
  parser. -/

namespace Descent

namespace Position

variable {source : Source} {place : Position}

/-- A text that is matched stands at the place. -/
theorem textResult_eq_matched (hplace : place.Within source) {literal : String} {stop : Position}
    {value : Value} (h : Engine.textResult literal source place = .matched stop value) :
    stop = place.advance literal.toList ∧ value = .str literal ∧
      ∃ rest, source.drop place.index.toNat = literal.toList ++ rest := by
  have hnonneg := hplace.nonneg
  unfold Engine.textResult at h
  split at h
  · rename_i hstands
    unfold Source.standsAt at hstands
    rw [if_neg (by omega)] at hstands
    simp only [Bool.and_eq_true, decide_eq_true_eq, List.isPrefixOf_iff_prefix] at hstands
    obtain ⟨-, rest, hrest⟩ := hstands
    cases h
    exact ⟨rfl, rfl, rest, hrest.symm⟩
  · cases h

/-- What a regular expression matches stands at the place. -/
theorem patternResult_eq_matched (hplace : place.Within source) {regex : Regex} {stop : Position}
    {value : Value} (h : Engine.patternResult regex source place = .ok (.matched stop value)) :
    ∃ found, stop = place.advance found ∧ value = .str (String.ofList found) ∧
      ∃ rest, source.drop place.index.toNat = found ++ rest := by
  have hnonneg := hplace.nonneg
  have hle := hplace.le_length
  unfold Engine.patternResult at h
  split at h
  · split at h
    · rename_i found hfound
      -- the index is not clamped as it lies in the source
      have hdrop := Regex.matchAt?_append hfound
      have hclamp : Regex.clamp source place.index = place.index.toNat := by
        unfold Regex.clamp
        omega
      rw [hclamp] at hdrop
      cases h
      exact ⟨found, rfl, rfl, _, hdrop.symm⟩
    · cases h
  · cases h

/-- A text leads to the place behind it, or nowhere. -/
theorem reaches_textResult (hplace : place.Within source) (literal : String) :
    Reaches source place (Engine.textResult literal source place).place := by
  by_cases h : source.standsAt literal.toList place.index
  · have hmatched : Engine.textResult literal source place
        = .matched (place.advance literal.toList) (.str literal) := if_pos h
    obtain ⟨-, -, rest, hrest⟩ := textResult_eq_matched hplace hmatched
    rw [hmatched]
    exact .of_append hplace hrest
  · have hfailed : Engine.textResult literal source place = .failed ⟨place, [.str literal]⟩ :=
      if_neg h
    rw [hfailed]
    exact .refl hplace

/-- A regular expression leads to the place behind what it matches, or nowhere. -/
theorem reaches_patternResult (hplace : place.Within source) {regex : Regex} {result : Result}
    (h : Engine.patternResult regex source place = .ok result) :
    Reaches source place result.place := by
  cases result with
  | matched stop value =>
    obtain ⟨found, rfl, rfl, rest, hrest⟩ := patternResult_eq_matched hplace h
    exact .of_append hplace hrest
  | failed failure =>
    unfold Engine.patternResult at h
    split at h
    · split at h
      · cases h
      · cases h
        exact .refl hplace
    · cases h

/-- The place of a failure reported for two is the place of one of them. -/
theorem place_merge (first second : Failure) :
    (first.merge second).place = first.place ∨ (first.merge second).place = second.place := by
  unfold Failure.merge
  split
  · exact .inl rfl
  · split
    · exact .inr rfl
    · exact .inl rfl

/-- That a result is at a place reached from the start is a law. -/
theorem law_reaches : Law fun source place result =>
    place.Within source → Reaches source place result.place where
  text literal _ _ hplace := reaches_textResult hplace literal
  pattern _ _ _ _ h hplace := reaches_patternResult hplace h
  fail _ _ _ hplace := .refl hplace
  eof source place hplace := by
    have hstay : (Engine.eofResult source place).place = place := by
      unfold Engine.eofResult
      split
      · rfl
      · rfl
    rw [hstay]
    exact .refl hplace
  stay _ _ _ hplace := .refl hplace
  revalue _ _ _ _ _ h := h
  after _ _ _ _ _ hfirst hsecond hplace :=
    .trans hplace (hfirst hplace) (hsecond ((hfirst hplace).within hplace))
  merge source place first second hfirst hsecond hplace := by
    rw [Result.place_failed]
    rcases place_merge first second with heq | heq
    · rw [heq]
      exact hfirst hplace
    · rw [heq]
      exact hsecond hplace
  relabel _ _ _ _ h _ := h

end Position

/-- The result of a composed parser is at the place reached by consuming the text of the source up
to there, be it a match or a failure. From the start of the source its line is one more than the
number of line feeds before it, and its column one more than the number of characters since the last
of these. -/
theorem Parser.Composed.result_place {store after : Store} {known : Known}
    (hstore : store.Honours known) {parser : Parser} (hparser : parser.Composed known)
    {source : Source} {place : Position} (hplace : place.Within source) {depth : Nat}
    {result : Result}
    (h : ((Engine.upTo depth).run parser source place).on store = some (.ok result, after)) :
    place.index ≤ result.place.index ∧ result.place.index ≤ source.length ∧
      result.place = place.advance (source.between place.index result.place.index) ∧
      (place = .start →
        result.place.line = 1 + (source.take result.place.index.toNat).count '\n' ∧
        result.place.column = 1 + Position.tailLength (source.take result.place.index.toNat)) := by
  -- the law holds of every composed parser; the rest is about places alone
  have hreaches := Position.law_reaches.holds hstore hparser h hplace
  refine ⟨hreaches.le_stop, hreaches.stop_le, hreaches.eq_advance, ?_⟩
  rintro rfl
  have hline := Position.advance_start_line (source.take result.place.index.toNat)
  have hcolumn := Position.advance_start_column (source.take result.place.index.toNat)
  rw [← hreaches.eq_start_advance] at hline hcolumn
  exact ⟨hline, hcolumn⟩

/-! ## A grammar with line ends in two pieces -/

/-- Lines of one letter each: a rule that runs itself behind every line feed, and that matches the
line feeds apart from the carriage returns before them. -/
def linesMaker (owner : Owner) : Maker :=
  .mk <| .rule owner.language "lines" fun cell =>
    let line := Parser.andThen (.text "a\r") fun _ => .and (.text "\n") (.lazy cell)
    .done (.parser (.desc (.or line .eof) ⟨.str "lines", []⟩))

/-- A store with a language of that rule. -/
def linesStore : Store :=
  { Store.initial false with
    instances := #[⟨Store.base, [], some [("lines", ⟨0, 0⟩)],
      #[.unbuilt "lines" (linesMaker ⟨0, []⟩)]⟩] }

/-- All its rules are composed. -/
theorem honours_linesStore :
    linesStore.Honours (Store.Honours.withLanguage linesStore {.className Store.baseName} 0) := by
  have hcreate : (Store.initial false).create Store.baseName [] [("lines", linesMaker)]
      = .ok (0, linesStore) := rfl
  refine (Store.Honours.initial false).create hcreate rfl fun entry hentry larger owner _ hl _ => ?_
  rw [List.mem_singleton] at hentry
  subst hentry
  refine .rule fun larger' cell hsub hcell => ?_
  refine .parser (.desc (.or (.andThen (.text _) fun _ => ?_) .eof) _)
  exact .and (.text _) (.lazy (hcell hl))

/-- Without its last line feed the second line gets stuck behind its carriage return. -/
theorem Parser.Composed.result_place_lines :
    let known := Store.Honours.withLanguage linesStore {.className Store.baseName} 0
    let source : Source := ['a', '\r', '\n', 'a', '\r']
    let stuck : Result := .failed ⟨⟨5, 2, 3⟩, [.str "\n"]⟩
    linesStore.Honours known ∧ (Parser.lazy ⟨0, 0⟩).Composed known ∧
      Position.start.Within source ∧ ∃ after,
      ((Engine.upTo 12).run (.lazy ⟨0, 0⟩) source .start).on linesStore
        = some (.ok stuck, after) ∧
      0 ≤ stuck.place.index ∧ stuck.place.index ≤ source.length ∧
      stuck.place = Position.start.advance (source.between 0 stuck.place.index) ∧
      (Position.start = .start →
        stuck.place.line = 1 + (source.take stuck.place.index.toNat).count '\n' ∧
        stuck.place.column = 1 + Position.tailLength (source.take stuck.place.index.toNat)) := by
  intro known source stuck
  have hparser : (Parser.lazy ⟨0, 0⟩).Composed known :=
    .lazy (.inr (.inr (.inr ⟨0, rfl, rfl⟩)))
  have hplace : Position.start.Within source := ⟨by decide, by decide⟩
  exact ⟨honours_linesStore, hparser, hplace, _, rfl,
    @Parser.Composed.result_place _ _ _ honours_linesStore _ hparser _ _ hplace 12 _ rfl⟩

end Descent
