import Descent.Proofs.Endings
import Descent.Proofs.Labels

/-! # How runs of composed parsers end

* **`Store.HonoursMore`** — a store in which what is known has stayed composed, whatever else became
  known since.
* **`Parser.Composed.honoursMore`** — a composed parser leaves such a store.
* **`Law.of_ends`**, **`Parser.Composed.expected_pairwise`** — what is true of its result.
* **`Parser.Composed.advances`** — wherever it is started, be it in the source or not, it neither
  goes back nor leaves the source. -/

namespace Descent

/-- A store that honours what is known, and perhaps more. -/
def Store.HonoursMore (store : Store) (known : Known) : Prop :=
  ∃ larger, known ⊆ larger ∧ store.Honours larger

theorem Store.Honours.more {store : Store} {known : Known} (h : store.Honours known) :
    store.HonoursMore known := ⟨known, subset_rfl, h⟩

variable {store after : Store} {known : Known} {parser : Parser} {source : Source}
  {place : Position} {ended : Except Raised Result}

/-- A composed parser leaves a store in which what is known has stayed composed. -/
theorem Parser.Composed.honoursMore (h : parser.Composed known) (hstore : store.HonoursMore known)
    (hends : parser.Ends source place store ended after) : after.HonoursMore known := by
  obtain ⟨larger, hsub, hhonours⟩ := hstore
  obtain ⟨depth, hon⟩ := Parser.ends_iff_exists.mp hends
  rw [← Film.fst_run_on] at hon
  obtain ⟨largest, hleads, -⟩ := Film.warrants_upTo depth larger parser source place
    (h.mono hsub) store hhonours _ after hon
  exact ⟨largest, hsub.trans hleads.subset, hleads.honours⟩

/-- The labels of a composed parser's failure are not repeated. -/
theorem Parser.Composed.expected_pairwise (h : parser.Composed known)
    (hstore : store.HonoursMore known) {failure : Failure}
    (hends : parser.Ends source place store (.ok (.failed failure)) after) :
    failure.expected.Pairwise fun a b => Value.same a b = false := by
  obtain ⟨larger, hsub, hhonours⟩ := hstore
  obtain ⟨depth, hon⟩ := Parser.ends_iff_exists.mp hends
  rw [← Film.fst_run_on] at hon
  obtain ⟨_, -, hresult⟩ := Film.warrants_upTo depth larger parser source place (h.mono hsub) store
    hhonours _ after hon
  have hwarranted : failure.Warranted _ source := (hresult _ rfl).1
  exact hwarranted.pairwise

/-- The result of a composed parser obeys every law. -/
theorem Law.of_ends {law : Source → Position → Result → Prop} (hlaw : Law law)
    (h : parser.Composed known) (hstore : store.HonoursMore known) {result : Result}
    (hends : parser.Ends source place store (.ok result) after) : law source place result := by
  obtain ⟨larger, hsub, hhonours⟩ := hstore
  obtain ⟨depth, hon⟩ := Parser.ends_iff_exists.mp hends
  exact hlaw.holds hhonours (h.mono hsub) hon

/-! ## Any place at all -/

namespace Position

variable {source : Source} {place stop : Position} {value : Value}

/-- A text that is matched ends in the source, counted from either end. -/
theorem index_add_length_le {literal : List Char} {index : Int}
    (h : source.standsAt literal index = true) :
    index + literal.length ≤ max index source.length := by
  unfold Source.standsAt at h
  simp only [Bool.and_eq_true, decide_eq_true_eq, List.isPrefixOf_iff_prefix] at h
  obtain ⟨hoffset, hprefix⟩ := h
  have hlength := hprefix.length_le
  rw [List.length_drop] at hlength
  split at hoffset
  · rw [if_pos ‹index < 0›] at hlength
    omega
  · rw [if_neg ‹¬ index < 0›] at hlength
    omega

/-- What a regular expression matches ends in the source, unless it starts behind it. -/
theorem index_add_length_le_of_matchAt? {regex : Regex} {index : Int} {found : List Char}
    (h : regex.matchAt? source index = some found) :
    index + found.length ≤ max index source.length := by
  have hlength := congrArg List.length (Regex.matchAt?_append h)
  unfold Regex.clamp at hlength
  simp only [List.length_append, List.length_drop] at hlength
  omega

/-- That a match neither goes back nor ends past both the start and the end of the source is a
law. -/
theorem law_advances : Law fun source place result => ∀ stop value,
    result = .matched stop value → place.index ≤ stop.index ∧
      stop.index ≤ max place.index source.length where
  text literal source place stop value h := by
    unfold Engine.textResult at h
    split at h
    · rename_i hstands
      cases h
      -- a text that stands there ends within the source
      have hle := index_add_length_le hstands
      rw [advance_index]
      omega
    · cases h
  pattern regex source place result h stop value hmatched := by
    subst hmatched
    unfold Engine.patternResult at h
    split at h
    · split at h
      · rename_i found hfound
        cases h
        have hle := index_add_length_le_of_matchAt? hfound
        rw [advance_index]
        omega
      · cases h
    · cases h
  fail _ _ _ := nofun
  eof source place stop value h := by
    unfold Engine.eofResult at h
    split at h
    · cases h
      omega
    · cases h
  stay _ _ _ _ _ h := by
    cases h
    omega
  revalue source place stop value value' h stop' _ hmatched := by
    cases hmatched
    exact h stop value rfl
  after source place stop value result hfirst hsecond stop' value' hmatched := by
    have hstart := hfirst stop value rfl
    have hrest := hsecond stop' value' hmatched
    omega
  merge _ _ _ _ _ _ := nofun
  relabel _ _ _ _ _ _ := nofun

end Position

/-- Wherever a composed parser is started, its match neither goes back nor ends past both the start
and the end of the source. -/
theorem Parser.Composed.advances (h : parser.Composed known) (hstore : store.HonoursMore known)
    {stop : Position} {value : Value}
    (hends : parser.Ends source place store (.ok (.matched stop value)) after) :
    place.index ≤ stop.index ∧ stop.index ≤ max place.index source.length :=
  Position.law_advances.of_ends h hstore hends stop value rfl

end Descent
