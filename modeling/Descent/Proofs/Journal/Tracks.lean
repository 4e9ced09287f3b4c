import Descent.Proofs.Journal

/-! # What a journal says of a lazy parser

A journal is read from its beginning, with two things to be remembered of a lazy parser: the parser
that it holds and how many calls of its function are in progress. A call can only begin while the
lazy parser holds nothing. But any call that is in progress can end, and puts its parser in the
place of the one that is there.

* **`Standing.Step`** — what an entry may be, and what is to be remembered after it.
* **`Tracks`** — what a whole journal may be.
* **`Tracks.not_called`**, **`Tracks.made_le`**, **`Tracks.eq_of_reused`** — once the lazy parser
  holds a parser, its function is not called again, no more parsers are made than there are calls in
  progress, and until then the one that it holds is returned. -/

namespace Descent

/-- What is to be remembered of a lazy parser. -/
structure Standing where
  /-- The parser that it holds. -/
  kept : Option Parser
  /-- How many calls of its function are in progress. -/
  calls : Nat

/-- What an entry may be, and what is to be remembered of a lazy parser after it. -/
inductive Standing.Step (cell : CellId) : Standing → Entry → Standing → Prop where
  /-- The function is called only if nothing is held. -/
  | called {calls : Nat} : Step cell ⟨none, calls⟩ (.called cell) ⟨none, calls + 1⟩
  /-- A call that ends with a parser puts it in place of whatever is held. -/
  | made {kept : Option Parser} {calls : Nat} (parser : Parser) :
      Step cell ⟨kept, calls + 1⟩ (.made cell parser) ⟨some parser, calls⟩
  /-- A call may end without a parser. -/
  | failed {kept : Option Parser} {calls : Nat} :
      Step cell ⟨kept, calls + 1⟩ (.failed cell) ⟨kept, calls⟩
  /-- What is returned without a call is what is held. -/
  | reused {parser : Parser} {calls : Nat} :
      Step cell ⟨some parser, calls⟩ (.reused cell parser) ⟨some parser, calls⟩
  /-- Other lazy parsers do not matter. -/
  | other {standing : Standing} {entry : Entry} (h : entry.cell ≠ cell) :
      Step cell standing entry standing

namespace Standing.Step

variable {cell : CellId} {before after : Standing} {entry : Entry} {parser : Parser}

/-- After a parser was returned, it is held. -/
theorem kept_of_returns (h : Step cell before entry after)
    (hreturns : entry.Returns cell parser) : after.kept = some parser := by
  cases hreturns with
  | made =>
    cases h with
    | made => rfl
    | other hother => exact absurd rfl hother
  | reused =>
    cases h with
    | reused => rfl
    | other hother => exact absurd rfl hother

/-- A lazy parser that holds a parser goes on to hold one. -/
theorem kept_isSome (h : Step cell before entry after) (hkept : before.kept.isSome) :
    after.kept.isSome := by
  cases h with
  | called => exact hkept
  | made => rfl
  | failed => exact hkept
  | reused => exact hkept
  | other => exact hkept

/-- A call that begins or ends is counted. -/
theorem calls_add (h : Step cell before entry after) :
    before.calls + (if entry.isCall cell then 1 else 0)
      = after.calls + (if entry.isEnd cell then 1 else 0) := by
  cases h with
  | called | made | failed | reused => simp [Entry.isCall, Entry.isEnd]
  | other hother =>
    have hcall : entry.isCall cell = false := by
      cases entry with
      | called other => exact decide_eq_false hother
      | made | failed | reused => rfl
    have hend : entry.isEnd cell = false := by
      cases entry with
      | made other | failed other => exact decide_eq_false hother
      | called | reused => rfl
    rw [hcall, hend]

end Standing.Step

/-- What a journal may be, and what is to be remembered of a lazy parser after it. -/
inductive Tracks (cell : CellId) : Standing → List Entry → Standing → Prop where
  /-- Nothing happens. -/
  | nil (standing : Standing) : Tracks cell standing [] standing
  /-- One thing happens, then others. -/
  | cons {before middle after : Standing} {entry : Entry} {rest : List Entry}
      (step : Standing.Step cell before entry middle) (next : Tracks cell middle rest after) :
      Tracks cell before (entry :: rest) after

namespace Tracks

variable {cell : CellId} {before middle after : Standing} {first second journal : List Entry}
  {entry : Entry} {parser : Parser}

/-- One thing happens. -/
theorem single (h : Standing.Step cell before entry after) : Tracks cell before [entry] after :=
  .cons h (.nil after)

/-- One journal after another. -/
theorem append (h : Tracks cell before first middle) (h' : Tracks cell middle second after) :
    Tracks cell before (first ++ second) after := by
  induction h with
  | nil => exact h'
  | cons step _ ih => exact .cons step (ih h')

/-- A journal can be stopped anywhere. -/
theorem exists_of_append (h : Tracks cell before (first ++ second) after) :
    ∃ middle, Tracks cell before first middle ∧ Tracks cell middle second after := by
  induction first generalizing before with
  | nil => exact ⟨before, .nil before, h⟩
  | cons entry rest ih =>
    cases h with
    | cons step next =>
      obtain ⟨middle, hrest, hsecond⟩ := ih next
      exact ⟨middle, .cons step hrest, hsecond⟩

/-- The calls in progress are those that have begun and not ended. -/
theorem calls_add (h : Tracks cell before journal after) :
    before.calls + journal.countP (Entry.isCall cell)
      = after.calls + journal.countP (Entry.isEnd cell) := by
  induction h with
  | nil => rfl
  | cons step _ ih =>
    have hstep := step.calls_add
    rw [List.countP_cons, List.countP_cons]
    omega

/-- The calls in progress after a journal that began with none. -/
theorem calls_eq (h : Tracks cell before journal after) (hcalls : before.calls = 0) :
    after.calls = callsIn cell journal := by
  have hadd := h.calls_add
  unfold callsIn
  omega

/-- While a lazy parser holds a parser, its function is not called. -/
theorem not_called (h : Tracks cell before journal after) (hkept : before.kept.isSome) :
    .called cell ∉ journal := by
  induction h with
  | nil => exact List.not_mem_nil
  | cons step _ ih =>
    have hlater := ih (step.kept_isSome hkept)
    rintro (_ | ⟨_, hmem⟩)
    · -- this very entry cannot be a call
      cases step with
      | called => cases hkept
      | other hother => exact hother rfl
    · exact hlater hmem

/-- A parser that is made is the end of a call. -/
theorem countP_isMade_le (cell : CellId) (journal : List Entry) :
    journal.countP (Entry.isMade cell) ≤ journal.countP (Entry.isEnd cell) := by
  refine List.countP_mono_left fun entry _ hmade => ?_
  cases entry with
  | made => exact hmade
  | called | failed | reused => cases hmade

/-- While a lazy parser holds a parser, no more are made than there are calls in progress. -/
theorem made_le (h : Tracks cell before journal after) (hkept : before.kept.isSome) :
    journal.countP (Entry.isMade cell) ≤ before.calls := by
  have hnone : journal.countP (Entry.isCall cell) = 0 := by
    rw [List.countP_eq_zero]
    intro entry hmem hcall
    cases entry with
    | called other =>
      have heq : other = cell := by simpa [Entry.isCall] using hcall
      rw [heq] at hmem
      exact h.not_called hkept hmem
    | made | failed | reused => cases hcall
  have hadd := h.calls_add
  have hle := countP_isMade_le cell journal
  omega

/-- As long as no other parser is made, what is returned without a call is what was held. -/
theorem eq_of_reused (h : Tracks cell before journal after) (hkept : before.kept = some parser)
    (hmade : ∀ other, .made cell other ∈ journal → other = parser) {other : Parser}
    (hmem : .reused cell other ∈ journal) : other = parser := by
  induction h with
  | nil => cases hmem
  | cons step next ih =>
    rcases List.mem_cons.mp hmem with rfl | hmem
    · cases step with
      | reused => exact Option.some.inj hkept
      | other hother => exact absurd rfl hother
    · refine ih ?_ (fun other hother => hmade other (List.mem_cons_of_mem _ hother)) hmem
      -- the parser that is held can only be replaced by itself
      cases step with
      | called => cases hkept
      | made made => exact congrArg some (hmade made List.mem_cons_self)
      | failed => exact hkept
      | reused => exact hkept
      | other => exact hkept

end Tracks

end Descent
