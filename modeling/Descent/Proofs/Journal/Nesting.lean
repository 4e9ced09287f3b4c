import Descent.Proofs.Journal.Tracks

/-! # Calls within calls

The calls of a lazy parser's function are nested: the one that began last ends first.

* **`Balanced`** — a journal in which the calls that begin are the calls that end, so that the
  entries around it can be the beginning and the end of one call.
* **`Tracks.exists_called`** — main statement: a call that is in progress has begun somewhere, and
  all that has begun since is over, but for the calls within it that are in progress too.
* **`Overtaken`** — a call makes another parser than one that was returned while it was in
  progress. -/

namespace Descent

/-- In a journal, the calls of the function of a lazy parser that begin are those that end. -/
structure Balanced (cell : CellId) (journal : List Entry) : Prop where
  /-- As many end as begin. -/
  eq : journal.countP (Entry.isEnd cell) = journal.countP (Entry.isCall cell)
  /-- At no time have more ended than begun. -/
  le : ∀ length, (journal.take length).countP (Entry.isEnd cell)
    ≤ (journal.take length).countP (Entry.isCall cell)

/-- A call of the function of a lazy parser ends with another parser than one that `build` has
returned since that call began. -/
def Overtaken (same : Parser → Parser → Prop) (cell : CellId) (journal : List Entry) : Prop :=
  ∃ before inner after parser other,
    journal = before ++ .called cell :: (inner ++ .made cell other :: after) ∧
      Balanced cell inner ∧ (∃ entry ∈ inner, entry.Returns cell parser) ∧
      ¬ (other = parser ∧ same other parser)

namespace Balanced

variable {cell : CellId} {first second : List Entry} {entry : Entry}

theorem nil (cell : CellId) : Balanced cell [] := ⟨rfl, fun _ => by simp⟩

theorem append (h : Balanced cell first) (h' : Balanced cell second) :
    Balanced cell (first ++ second) := by
  refine ⟨?_, fun length => ?_⟩
  · rw [List.countP_append, List.countP_append, h.eq, h'.eq]
  · have hfirst := h.le length
    have hsecond := h'.le (length - first.length)
    rw [List.take_append, List.countP_append, List.countP_append]
    omega

/-- An entry that neither begins nor ends a call. -/
theorem single (hcall : entry.isCall cell = false) (hend : entry.isEnd cell = false) :
    Balanced cell [entry] := by
  refine ⟨by simp [hcall, hend], fun length => ?_⟩
  cases length with
  | zero => exact Nat.le_refl 0
  | succ length => simp [hcall, hend]

/-- A call from its beginning to its end. -/
theorem call (h : Balanced cell first) (hcall : entry.isCall cell = false)
    (hend : entry.isEnd cell = true) : Balanced cell (.called cell :: (first ++ [entry])) := by
  have hbegun : (Entry.called cell).isCall cell = true := decide_eq_true rfl
  have hnotended : (Entry.called cell).isEnd cell = false := rfl
  refine ⟨?_, fun length => ?_⟩
  · have heq := h.eq
    simp only [List.countP_cons, List.countP_append, List.countP_nil, hbegun, hnotended, hcall,
      hend, if_true, Bool.false_eq_true, if_false]
    omega
  · cases length with
    | zero => exact Nat.le_refl 0
    | succ length =>
      have hle := h.le length
      -- at most one call more has ended, and one more has begun
      have hlast : ([entry].take (length - first.length)).countP (Entry.isEnd cell) ≤ 1 :=
        Nat.le_trans List.countP_le_length (List.length_take_le' _ _)
      simp only [List.take_succ_cons, List.take_append, List.countP_cons, List.countP_append,
        hbegun, hnotended, if_true, Bool.false_eq_true, if_false]
      omega

end Balanced

namespace Tracks

variable {cell : CellId} {before after : Standing} {journal : List Entry}

/-- Before a call began, one call less was in progress than while it is. -/
theorem exists_before_call {first inner : List Entry}
    (h : Tracks cell before (first ++ .called cell :: inner) after) (hinner : Balanced cell inner) :
    ∃ outer, Tracks cell before first outer ∧ after.calls = outer.calls + 1 := by
  obtain ⟨outer, hfirst, hrest⟩ := h.exists_of_append
  have hadd := hrest.calls_add
  have heq := hinner.eq
  have hbegun : (Entry.called cell).isCall cell = true := decide_eq_true rfl
  have hnotended : (Entry.called cell).isEnd cell = false := rfl
  simp only [List.countP_cons, hbegun, hnotended, if_true, Bool.false_eq_true, if_false] at hadd
  exact ⟨outer, hfirst, by omega⟩

/-- Where so many calls of the function of a lazy parser are in progress, the last but so many of
them has begun, and what has begun since is over. -/
theorem exists_called {calls : Nat} (h : Tracks cell before journal after)
    (hbefore : before.calls ≤ calls) (hafter : after.calls = calls + 1) :
    ∃ first inner, journal = first ++ .called cell :: inner ∧ Balanced cell inner := by
  -- by the last entry: the end of a call is passed over together with all of that call
  induction hlength : journal.length using Nat.strongRecOn generalizing journal after calls with
  | ind length ih =>
    rcases List.eq_nil_or_concat journal with rfl | ⟨init, entry, rfl⟩
    · cases h
      omega
    · rw [List.concat_eq_append] at h hlength ⊢
      rw [List.length_append, List.length_singleton] at hlength
      obtain ⟨middle, hinit, hentry⟩ := h.exists_of_append
      have hstep : Standing.Step cell middle entry after := by
        cases hentry with
        | cons step next =>
          cases next
          exact step
      have hcalls := hstep.calls_add
      by_cases hcall : entry.isCall cell = true
      · cases entry with
        | called other =>
          have heq : other = cell := of_decide_eq_true hcall
          exact ⟨init, [], by rw [heq], .nil cell⟩
        | made | failed | reused => cases hcall
      · rw [Bool.not_eq_true] at hcall
        by_cases hend : entry.isEnd cell = true
        · -- the call that ends here began after the one that is looked for
          simp only [hcall, hend, if_true, Bool.false_eq_true, if_false] at hcalls
          obtain ⟨first, inner, rfl, hinner⟩ :=
            ih init.length (by omega) hinit (Nat.le_succ_of_le hbefore) (by omega) rfl
          obtain ⟨outer, hfirst, houter⟩ := hinit.exists_before_call hinner
          rw [List.length_append] at hlength
          obtain ⟨first', inner', rfl, hinner'⟩ :=
            ih first.length (by omega) hfirst hbefore (by omega) rfl
          refine ⟨first', inner' ++ .called cell :: (inner ++ [entry]), by simp, ?_⟩
          exact hinner'.append (hinner.call hcall hend)
        · rw [Bool.not_eq_true] at hend
          simp only [hcall, hend, Bool.false_eq_true, if_false] at hcalls
          obtain ⟨first, inner, rfl, hinner⟩ :=
            ih init.length (by omega) hinit hbefore (by omega) rfl
          exact ⟨first, inner ++ [entry], by simp, hinner.append (.single hcall hend)⟩

end Tracks

end Descent
