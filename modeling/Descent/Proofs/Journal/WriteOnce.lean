import Descent.Grammar.Build
import Descent.Proofs.Journal.Follows
import Descent.Proofs.Journal.Nesting
import Mathlib.Tactic.ByContra

/-! # Lazy parsers are written once, unless they are made within themselves

A lazy parser that holds a parser is never made again. But when it begins to hold one, calls of its
function may be in progress, for the function may run the very lazy parser that it is to make. Each
of these calls still ends, and if it ends with a parser, that takes the place of the one that the
inner call left.

* **`writeOnce_history_iff`** — main statement: what is kept of the promise in any case, and exactly
  when all of it is.
* **`writeOnce_history`** — if nothing returns while a call of the function is in progress, all of
  it is kept. -/

namespace Descent

variable {cell : CellId} {depth : Nat} {operations : List Operation} {store : Store}
  {first rest : List Entry} {entry : Entry} {parser : Parser}

/-- What is to be remembered of a lazy parser when `build` has returned: the parser, and the calls
of its function that are in progress. -/
theorem exists_tracks_of_returns
    (hsplit : history (Watch.upTo depth) operations store = first ++ entry :: rest)
    (hreturns : entry.Returns cell parser) :
    ∃ after, Tracks cell ⟨some parser, callsIn cell (first ++ [entry])⟩ rest after := by
  obtain ⟨after, htracks⟩ := tracks_history cell depth operations store
  -- read the journal up to this entry, this entry included
  rw [hsplit, ← List.singleton_append, ← List.append_assoc] at htracks
  obtain ⟨⟨kept, calls⟩, hfirst, hrest⟩ := htracks.exists_of_append
  have hcalls : calls = callsIn cell (first ++ [entry]) := hfirst.calls_eq rfl
  obtain ⟨before, -, hentry⟩ := hfirst.exists_of_append
  have hkept : kept = some parser := by
    cases hentry with
    | cons step next =>
      cases next
      exact step.kept_of_returns hreturns
  rw [← hkept, ← hcalls]
  exact ⟨after, hrest⟩

/-- Once `build` of a lazy parser has returned, the function of the lazy parser is not called
again. -/
theorem not_called_of_returns
    (hsplit : history (Watch.upTo depth) operations store = first ++ entry :: rest)
    (hreturns : entry.Returns cell parser) : .called cell ∉ rest := by
  obtain ⟨after, htracks⟩ := exists_tracks_of_returns hsplit hreturns
  exact htracks.not_called rfl

/-- Where a list is cut in two ways, and the second cut is not at an element after the first one,
the element at the first cut lies behind the second. -/
theorem mem_of_append_cons_eq {α : Type} {first rest before inner : List α} {a b : α}
    (h : first ++ a :: rest = before ++ b :: inner) (hne : a ≠ b) (hrest : b ∉ rest) :
    a ∈ inner := by
  rcases List.append_eq_append_iff.mp h with ⟨later, -, htail⟩ | ⟨within, -, htail⟩
  · cases later with
    | nil => exact absurd (List.cons.inj htail).1 hne
    | cons head tail =>
      rw [(List.cons.inj htail).2] at hrest
      exact absurd (List.mem_append_right _ List.mem_cons_self) hrest
  · cases within with
    | nil => exact absurd (List.cons.inj htail).1.symm hne
    | cons head tail =>
      rw [(List.cons.inj htail).2]
      exact List.mem_append_right _ List.mem_cons_self

/-- A parser that is made after `build` has returned is made by a call that was in progress then. -/
theorem exists_call_of_made
    (hsplit : history (Watch.upTo depth) operations store = first ++ entry :: rest)
    (hreturns : entry.Returns cell parser) {other : Parser} (hmade : .made cell other ∈ rest) :
    ∃ before inner after, history (Watch.upTo depth) operations store
        = before ++ .called cell :: (inner ++ .made cell other :: after) ∧
      Balanced cell inner ∧ entry ∈ inner := by
  obtain ⟨between, after, rfl⟩ := List.append_of_mem hmade
  have hnotcalled := not_called_of_returns hsplit hreturns
  -- the call that ends there has begun before
  obtain ⟨final, htracks⟩ := tracks_history cell depth operations store
  have hsplit' : history (Watch.upTo depth) operations store
      = (first ++ entry :: between) ++ .made cell other :: after := by
    rw [hsplit]
    simp
  rw [hsplit'] at htracks
  obtain ⟨middle, hprefix, hending⟩ := htracks.exists_of_append
  have hcalls : ∃ calls, middle.calls = calls + 1 := by
    cases hending with
    | cons step _ =>
      cases step with
      | made => exact ⟨_, rfl⟩
      | other hother => exact absurd rfl hother
  obtain ⟨calls, hcalls⟩ := hcalls
  obtain ⟨before, inner, heq, hinner⟩ := hprefix.exists_called (Nat.zero_le calls) hcalls
  refine ⟨before, inner, after, by rw [hsplit', heq]; simp, hinner, ?_⟩
  -- it has not begun since `build` returned, so it was in progress
  have hne : entry ≠ .called cell := by
    rintro rfl
    cases hreturns
  exact mem_of_append_cons_eq heq hne fun hcalled => hnotcalled (List.mem_append_left _ hcalled)

/-- Once `build` of a lazy parser has returned a parser, the function of the lazy parser is not
called again. It returns the same parser ever after if and only if no call of the function ends with
another parser than one that `build` has returned since that call began. -/
theorem writeOnce_history_iff (same : Parser → Parser → Prop) (cell : CellId) (depth : Nat)
    (operations : List Operation) (store : Store) :
    let journal := history (Watch.upTo depth) operations store
    (∀ first entry rest parser, journal = first ++ entry :: rest → entry.Returns cell parser →
      .called cell ∉ rest) ∧
      (WriteOnce same cell journal ↔ ¬ Overtaken same cell journal) := by
  intro journal
  refine ⟨fun first entry rest parser => not_called_of_returns, fun h => ?_, fun h => ?_⟩
  · rintro ⟨before, inner, after, parser, other, heq, -, ⟨entry, hentry, hreturns⟩, hne⟩
    -- what was returned during the call comes first, and what the call makes is returned later
    obtain ⟨first, rest, rfl⟩ := List.append_of_mem hentry
    have hsplit : journal
        = (before ++ .called cell :: first) ++ entry :: (rest ++ .made cell other :: after) := by
      rw [heq]
      simp
    obtain ⟨-, hmade, -⟩ := h _ _ _ parser hsplit hreturns
    exact hne (hmade other (List.mem_append_right _ List.mem_cons_self))
  · intro first entry rest parser hsplit hreturns
    have hmade : ∀ other, .made cell other ∈ rest → other = parser ∧ same other parser := by
      intro other hother
      by_contra hne
      obtain ⟨before, inner, after, heq, hinner, hentry⟩ :=
        exists_call_of_made hsplit hreturns hother
      exact h ⟨before, inner, after, parser, other, heq, hinner, ⟨entry, hentry, hreturns⟩, hne⟩
    obtain ⟨after, htracks⟩ := exists_tracks_of_returns hsplit hreturns
    have heq : ∀ other, .made cell other ∈ rest → other = parser :=
      fun other hother => (hmade other hother).1
    exact ⟨htracks.not_called rfl, hmade, fun other hother => htracks.eq_of_reused rfl heq hother⟩

/-- If `build` of a lazy parser returns only while no call of its function is in progress, the lazy
parser is written once. -/
theorem writeOnce_history (same : Parser → Parser → Prop)
    (hcalls : ∀ first entry rest parser,
      history (Watch.upTo depth) operations store = first ++ entry :: rest →
        entry.Returns cell parser → callsIn cell (first ++ [entry]) = 0) :
    WriteOnce same cell (history (Watch.upTo depth) operations store) := by
  intro first entry rest parser hsplit hreturns
  obtain ⟨after, htracks⟩ := exists_tracks_of_returns hsplit hreturns
  have hzero := hcalls first entry rest parser hsplit hreturns
  -- no call is left that could make another parser
  have hmade : ∀ other, .made cell other ∉ rest := by
    intro other hother
    have hpos : 0 < rest.countP (Entry.isMade cell) :=
      List.countP_pos_iff.mpr ⟨_, hother, decide_eq_true rfl⟩
    have hle : rest.countP (Entry.isMade cell) ≤ callsIn cell (first ++ [entry]) :=
      htracks.made_le rfl
    omega
  refine ⟨htracks.not_called rfl, fun other hother => absurd hother (hmade other),
    fun other hother => ?_⟩
  exact htracks.eq_of_reused rfl (fun other hother => absurd hother (hmade other)) hother

/-! ## A rule that runs itself while it is made -/

/-- A rule that runs itself on a source the first time that it is asked for its parser, and then
makes another parser than the second time. -/
def selfRunning : Grammar :=
  .nth 0 [.runNow "r" "b" (.text (.const (.str "a"))), .text (.const (.str "b"))]

/-- A store with a language of that rule. -/
def selfRunningStore : Store :=
  { Store.initial false with
    instances := #[⟨Store.base, [], some [("r", ⟨0, 0⟩)],
      #[.unbuilt "r" (.mk (selfRunning.build ⟨⟨0, []⟩, []⟩))]⟩] }

/-- What happens when the rule is run: the parser that the inner call makes and returns gives way to
that of the outer one. -/
theorem history_selfRunning :
    history (Watch.upTo 6) [.run (.lazy ⟨0, 0⟩) ['a'] .start] selfRunningStore
      = [.called ⟨0, 0⟩, .called ⟨0, 0⟩, .made ⟨0, 0⟩ (.text "b"), .made ⟨0, 0⟩ (.text "a")] := rfl

/-- Not every lazy parser is written once, even if parsers that are put together in the same way
count as the same. -/
theorem not_forall_writeOnce_history :
    ¬ ∀ (cell : CellId) (depth : Nat) (operations : List Operation) (store : Store),
      WriteOnce (fun _ _ => True) cell (history (Watch.upTo depth) operations store) := by
  intro h
  have honce := h ⟨0, 0⟩ 6 [.run (.lazy ⟨0, 0⟩) ['a'] .start] selfRunningStore
  rw [history_selfRunning] at honce
  obtain ⟨-, hmade, -⟩ := honce [.called ⟨0, 0⟩, .called ⟨0, 0⟩] _ _ _ rfl .made
  obtain ⟨heq, -⟩ := hmade (.text "a") List.mem_cons_self
  exact absurd (Parser.text.inj heq) (by decide)

end Descent
