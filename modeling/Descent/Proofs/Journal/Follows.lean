import Descent.Proofs.Journal.Erases
import Descent.Proofs.Journal.Tracks
import Descent.Proofs.Store.Opens

/-! # Journals tell what happens

* **`Watch.Follows`** — what the journal of a computation says a lazy parser holds is what the store
  says that it holds.
* **`Watch.related_follows`** — main statement: so it is with watched engines.
* **`tracks_history`** — and so it is with operations one after another. -/

namespace Descent

namespace Watch

/-! ## Computations -/

/-- The journal of what was done in a store says of a lazy parser what the stores say of it. The
calls of its function that were in progress are in progress still. -/
def Told (cell : CellId) (store : Store) (calls : Nat) {α : Type} :
    Option (Except Raised α × Store) × List Entry → Prop
  | (none, journal) => ∃ standing, Tracks cell ⟨store.stored cell, calls⟩ journal standing
  | (some (_, after), journal) =>
      ((store.cell? cell).isSome → (after.cell? cell).isSome) ∧
        Tracks cell ⟨store.stored cell, calls⟩ journal ⟨after.stored cell, calls⟩

/-- The journal of a computation says of a lazy parser what the stores say of it. -/
def Follows (cell : CellId) {α : Type} (watched : Watch α) : Prop :=
  ∀ store calls, Told cell store calls (watched.on store)

variable {cell : CellId} {α β : Type}

/-- In a computation that gives no answer at once, nothing happens. -/
theorem Follows.diverge : (quiet Eval.diverge : Watch α).Follows cell :=
  fun _ _ => ⟨_, .nil _⟩

theorem Follows.pure (result : α) : (Pure.pure result : Watch α).Follows cell :=
  fun _ _ => ⟨fun hsome => hsome, .nil _⟩

/-- What an engine does by itself leaves every lazy parser as it is. -/
theorem Follows.basic {computation : Eval α} (h : computation.Basic) :
    (liftM computation : Watch α).Follows cell := by
  intro store calls
  rw [quiet_on]
  cases hon : computation.on store with
  | none => exact ⟨_, .nil _⟩
  | some outcome =>
    obtain ⟨ended, after⟩ := outcome
    have hopens := h.opens hon
    refine ⟨hopens.isSome_cell?, ?_⟩
    rw [hopens.stored cell]
    exact .nil _

theorem Follows.bind {first : Watch α} {next : α → Watch β} (h : first.Follows cell)
    (hnext : ∀ result, (next result).Follows cell) : (first >>= next).Follows cell := by
  intro store calls
  have hfirst := h store calls
  rw [bind_on]
  generalize first.on store = done at hfirst ⊢
  rcases done with ⟨_ | ⟨cause | result, middle⟩, journal⟩
  · exact hfirst
  · exact hfirst
  · obtain ⟨hsome, htracks⟩ := hfirst
    have hsecond := hnext result middle calls
    -- the journals follow one another, whether the second comes to an end or not
    show Told cell store calls
      (((next result).on middle).1, journal ++ ((next result).on middle).2)
    generalize (next result).on middle = done at hsecond ⊢
    rcases done with ⟨_ | ⟨ended, after⟩, rest⟩
    · obtain ⟨standing, hrest⟩ := hsecond
      exact ⟨standing, htracks.append hrest⟩
    · obtain ⟨hsome', hrest⟩ := hsecond
      exact ⟨fun hthere => hsome' (hsome hthere), htracks.append hrest⟩

/-- Putting computations together keeps this up. -/
theorem compatible_follows :
    Engine.Compatible fun α (watched _ : Watch α) => watched.Follows cell where
  pure := .pure
  basic := .basic
  bind := .bind

/-! ## Lazy parsers -/

/-- One call more if it is of the function of the lazy parser that is looked at. -/
def callsOf (cell id : CellId) (calls : Nat) : Nat := if id = cell then calls + 1 else calls

/-- When a lazy parser that holds nothing begins to be made, its function is called. -/
theorem step_called (cell : CellId) {store : Store} {id : CellId}
    (hunmade : store.stored id = none) (calls : Nat) :
    Standing.Step cell ⟨store.stored cell, calls⟩ (.called id)
      ⟨store.stored cell, callsOf cell id calls⟩ := by
  by_cases hid : id = cell
  · rw [callsOf, if_pos hid, ← hid, hunmade]
    exact .called
  · rw [callsOf, if_neg hid]
    exact .other hid

/-- When the function of a lazy parser has ended, its parser is put in place, or else nothing. -/
theorem tracks_ending {store : Store} {id : CellId} (hthere : id = cell → (store.cell? id).isSome)
    (name : String) (ended : Except Raised (Object Parser)) (calls : Nat) :
    Tracks cell ⟨store.stored cell, callsOf cell id calls⟩ (ending id (some (ended, store)))
      ⟨(Engine.settle id name (ended, store)).2.stored cell, calls⟩ := by
  by_cases hparser : ∃ p, ended = .ok (.parser p)
  · obtain ⟨p, rfl⟩ := hparser
    rw [Engine.settle_made, Store.stored_log]
    by_cases hid : id = cell
    · subst hid
      rw [callsOf, if_pos rfl, Store.stored_setParser (hthere rfl)]
      exact .single (.made p)
    · rw [callsOf, if_neg hid, Store.stored_setParser_of_ne hid]
      exact .single (.other hid)
  -- without a parser the call has failed, and every lazy parser holds what it held
  · have hending : ending id (some (ended, store)) = [.failed id] := by
      rcases ended with cause | object
      · rfl
      · cases object with
        | parser p => exact absurd ⟨p, rfl⟩ hparser
        | value | table | other => rfl
    obtain ⟨cause, hsettle⟩ := Engine.settle_of_ne id name (not_exists.mp hparser) store
    rw [hending, hsettle, Store.stored_setState]
    by_cases hid : id = cell
    · rw [callsOf, if_pos hid, hid]
      exact .single .failed
    · rw [callsOf, if_neg hid]
      exact .single (.other hid)

/-- What is told of the function of a lazy parser, between its beginning and its end, makes what is
told of making the lazy parser. -/
theorem Told.assembled {store started : Store} {id : CellId} {calls : Nat}
    {done : Option (Except Raised (Object Parser) × Store) × List Entry} (name : String)
    (hcell : store.stored id = none) (hthere : (store.cell? id).isSome)
    (hsome : (store.cell? cell).isSome → (started.cell? cell).isSome)
    (hkept : started.stored cell = store.stored cell)
    (h : Told cell started (callsOf cell id calls) done) :
    Told cell store calls
      (done.1.map (Engine.settle id name), .called id :: (done.2 ++ ending id done.1)) := by
  have hcalled := step_called cell hcell calls
  rw [← hkept] at hcalled
  rcases done with ⟨_ | ⟨ended, after⟩, journal⟩
  · obtain ⟨standing, hjournal⟩ := h
    rw [hkept] at hcalled hjournal
    refine ⟨standing, .cons hcalled ?_⟩
    rw [ending, List.append_nil]
    exact hjournal
  · obtain ⟨hstill, hjournal⟩ := h
    have hthere' : id = cell → (after.cell? id).isSome := by
      intro heq
      rw [heq] at hthere ⊢
      exact hstill (hsome hthere)
    have hending := tracks_ending hthere' name ended calls
    refine ⟨fun hin => Store.isSome_cell?_settle id name ended (hstill (hsome hin)), ?_⟩
    rw [hkept] at hcalled hjournal
    exact .cons hcalled (hjournal.append hending)

/-- The journal of making a lazy parser says of every lazy parser what the stores say. -/
theorem follows_assemble {engine : Engine Watch}
    (h : ∀ action : Action (Object Parser), (engine.perform action).Follows cell) (id : CellId) :
    (assemble engine id).Follows cell := by
  intro store calls
  cases hid : store.cell? id with
  | none =>
    rw [assemble_of_none hid]
    exact ⟨_, .nil _⟩
  | some found =>
    have hstored := Store.stored_of_cell? hid
    have hthere := Option.isSome_of_eq_some hid
    obtain ⟨name, state, make, _ | parser⟩ := found
    · rw [assemble_of_unmade hid]
      -- marking the lazy parser and logging that leaves all parsers in place
      refine .assembled name hstored hthere (fun hin => ?_) ?_ (h make.action _ _)
      · rw [Store.setState, Store.isSome_cell?_modifyCell]
        exact (Store.opens_log _ _).isSome_cell? hin
      · rw [Store.stored_setState, Store.stored_log]
    · rw [assemble_of_made hid]
      refine ⟨fun hin => hin, .single ?_⟩
      by_cases heq : id = cell
      · rw [← heq, hstored]
        exact .reused
      · exact .other heq

/-! ## Engines and operations -/

/-- The journals of watched engines say of every lazy parser what the stores say. -/
theorem related_follows (cell : CellId) (depth : Nat) :
    Engine.Related (fun _ (watched _ : Watch _) => watched.Follows cell) (upTo depth)
      (upTo depth) := by
  induction depth with
  | zero => exact ⟨fun _ _ _ => .diverge, fun _ => .diverge⟩
  | succ depth ih =>
    exact ⟨ih.step compatible_follows, follows_assemble (ih.perform compatible_follows)⟩

end Watch

/-- A history says of a lazy parser what the stores say. -/
theorem tracks_history (cell : CellId) (depth : Nat) (operations : List Operation) (store : Store) :
    ∃ standing, Tracks cell ⟨store.stored cell, 0⟩
      (history (Watch.upTo depth) operations store) standing := by
  induction operations generalizing store with
  | nil => exact ⟨_, .nil _⟩
  | cons operation rest ih =>
    have hdone := operation.related Watch.compatible_follows (Watch.related_follows cell depth)
      store 0
    unfold history
    generalize (operation.apply (Watch.upTo depth)).on store = done at hdone ⊢
    rcases done with ⟨_ | ⟨ended, after⟩, journal⟩
    · exact hdone
    · -- whether it ended with a result or with an error, the next operation goes on from there
      obtain ⟨standing, hrest⟩ := ih after
      exact ⟨standing, hdone.2.append hrest⟩

end Descent
