import Descent.Engine.Related
import Descent.Proofs.Journal

/-! # Keeping a journal changes nothing

* **`Watch.Erases`** — without its journal, a watched computation is a given computation.
* **`Watch.related_upTo`** — main statement: watched engines are the engines with a journal besides.
* **`Operation.fst_apply_on`** — so a history is the history of what really happens. -/

namespace Descent

/-- A watched computation does what a computation does. -/
def Watch.Erases {α : Type} (watched : Watch α) (plain : Eval α) : Prop :=
  ∀ store, (watched.on store).1 = plain.on store

namespace Watch

/-- Putting computations together keeps this up. -/
theorem compatible_erases : Engine.Compatible (fun α => Erases (α := α)) where
  pure _ _ := rfl
  basic _ _ := rfl
  bind {α β first first' next next'} h hnext := by
    intro store
    rw [bind_on, Eval.bind_on, ← h store]
    rcases first.on store with ⟨_ | ⟨cause | result, after⟩, journal⟩
    · rfl
    · rfl
    · exact hnext result after

/-- Watched engines make lazy parsers as engines do. -/
theorem erases_assemble {watched : Engine Watch} {plain : Engine Eval}
    (h : Engine.Related (fun _ => Erases) watched plain) (cell : CellId) :
    (assemble watched cell).Erases (plain.assemble cell) := by
  intro store
  cases hcell : store.cell? cell with
  | none => rw [assemble_of_none hcell, Engine.assemble_of_none hcell]
  | some found =>
    obtain ⟨name, state, make, _ | parser⟩ := found
    · have hmade := h.perform compatible_erases make.action
      rw [assemble_of_unmade hcell, Engine.assemble_of_unmade hcell, ← hmade]
    · rw [assemble_of_made hcell, Engine.assemble_of_made hcell]

/-- Watched engines are the engines with a journal besides. -/
theorem related_upTo (depth : Nat) :
    Engine.Related (fun _ => Erases) (upTo depth) (Engine.upTo depth) := by
  induction depth with
  | zero => exact ⟨fun _ _ _ _ => rfl, fun _ _ => rfl⟩
  | succ depth ih => exact ⟨ih.step compatible_erases, erases_assemble ih⟩

end Watch

section Operations

variable {m n : Type → Type} [Monad m] [MonadLiftT Eval m] [Monad n] [MonadLiftT Eval n]
  {R : (α : Type) → m α → n α → Prop} {first : Engine m} {second : Engine n}

/-- Operations of related engines are related. -/
theorem Operation.related (hR : Engine.Compatible R) (h : Engine.Related R first second)
    (operation : Operation) : R Unit (operation.apply first) (operation.apply second) := by
  cases operation with
  | run parser source start => exact hR.bind (h.run parser source start) fun _ => hR.pure ()
  | parse root source => exact hR.bind (h.parse hR root source) fun _ => hR.pure ()
  | tryParse root source => exact hR.bind (h.tryParse hR root source) fun _ => hR.pure ()
  | build cell => exact hR.bind (h.build cell) fun _ => hR.pure ()
  | perform action => exact hR.bind (h.perform hR action) fun _ => hR.pure ()

end Operations

/-- What an operation ends with does not depend on whether it is watched. -/
theorem Operation.fst_apply_on (operation : Operation) (depth : Nat) (store : Store) :
    ((operation.apply (Watch.upTo depth)).on store).1
      = (operation.apply (Engine.upTo depth)).on store :=
  operation.related Watch.compatible_erases (Watch.related_upTo depth) store

end Descent
