import Descent.Proofs.Film
import Descent.Proofs.Journal.Erases

/-! # Making a film changes nothing

* **`Film.Erases`** — without its scenes, a film is a given computation.
* **`Film.related_upTo`** — main statement: engines that make films are the engines with scenes
  besides.
* **`Film.fst_run_on`**, **`Deed.fst_apply_on`** — so a film shows what really happens. -/

namespace Descent

/-- A film does what a computation does. -/
def Film.Erases {α : Type} (film : Film α) (plain : Eval α) : Prop :=
  ∀ store, (film.on store).1 = plain.on store

namespace Film

/-- Putting computations together keeps this up. -/
theorem compatible_erases : Engine.Compatible (fun α => Erases (α := α)) where
  pure _ _ := rfl
  basic _ _ := rfl
  bind {α β first first' next next'} h hnext := by
    intro store
    rw [bind_on, Eval.bind_on, ← h store]
    rcases first.on store with ⟨_ | ⟨cause | result, after⟩, scenes⟩
    · rfl
    · rfl
    · exact hnext result after

/-- Lazy parsers are made as they are without a film. -/
theorem erases_assemble {engine : Engine Film} {plain : Engine Eval}
    (h : Engine.Related (fun _ => Erases) engine plain) (cell : CellId) :
    (assemble engine cell).Erases (plain.assemble cell) := by
  intro store
  cases hcell : store.cell? cell with
  | none => rw [assemble_of_none hcell, Engine.assemble_of_none hcell]
  | some found =>
    obtain ⟨name, state, make, _ | parser⟩ := found
    · have hmade := h.perform compatible_erases make.action
      rw [assemble_of_unmade hcell, Engine.assemble_of_unmade hcell, ← hmade]
    · rw [assemble_of_made hcell, Engine.assemble_of_made hcell]

/-- Engines that make films are the engines with scenes besides. -/
theorem related_upTo (depth : Nat) :
    Engine.Related (fun _ => Erases) (upTo depth) (Engine.upTo depth) := by
  induction depth with
  | zero => exact ⟨fun _ _ _ _ => rfl, fun _ _ => rfl⟩
  | succ depth ih => exact ⟨ih.step compatible_erases, erases_assemble ih⟩

/-- What a parser ends with does not depend on whether a film is made. -/
theorem fst_run_on (depth : Nat) (parser : Parser) (source : Source) (place : Position)
    (store : Store) :
    (((upTo depth).run parser source place).on store).1
      = ((Engine.upTo depth).run parser source place).on store :=
  (related_upTo depth).run parser source place store

end Film

/-- What a deed ends with does not depend on whether a film is made. -/
theorem Deed.fst_apply_on (deed : Deed) (depth : Nat) (store : Store) :
    ((deed.apply (Film.upTo depth)).on store).1 = (deed.apply (Engine.upTo depth)).on store := by
  cases deed with
  | operate operation =>
    exact operation.related Film.compatible_erases (Film.related_upTo depth) store
  | shelve | defineClass => rfl

end Descent
