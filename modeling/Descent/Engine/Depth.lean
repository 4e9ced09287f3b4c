import Descent.Engine.Related

/-! # Depth

An engine that may go deeper gives the answers of a shallower one, and perhaps more.

* **`Eval.Below`** — a computation whose answers another computation gives as well.
* **`Engine.Below`** — an engine whose answers another engine gives as well.
* **`Engine.below_upTo`** — main statement: the engines are ordered by their depth. So a parser has
  at most one outcome, whatever the depth at which it is looked for (`Engine.outcome_unique`). -/

namespace Descent

/-- Every answer of one computation is an answer of another. -/
def Eval.Below {α : Type} (first second : Eval α) : Prop :=
  ∀ store ended, first.on store = some ended → second.on store = some ended

namespace Eval.Below

variable {α β : Type}

/-- Every computation is below itself. -/
theorem refl (first : Eval α) : first.Below first := fun _ _ h => h

/-- What gives no answers is below everything. -/
theorem diverge (second : Eval α) : Eval.diverge.Below second := fun _ _ h => by simp at h

/-- Computations that are below others, one after another. -/
theorem bind {first first' : Eval α} {next next' : α → Eval β} (h : first.Below first')
    (hnext : ∀ result, (next result).Below (next' result)) :
    (first >>= next).Below (first' >>= next') := by
  intro store ended heq
  rw [Eval.bind_on] at heq
  rw [Eval.bind_on]
  cases hfirst : first.on store with
  | none => simp [hfirst] at heq
  | some outcome =>
    rw [h store outcome hfirst]
    rw [hfirst] at heq
    obtain ⟨result | result, after⟩ := outcome
    · exact heq
    · exact hnext result after ended heq

end Eval.Below

namespace Engine

/-- Being below can be kept up from one computation to the next. -/
theorem compatible_below : Compatible (fun α => Eval.Below (α := α)) where
  pure _ := .refl _
  basic _ := .refl _
  bind h hnext := .bind h hnext

/-- Every answer of one engine is an answer of another. -/
abbrev Below (first second : Engine Eval) : Prop := Related (fun _ => Eval.Below) first second

variable {first second : Engine Eval}

/-- Scripts go as far with the better engine. -/
theorem perform_below (h : first.Below second) {α : Type} (action : Action α) :
    (first.perform action).Below (second.perform action) := h.perform compatible_below action

/-- Parsers get as far with the better engine. -/
theorem step_below (h : first.Below second) (parser : Parser) (source : Source)
    (place : Position) :
    (first.step parser source place).Below (second.step parser source place) :=
  h.step compatible_below parser source place

/-- Lazy parsers are made as far with the better engine. -/
theorem assemble_below (h : first.Below second) (cell : CellId) :
    (first.assemble cell).Below (second.assemble cell) := by
  intro store ended heq
  cases hcell : store.cell? cell with
  | none =>
    rw [assemble_of_none hcell] at heq
    cases heq
  | some found =>
    obtain ⟨name, state, make, _ | parser⟩ := found
    · rw [assemble_of_unmade hcell, Option.map_eq_some_iff] at heq
      obtain ⟨outcome, hperform, rfl⟩ := heq
      rw [assemble_of_unmade hcell, perform_below h _ _ _ hperform]
      rfl
    · rw [assemble_of_made hcell] at heq ⊢
      exact heq

/-- One level more gives all the answers. -/
theorem below_succ (depth : Nat) : (upTo depth).Below (upTo (depth + 1)) := by
  induction depth with
  | zero => exact ⟨fun _ _ _ => .diverge _, fun _ => .diverge _⟩
  | succ depth ih => exact ⟨step_below ih, assemble_below ih⟩

/-- Answers within some depth are answers within every greater depth. -/
theorem below_upTo {depth depth' : Nat} (h : depth ≤ depth') :
    (upTo depth).Below (upTo depth') := by
  induction h with
  | refl => exact ⟨fun _ _ _ => .refl _, fun _ => .refl _⟩
  | step _ ih =>
    exact ⟨fun p s q store ended heq => (below_succ _).run p s q _ _ (ih.run p s q _ _ heq),
      fun c store ended heq => (below_succ _).build c _ _ (ih.build c _ _ heq)⟩

/-- A parser has at most one outcome in a store. -/
theorem outcome_unique {depth depth' : Nat} {parser : Parser} {source : Source}
    {place : Position} {store : Store} {ended ended' : Except Raised Result × Store}
    (h : ((upTo depth).run parser source place).on store = some ended)
    (h' : ((upTo depth').run parser source place).on store = some ended') : ended = ended' := by
  have left := (below_upTo (Nat.le_max_left depth depth')).run parser source place _ _ h
  have right := (below_upTo (Nat.le_max_right depth depth')).run parser source place _ _ h'
  exact Option.some.inj (left.symm.trans right)

end Engine

end Descent
