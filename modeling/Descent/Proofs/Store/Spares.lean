import Descent.Proofs.Store.Classes
import Descent.Proofs.Store.Grows

/-! # What leaves lazy parsers as they are

A later store may have more languages and lazy parsers, other classes and other things put aside.
As long as each lazy parser is as it was, it holds what it held and is in the stage in which it was.

* **`Store.Spares`** — a later store in which every lazy parser is as it was.
* **`Store.spares_shelve`**, **`Store.spares_defineClass`** — what a session does without an engine.
* **`Store.stored`**, **`Store.stage`** — the parser that a lazy parser holds and the stage that it
  is in, and what leaves them as they are. -/

namespace Descent.Store

variable {store after : Store}

/-- Stores with the same languages have the same lazy parsers. -/
theorem cell?_eq_of_instances_eq (h : after.instances = store.instances) (id : CellId) :
    after.cell? id = store.cell? id := by
  unfold cell? instanceAt
  rw [h]

@[simp] theorem isSome_cell?_modifyCell (store : Store) (id other : CellId)
    (change : Cell → Cell) :
    ((store.modifyCell id change).cell? other).isSome = (store.cell? other).isSome := by
  rw [cell?_modifyCell]
  split
  · exact Option.isSome_map
  · rfl

/-- Every lazy parser that was there is as it was, and those that were not are unbuilt. -/
structure Spares (store after : Store) : Prop where
  /-- What was there is as it was. -/
  cell : ∀ id cell, store.cell? id = some cell → after.cell? id = some cell
  /-- What is there was there, or it is unbuilt. -/
  fresh : ∀ id cell, after.cell? id = some cell →
    store.cell? id = some cell ∨ ∃ name make, cell = .unbuilt name make

/-- Where the languages are the same, the lazy parsers are the same. -/
theorem Spares.of_instances_eq (h : after.instances = store.instances) : Spares store after := by
  refine ⟨fun id cell hcell => ?_, fun id cell hcell => .inl ?_⟩
  · rw [cell?_eq_of_instances_eq h]
    exact hcell
  · rw [← cell?_eq_of_instances_eq h]
    exact hcell

theorem Spares.refl (store : Store) : Spares store store := .of_instances_eq rfl

theorem Spares.trans {middle : Store} (h : Spares store middle) (h' : Spares middle after) :
    Spares store after := by
  refine ⟨fun id cell hcell => h'.cell id cell (h.cell id cell hcell), fun id cell hcell => ?_⟩
  rcases h'.fresh id cell hcell with hmiddle | hunbuilt
  · exact h.fresh id cell hmiddle
  · exact .inr hunbuilt

/-- A lazy parser that was there is there still. -/
theorem Spares.isSome_cell? (h : Spares store after) {id : CellId}
    (hsome : (store.cell? id).isSome) : (after.cell? id).isSome := by
  obtain ⟨cell, hcell⟩ := Option.isSome_iff_exists.mp hsome
  exact Option.isSome_iff_exists.mpr ⟨cell, h.cell id cell hcell⟩

/-- A lazy parser is the same lazy parser still, or else it was not there and is unbuilt. -/
theorem Spares.cases (h : Spares store after) (id : CellId) :
    after.cell? id = store.cell? id ∨
      store.cell? id = none ∧ ∃ name make, after.cell? id = some (.unbuilt name make) := by
  cases hbefore : store.cell? id with
  | some cell => exact .inl (h.cell id cell hbefore)
  | none =>
    cases hafter : after.cell? id with
    | none => exact .inl rfl
    | some cell =>
      rcases h.fresh id cell hafter with hcell | ⟨name, make, rfl⟩
      · rw [hbefore] at hcell
        cases hcell
      · exact .inr ⟨rfl, name, make, rfl⟩

/-! ## What sessions do besides -/

/-- Putting something aside changes nothing else. -/
theorem exists_shelve_eq (store : Store) (name : String) (object : Object Parser) :
    ∃ kept shelf, store.shelve name object = { store with kept := kept, shelf := shelf } := by
  unfold shelve keep
  cases object with
  | parser p =>
    simp only
    cases p.handle? <;> exact ⟨_, _, rfl⟩
  | value | table | other => exact ⟨_, _, rfl⟩

theorem spares_shelve (store : Store) (name : String) (object : Object Parser) :
    Spares store (store.shelve name object) := by
  obtain ⟨kept, shelf, heq⟩ := store.exists_shelve_eq name object
  rw [heq]
  exact .of_instances_eq rfl

theorem spares_defineClass {name : String} {bases : List String} {initialises : Bool}
    {members : List Member} (h : store.defineClass name bases initialises members = .ok after) :
    Spares store after :=
  .of_instances_eq (instances_defineClass h)

/-! ## What lazy parsers hold -/

/-- The parser that a lazy parser holds, if it has been made. -/
def stored (store : Store) (id : CellId) : Option Parser := (store.cell? id).bind (·.parser)

/-- A lazy parser that is there holds what is in it. -/
theorem stored_of_cell? {id : CellId} {cell : Cell} (h : store.cell? id = some cell) :
    store.stored id = cell.parser := by
  rw [stored, h, Option.bind_some]

/-- What leaves lazy parsers as they are leaves in them what they hold. -/
theorem Spares.stored (h : Spares store after) (id : CellId) :
    after.stored id = store.stored id := by
  unfold Store.stored
  rcases h.cases id with hsame | ⟨hbefore, name, make, hafter⟩
  · rw [hsame]
  · rw [hbefore, hafter]
    rfl

/-- Another stage is no other parser. -/
@[simp] theorem stored_setState (store : Store) (id other : CellId) (state : RuleState) :
    (store.setState id state).stored other = store.stored other := by
  unfold stored setState
  rw [cell?_modifyCell]
  split
  · cases store.cell? other with
    | none => rfl
    | some cell => rfl
  · rfl

/-- A lazy parser that is there holds the parser that is put in place. -/
theorem stored_setParser {id : CellId} (h : (store.cell? id).isSome) (parser : Parser) :
    (store.setParser id parser).stored id = some parser := by
  obtain ⟨cell, hcell⟩ := Option.isSome_iff_exists.mp h
  have hset : (store.setParser id parser).cell? id
      = some { cell with state := .ready, parser := some parser } := by
    unfold setParser
    rw [cell?_modifyCell, if_pos rfl, hcell]
    rfl
  exact stored_of_cell? hset

/-- The others hold what they held. -/
theorem stored_setParser_of_ne {id other : CellId} (h : id ≠ other) (parser : Parser) :
    (store.setParser id parser).stored other = store.stored other := by
  unfold stored setParser
  rw [cell?_modifyCell, if_neg h]

/-! ## The stages of lazy parsers -/

/-- The stage of a lazy parser. One that is not there is unbuilt. -/
def stage (store : Store) (id : CellId) : RuleState := (store.cellAt id).state

/-- A lazy parser that is there is in its own stage. -/
theorem stage_of_cell? {id : CellId} {cell : Cell} (h : store.cell? id = some cell) :
    store.stage id = cell.state := by
  rw [stage, cellAt, h, Option.getD_some]

/-- What leaves lazy parsers as they are leaves them in their stages. -/
theorem Spares.stage (h : Spares store after) (id : CellId) : after.stage id = store.stage id := by
  unfold Store.stage cellAt
  rcases h.cases id with hsame | ⟨hbefore, name, make, hafter⟩
  · rw [hsame]
  · rw [hbefore, hafter]
    rfl

/-- A lazy parser that is there gets into the stage of what it is changed to. -/
theorem stage_modifyCell {id : CellId} {cell : Cell} (h : store.cell? id = some cell)
    (change : Cell → Cell) : (store.modifyCell id change).stage id = (change cell).state := by
  unfold stage cellAt
  rw [cell?_modifyCell, if_pos rfl, h]
  rfl

theorem stage_setState {id : CellId} (h : (store.cell? id).isSome) (state : RuleState) :
    (store.setState id state).stage id = state := by
  obtain ⟨cell, hcell⟩ := Option.isSome_iff_exists.mp h
  exact stage_modifyCell hcell _

/-- A lazy parser that gets its parser is ready. -/
theorem stage_setParser {id : CellId} (h : (store.cell? id).isSome) (parser : Parser) :
    (store.setParser id parser).stage id = .ready := by
  obtain ⟨cell, hcell⟩ := Option.isSome_iff_exists.mp h
  exact stage_modifyCell hcell _

/-- The others are in the stages in which they were. -/
theorem stage_modifyCell_of_ne {id other : CellId} (h : id ≠ other) (change : Cell → Cell) :
    (store.modifyCell id change).stage other = store.stage other := by
  unfold stage cellAt
  rw [cell?_modifyCell, if_neg h]

end Descent.Store
