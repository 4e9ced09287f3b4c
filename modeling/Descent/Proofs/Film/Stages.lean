import Descent.Proofs.Account.Undone
import Descent.Proofs.Film.Turns

/-! # The stages of a lazy parser

A lazy parser that is left in peace while its function is called goes through its stages in order:
then it is ready, or unbuilt again.

* **`RuleState.Step`** — what may happen to a lazy parser in each stage, and the stage that follows.
* **`Lives`** — scenes in which the stages of a lazy parser follow from one another in this way.
* **`Lives.eq_ready_iff`**, **`Lives.countP_isMade_le`** — it is ready if it has been made, and it
  is made once at most.
* **`Store.LeavesAlone`**, **`Reel.leavesAlone`** — scenes in which nothing happens to a lazy parser
  leave it as it is.
* **`Reel.holdsIfReady`** — in every scene it holds a parser if it is ready, and only then. -/

namespace Descent

/-! ## Stages -/

theorem Entry.isCall_of_ne {cell : CellId} {entry : Entry} (h : entry.cell ≠ cell) :
    entry.isCall cell = false := by
  cases entry with
  | called => exact decide_eq_false h
  | made | failed | reused => rfl

theorem Entry.isMade_of_ne {cell : CellId} {entry : Entry} (h : entry.cell ≠ cell) :
    entry.isMade cell = false := by
  cases entry with
  | made => exact decide_eq_false h
  | called | failed | reused => rfl

/-- What may happen to a lazy parser in a stage, and the stage that follows. -/
inductive RuleState.Step (cell : CellId) : RuleState → Option Entry → RuleState → Prop where
  /-- Nothing happens to a lazy parser. -/
  | still {stage : RuleState} : RuleState.Step cell stage none stage
  /-- Something happens to another one. -/
  | other {stage : RuleState} {entry : Entry} (h : entry.cell ≠ cell) :
      RuleState.Step cell stage (some entry) stage
  /-- Its function is called only if it is unbuilt. -/
  | called : RuleState.Step cell .unbuilt (some (.called cell)) .building
  /-- A call ends with a parser. -/
  | made (parser : Parser) : RuleState.Step cell .building (some (.made cell parser)) .ready
  /-- A call ends without one. -/
  | failed : RuleState.Step cell .building (some (.failed cell)) .unbuilt
  /-- The parser that it holds is returned only if it is ready. -/
  | reused (parser : Parser) : RuleState.Step cell .ready (some (.reused cell parser)) .ready

/-- The function of a lazy parser is called only if it is unbuilt. -/
theorem RuleState.Step.eq_unbuilt {cell : CellId} {before after : RuleState} {entry : Entry}
    (h : RuleState.Step cell before (some entry) after) (hcall : entry.isCall cell = true) :
    before = .unbuilt := by
  cases h with
  | called => rfl
  | made | failed | reused => cases hcall
  | other hother =>
    rw [Entry.isCall_of_ne hother] at hcall
    cases hcall

/-- Scenes in which the stages of a lazy parser follow from one another. -/
inductive Lives (cell : CellId) : RuleState → List Scene → RuleState → Prop where
  /-- Nothing happens. -/
  | nil (stage : RuleState) : Lives cell stage [] stage
  /-- One thing happens, then others. -/
  | cons {before after : RuleState} {scene : Scene} {rest : List Scene}
      (step : RuleState.Step cell before scene.recorded? (scene.store.stage cell))
      (next : Lives cell (scene.store.stage cell) rest after) :
      Lives cell before (scene :: rest) after

namespace Lives

variable {cell : CellId} {before middle after : RuleState} {first second scenes : List Scene}

theorem single {scene : Scene}
    (h : RuleState.Step cell before scene.recorded? (scene.store.stage cell)) :
    Lives cell before [scene] (scene.store.stage cell) := .cons h (.nil _)

/-- One after the other. -/
theorem append (h : Lives cell before first middle) (h' : Lives cell middle second after) :
    Lives cell before (first ++ second) after := by
  induction h with
  | nil => exact h'
  | cons step _ ih => exact .cons step (ih h')

/-- They can be stopped anywhere. -/
theorem exists_of_append (h : Lives cell before (first ++ second) after) :
    ∃ middle, Lives cell before first middle ∧ Lives cell middle second after := by
  induction first generalizing before with
  | nil => exact ⟨before, .nil before, h⟩
  | cons scene rest ih =>
    cases h with
    | cons step next =>
      obtain ⟨middle, hrest, hsecond⟩ := ih next
      exact ⟨middle, .cons step hrest, hsecond⟩

/-- Every scene shows the stage that is reached in it. -/
theorem of_append_cons {scene : Scene} (h : Lives cell before (first ++ scene :: second) after) :
    Lives cell before (first ++ [scene]) (scene.store.stage cell) ∧
      Lives cell (scene.store.stage cell) second after := by
  obtain ⟨middle, hfirst, hrest⟩ := h.exists_of_append
  cases hrest with
  | cons step next => exact ⟨hfirst.append (.single step), next⟩

/-- If nothing happens to any lazy parser and no stage changes, there is nothing to show. -/
theorem of_still (h : ∀ scene ∈ scenes, scene.recorded? = none ∧ scene.store.stage cell = before) :
    Lives cell before scenes before := by
  induction scenes with
  | nil => exact .nil before
  | cons scene rest ih =>
    obtain ⟨hnone, hstage⟩ := h scene List.mem_cons_self
    have hrest := ih fun other hother => h other (List.mem_cons_of_mem scene hother)
    refine .cons ?_ (hstage.symm ▸ hrest)
    rw [hnone, hstage]
    exact .still

end Lives

/-! ## What the stages tell -/

/-- One for a lazy parser that is ready. -/
def RuleState.made : RuleState → Nat
  | .ready => 1
  | _ => 0

@[simp] theorem RuleState.made_unbuilt : RuleState.unbuilt.made = 0 := rfl

@[simp] theorem RuleState.made_building : RuleState.building.made = 0 := rfl

@[simp] theorem RuleState.made_ready : RuleState.ready.made = 1 := rfl

theorem RuleState.made_eq_one_iff {stage : RuleState} : stage.made = 1 ↔ stage = .ready := by
  cases stage with
  | ready => exact iff_of_true rfl rfl
  | unbuilt | building => exact iff_of_false nofun nofun

namespace Lives

variable {cell : CellId} {before after : RuleState} {scenes : List Scene}

/-- Whenever a lazy parser is made, it has not been ready, and then it is. -/
theorem made_add (h : Lives cell before scenes after) :
    before.made + (Scene.journal scenes).countP (·.isMade cell) = after.made := by
  induction h with
  | nil => rfl
  | @cons before after scene rest step _ ih =>
    rw [Scene.journal_cons, List.countP_append, ← ih]
    generalize scene.recorded? = noted at step
    generalize scene.store.stage cell = stage at step
    cases step with
    | still => simp
    | called | made | failed | reused => simp [Entry.isMade]
    | other hother => simp [Entry.isMade_of_ne hother]

/-- A lazy parser is made once at most. -/
theorem countP_isMade_le (h : Lives cell before scenes after) :
    (Scene.journal scenes).countP (·.isMade cell) ≤ 1 := by
  have hmade := h.made_add
  have hle : after.made ≤ 1 := by cases after <;> decide
  omega

/-- It is ready if it has been made. -/
theorem eq_ready_iff (h : Lives cell .unbuilt scenes after) :
    after = .ready ↔ ∃ parser, Entry.made cell parser ∈ Scene.journal scenes := by
  have hmade : (Scene.journal scenes).countP (·.isMade cell) = after.made :=
    (Nat.zero_add _).symm.trans h.made_add
  rw [← RuleState.made_eq_one_iff, ← hmade]
  constructor
  · intro hone
    obtain ⟨entry, hentry, hisMade⟩ :=
      List.countP_pos_iff.mp (Nat.lt_of_lt_of_eq Nat.one_pos hone.symm)
    cases entry with
    | made other parser =>
      obtain rfl := of_decide_eq_true hisMade
      exact ⟨parser, hentry⟩
    | called | failed | reused => cases hisMade
  · rintro ⟨parser, hmem⟩
    have hpos : 0 < (Scene.journal scenes).countP (·.isMade cell) :=
      List.countP_pos_iff.mpr ⟨_, hmem, decide_eq_true rfl⟩
    exact Nat.le_antisymm h.countP_isMade_le hpos

/-- The function of a lazy parser that is ready is not called. -/
theorem countP_isCall_of_ready (h : Lives cell .ready scenes after) :
    (Scene.journal scenes).countP (·.isCall cell) = 0 := by
  generalize hbefore : RuleState.ready = before at h
  induction h with
  | nil => rfl
  | @cons before after scene rest step _ ih =>
    rw [Scene.journal_cons, List.countP_append]
    generalize scene.recorded? = noted at step
    generalize scene.store.stage cell = stage at step ih
    cases step with
    | still => simpa using ih hbefore
    | called | made | failed => cases hbefore
    | reused => simpa [Entry.isCall] using ih rfl
    | other hother => simpa [Entry.isCall_of_ne hother] using ih hbefore

end Lives

/-! ## Lazy parsers to which nothing happens -/

/-- A lazy parser is as it was, or it was not there before and is unbuilt. -/
def Store.LeavesAlone (store : Store) (id : CellId) (after : Store) : Prop :=
  after.cell? id = store.cell? id ∨
    store.cell? id = none ∧ ∃ name make, after.cell? id = some (.unbuilt name make)

/-- A lazy parser holds a parser if it is ready, and otherwise it is unbuilt. -/
def Store.Settled (store : Store) (id : CellId) : Prop :=
  ∀ found, store.cell? id = some found →
    (found.state = .unbuilt ∧ found.parser = none) ∨ (found.state = .ready ∧ found.parser ≠ none)

namespace Store

variable {store middle after : Store} {id : CellId}

theorem LeavesAlone.trans (h : store.LeavesAlone id middle) (h' : middle.LeavesAlone id after) :
    store.LeavesAlone id after := by
  unfold LeavesAlone at h h' ⊢
  rcases h' with hsame | ⟨hnone, hunbuilt⟩
  · rw [hsame]
    exact h
  · rcases h with hsame | ⟨-, name, make, hmiddle⟩
    · exact .inr ⟨hsame ▸ hnone, hunbuilt⟩
    · rw [hmiddle] at hnone
      cases hnone

/-- Its stage is what it was. -/
theorem LeavesAlone.stage (h : store.LeavesAlone id after) : after.stage id = store.stage id := by
  unfold Store.stage cellAt
  rcases h with hsame | ⟨hbefore, name, make, hafter⟩
  · rw [hsame]
  · rw [hbefore, hafter]
    rfl

/-- It holds what it held. -/
theorem LeavesAlone.stored (h : store.LeavesAlone id after) :
    after.stored id = store.stored id := by
  unfold Store.stored
  rcases h with hsame | ⟨hbefore, name, make, hafter⟩
  · rw [hsame]
  · rw [hbefore, hafter]
    rfl

theorem LeavesAlone.settled (h : store.LeavesAlone id after) (hstore : store.Settled id) :
    after.Settled id := by
  intro found hfound
  rcases h with hsame | ⟨-, name, make, hafter⟩
  · exact hstore found (hsame ▸ hfound)
  · cases hafter.symm.trans hfound
    exact .inl ⟨rfl, rfl⟩

/-- A settled lazy parser that holds nothing is unbuilt. -/
theorem Settled.stage_unbuilt {found : Cell} (h : store.Settled id)
    (hcell : store.cell? id = some found) (hnone : found.parser = none) :
    store.stage id = .unbuilt := by
  rcases h found hcell with ⟨hstate, -⟩ | ⟨-, hparser⟩
  · rw [stage_of_cell? hcell, hstate]
  · exact absurd hnone hparser

/-- One that holds a parser is ready. -/
theorem Settled.stage_ready {found : Cell} {parser : Parser} (h : store.Settled id)
    (hcell : store.cell? id = some found) (hparser : found.parser = some parser) :
    store.stage id = .ready := by
  rcases h found hcell with ⟨-, hnone⟩ | ⟨hstate, -⟩
  · rw [hparser] at hnone
    cases hnone
  · rw [stage_of_cell? hcell, hstate]

/-- What happens leaves every lazy parser alone to which it does not happen. -/
theorem Turns.leavesAlone {reports : Record → Prop} {happening : Happening}
    (h : store.Turns reports happening after)
    (hother : ∀ entry, happening = .entry entry → entry.cell ≠ id) :
    store.LeavesAlone id after := by
  cases h with
  | quiet hspares => exact hspares.cases id
  | reported => exact .inl (cell?_log ..)
  | ran | reused => exact .inl rfl
  | called => exact .inl ((cell?_setState_of_ne (hother _ rfl)).trans (cell?_log ..))
  | made => exact .inl ((cell?_log ..).trans (cell?_setParser_of_ne (hother _ rfl) _))
  | failed => exact .inl (cell?_setState_of_ne (hother _ rfl))

end Store

/-- Nothing happens to a lazy parser in some scenes. -/
def Scene.Spared (cell : CellId) (scenes : List Scene) : Prop :=
  ∀ entry ∈ Scene.journal scenes, entry.cell ≠ cell

/-- Where nothing happens to a lazy parser, every scene leaves it alone, and so do all of them. -/
theorem Reel.leavesAlone {reports : Record → Prop} {before after : Store} {scenes : List Scene}
    {cell : CellId} (h : Reel reports before scenes after) (hspared : Scene.Spared cell scenes) :
    before.LeavesAlone cell after ∧ ∀ scene ∈ scenes, before.LeavesAlone cell scene.store := by
  induction h with
  | nil => exact ⟨.inl rfl, nofun⟩
  | @cons before after scene rest turn _ ih =>
    have hscene : before.LeavesAlone cell scene.store := by
      refine turn.leavesAlone fun entry hentry => hspared entry ?_
      exact List.mem_filterMap.mpr ⟨scene, List.mem_cons_self, by rw [Scene.recorded?, hentry]⟩
    obtain ⟨hlast, hrest⟩ := ih fun entry hentry => by
      obtain ⟨other, hother, hrecorded⟩ := List.mem_filterMap.mp hentry
      exact hspared entry
        (List.mem_filterMap.mpr ⟨other, List.mem_cons_of_mem scene hother, hrecorded⟩)
    refine ⟨hscene.trans hlast, fun other hother => ?_⟩
    rcases List.mem_cons.mp hother with rfl | hother
    · exact hscene
    · exact hscene.trans (hrest other hother)

/-- Where nothing happens to any lazy parser, each keeps its stage. -/
theorem Reel.lives_of_journal_eq_nil {reports : Record → Prop} {before after : Store}
    {scenes : List Scene} (h : Reel reports before scenes after)
    (hjournal : Scene.journal scenes = []) (cell : CellId) :
    before.LeavesAlone cell after ∧
      Lives cell (before.stage cell) scenes (before.stage cell) := by
  have hspared : Scene.Spared cell scenes := by
    unfold Scene.Spared
    rw [hjournal]
    exact nofun
  obtain ⟨halone, hscenes⟩ := h.leavesAlone hspared
  exact ⟨halone, .of_still fun scene hscene =>
    ⟨List.filterMap_eq_nil_iff.mp hjournal scene hscene, (hscenes scene hscene).stage⟩⟩

/-! ## What a lazy parser holds -/

/-- A lazy parser holds a parser if it is ready, and only then. -/
def Store.HoldsIfReady (store : Store) (id : CellId) : Prop :=
  (store.stored id).isSome ↔ store.stage id = .ready

/-- As long as stages follow from one another, a lazy parser holds a parser if it is ready. -/
theorem Store.Turns.holdsIfReady {reports : Record → Prop} {before : Store} {scene : Scene}
    {cell : CellId} (h : before.Turns reports scene.happening scene.store)
    (hstep : RuleState.Step cell (before.stage cell) scene.recorded? (scene.store.stage cell))
    (hbefore : before.HoldsIfReady cell) : scene.store.HoldsIfReady cell := by
  unfold HoldsIfReady at hbefore ⊢
  by_cases hother : ∀ entry, scene.happening = .entry entry → entry.cell ≠ cell
  · have halone := h.leavesAlone hother
    rw [halone.stored, halone.stage]
    exact hbefore
  obtain ⟨entry, hentry, hcell⟩ : ∃ entry, scene.happening = .entry entry ∧ entry.cell = cell := by
    simpa using hother
  subst hcell
  rw [Scene.recorded?, hentry] at hstep
  rw [hentry] at h
  clear hother hentry
  generalize scene.store.stage entry.cell = stage at hstep ⊢
  generalize before.stage entry.cell = past at hstep hbefore
  generalize scene.store = store at h ⊢
  cases h with
  | @called id found hfound hnone =>
    cases hstep with
    | other hid => exact absurd rfl hid
    | called =>
      simp only [Entry.cell, stored_setState, stored_log, stored_of_cell? hfound, hnone]
      exact iff_of_false nofun nofun
  | @made id found hfound parser =>
    cases hstep with
    | other hid => exact absurd rfl hid
    | made =>
      simp only [Entry.cell, stored_log, stored_setParser (Option.isSome_of_eq_some hfound)]
      exact iff_of_true rfl trivial
  | @failed id found hfound =>
    cases hstep with
    | other hid => exact absurd rfl hid
    | failed =>
      -- it was being built, so it held nothing
      simp only [Entry.cell, stored_setState]
      exact iff_of_false (fun hsome => by cases hbefore.mp hsome) nofun
  | reused =>
    cases hstep with
    | other hid => exact absurd rfl hid
    | reused => exact hbefore

/-- So it does in every scene. -/
theorem Reel.holdsIfReady {reports : Record → Prop} {before last : Store} {scenes : List Scene}
    {cell : CellId} {stage : RuleState} (h : Reel reports before scenes last)
    (hlives : Lives cell (before.stage cell) scenes stage) (hbefore : before.HoldsIfReady cell) :
    ∀ scene ∈ scenes, scene.store.HoldsIfReady cell := by
  induction h with
  | nil => exact nofun
  | @cons before last scene rest turn _ ih =>
    cases hlives with
    | cons step hlives =>
      have hscene := turn.holdsIfReady step hbefore
      intro other hother
      rcases List.mem_cons.mp hother with rfl | hother
      · exact hscene
      · exact ih hlives hscene other hother

end Descent
