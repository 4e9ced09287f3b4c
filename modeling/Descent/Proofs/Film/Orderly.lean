import Descent.Engine.Passive
import Descent.Proofs.Film.Depth
import Descent.Proofs.Film.Stages

/-! # Lazy parsers whose functions run nothing

Nothing can happen to a lazy parser while its function is called if that neither runs parsers nor
has them made. So in every run and in every session it goes through its stages in order.

* **`Film.Orderly`** — a computation in which a lazy parser goes through its stages in order.
* **`Film.Ordered.own`**, **`Film.Ordered.others`** — making the lazy parser itself, or another one,
  keeps the order.
* **`Film.orderly_upTo`**, **`Film.lives_ofSession`** — main statements: so do whole runs and whole
  sessions. -/

namespace Descent

/-! ## Functions that run nothing -/

/-- The function of a lazy parser, if that is there, neither runs parsers nor has them made. -/
def Store.Passive (store : Store) (id : CellId) : Prop :=
  ∀ found, store.cell? id = some found → found.make.action.Passive

/-- A lazy parser keeps its function, so it is enough to know of the last store what that does. -/
theorem Reel.passive {reports : Record → Prop} {before last : Store} {scenes : List Scene}
    {cell : CellId} (h : Reel reports before scenes last) (hlast : last.Passive cell) :
    ∀ scene ∈ scenes, scene.store.Passive cell := by
  induction h with
  | nil => exact nofun
  | @cons before last scene rest _ next ih =>
    intro other hother
    rcases List.mem_cons.mp hother with rfl | hother
    · intro found hfound
      obtain ⟨later, hlater, hstill⟩ := next.still hfound
      rw [← hstill.make]
      exact hlast later hlater
    · exact ih hlast other hother

namespace Film

variable {cell : CellId} {α β : Type}

/-- In what an engine does by itself nothing happens to a lazy parser. -/
theorem journal_still (ended : Option (Except Raised α × Store)) :
    Scene.journal (still ended) = [] := by
  cases ended with
  | none => rfl
  | some outcome => rfl

/-- To do nothing to lazy parsers can be kept up from one computation to the next. -/
theorem composable_journal_nil :
    Engine.Composable fun α (film _ : Film α) => ∀ store, Scene.journal (film.on store).2 = [] where
  pure _ _ := rfl
  inner _ _ := journal_still _
  bind {α β first first' next next'} h hnext := by
    intro store
    have hfirst := h store
    rw [bind_on]
    generalize first.on store = done at hfirst ⊢
    rcases done with ⟨_ | ⟨cause | result, middle⟩, scenes⟩
    · exact hfirst
    · exact hfirst
    · show Scene.journal (scenes ++ ((next result).on middle).2) = []
      rw [Scene.journal_append, hnext result middle, List.append_nil]
      exact hfirst

/-- Nothing happens to lazy parsers in a script that neither runs nor makes parsers. -/
theorem journal_perform (engine : Engine Film) {action : Action α} (h : action.Passive)
    (store : Store) : Scene.journal ((engine.perform action).on store).2 = [] :=
  composable_journal_nil.perform_passive engine engine h store

/-! ## Computations -/

/-- In what was done in a store, the stages of a lazy parser followed from one another, and in the
end it is settled. -/
def Ordered (cell : CellId) (store : Store) :
    Option (Except Raised α × Store) × List Scene → Prop
  | (none, scenes) => ∃ stage, Lives cell (store.stage cell) scenes stage
  | (some (_, after), scenes) =>
      after.Settled cell ∧ Lives cell (store.stage cell) scenes (after.stage cell)

/-- A computation takes a settled lazy parser through its stages in order, as long as the function
of that neither runs nor makes parsers. -/
def Orderly (cell : CellId) (film : Film α) : Prop :=
  ∀ store, store.Settled cell → (∀ scene ∈ (film.on store).2, scene.store.Passive cell) →
    Ordered cell store (film.on store)

namespace Orderly

theorem diverge : (quiet Eval.diverge : Film α).Orderly cell := fun _ _ _ => ⟨_, .nil _⟩

theorem pure (result : α) : (Pure.pure result : Film α).Orderly cell :=
  fun _ hstore _ => ⟨hstore, .nil _⟩

/-- A computation that leaves lazy parsers as they are is filmed in one scene. -/
theorem of_spares {computation : Eval α}
    (h : ∀ store ended after, computation.on store = some (ended, after) → store.Spares after) :
    (liftM computation : Film α).Orderly cell := by
  intro store hstore _
  rw [quiet_on]
  cases hon : computation.on store with
  | none => exact ⟨_, .nil _⟩
  | some outcome =>
    obtain ⟨ended, after⟩ := outcome
    have halone : store.LeavesAlone cell after := (h store ended after hon).cases cell
    refine ⟨halone.settled hstore, .single ?_⟩
    rw [halone.stage]
    exact .still

theorem bind {first : Film α} {next : α → Film β} (h : first.Orderly cell)
    (hnext : ∀ result, (next result).Orderly cell) : (first >>= next).Orderly cell := by
  intro store hstore hpassive
  have hfirst := h store hstore
  rw [bind_on] at hpassive ⊢
  generalize first.on store = done at hfirst hpassive ⊢
  rcases done with ⟨_ | ⟨cause | result, middle⟩, scenes⟩
  · exact hfirst hpassive
  · exact hfirst hpassive
  · -- the first has left the lazy parser settled for the second
    obtain ⟨hmiddle, hlives⟩ :=
      hfirst fun scene hscene => hpassive scene (List.mem_append_left _ hscene)
    have hsecond := hnext result middle hmiddle
      fun scene hscene => hpassive scene (List.mem_append_right _ hscene)
    show Ordered cell store (((next result).on middle).1, scenes ++ ((next result).on middle).2)
    generalize (next result).on middle = done at hsecond ⊢
    rcases done with ⟨_ | ⟨ended, after⟩, rest⟩
    · obtain ⟨stage, hrest⟩ := hsecond
      exact ⟨stage, hlives.append hrest⟩
    · exact ⟨hsecond.1, hlives.append hsecond.2⟩

/-- Putting computations together keeps this up. -/
theorem compatible : Engine.Compatible fun α (film _ : Film α) => film.Orderly cell where
  pure := .pure
  basic h := .of_spares fun _ _ _ hon => (h.opens hon).spares
  bind := .bind

/-- The scene of the end of a run changes no stage. -/
theorem asRun {computation : Film Result} (h : computation.Orderly cell) (parser : Parser)
    (source : Source) (start : Position) :
    (asRun parser source start computation).Orderly cell := by
  intro store hstore
  refine asRun_of (P := fun done => (∀ scene ∈ done.2, scene.store.Passive cell) →
    Ordered cell store done) (h store hstore) fun result after scenes hdone hpassive => ?_
  obtain ⟨hafter, hlives⟩ :=
    hdone fun scene hscene => hpassive scene (List.mem_append_left _ hscene)
  exact ⟨hafter, hlives.append (.single .still)⟩

end Orderly

/-! ## Making lazy parsers -/

/-- What becomes of a lazy parser is nothing to another one. -/
theorem cell?_settle_of_ne {id : CellId} (h : id ≠ cell) (name : String)
    (ended : Except Raised (Object Parser)) (store : Store) :
    (Engine.settle id name (ended, store)).2.cell? cell = store.cell? cell := by
  by_cases hparser : ∃ p, ended = .ok (.parser p)
  · obtain ⟨p, rfl⟩ := hparser
    exact (Store.cell?_log ..).trans (Store.cell?_setParser_of_ne h p)
  · obtain ⟨cause, hsettle⟩ := Engine.settle_of_ne id name (not_exists.mp hparser) store
    rw [hsettle]
    exact Store.cell?_setState_of_ne h

/-- A lazy parser whose function has ended is settled, and its stage has followed. -/
theorem step_settle {store : Store} {name : String} {make : Maker}
    (h : store.cell? cell = some ⟨name, .building, make, none⟩)
    (ended : Except Raised (Object Parser)) :
    (Engine.settle cell name (ended, store)).2.Settled cell ∧
      RuleState.Step cell .building (some (ending cell ended))
        ((Engine.settle cell name (ended, store)).2.stage cell) := by
  by_cases hparser : ∃ p, ended = .ok (.parser p)
  · obtain ⟨p, rfl⟩ := hparser
    have hcell : (Engine.settle cell name (.ok (.parser p), store)).2.cell? cell
        = some ⟨name, .ready, make, some p⟩ :=
      (Store.cell?_log ..).trans (Store.cell?_setParser h p)
    rw [Store.stage_of_cell? hcell]
    refine ⟨fun found hfound => ?_, .made p⟩
    cases hcell.symm.trans hfound
    exact .inr ⟨rfl, nofun⟩
  · obtain ⟨cause, hsettle⟩ := Engine.settle_of_ne cell name (not_exists.mp hparser) store
    have hcell := Store.cell?_setState_unbuilt h
    rw [ending_of_ne cell (not_exists.mp hparser), hsettle, Store.stage_of_cell? hcell]
    refine ⟨fun found hfound => ?_, .failed⟩
    cases hcell.symm.trans hfound
    exact .inl ⟨rfl, rfl⟩

/-- The function of the lazy parser itself is called while nothing else happens to it. -/
theorem Ordered.own {depth : Nat} {store : Store} {name : String} {make : Maker}
    (hcell : store.cell? cell = some (.unbuilt name make)) (hmake : make.action.Passive) :
    Ordered cell store ((assemble (upTo depth) cell).on store) := by
  rw [assemble_of_unmade hcell]
  have hstarted : ((store.log (.building name .unbuilt)).setState cell .building).cell? cell
      = some ⟨name, .building, make, none⟩ := Store.cell?_begun hcell .unbuilt
  have hcalled : RuleState.Step cell (store.stage cell) (some (.called cell))
      (((store.log (.building name .unbuilt)).setState cell .building).stage cell) := by
    rw [Store.stage_of_cell? hcell, Store.stage_of_cell? hstarted]
    exact .called
  have hreeled := composable_reels.perform (reels_upTo (fun _ => False) depth) make.action
    ((store.log (.building name .unbuilt)).setState cell .building)
  have hjournal := journal_perform (upTo depth) hmake
    ((store.log (.building name .unbuilt)).setState cell .building)
  simp only
  generalize (store.log (.building name .unbuilt)).setState cell .building = started
    at hstarted hcalled hreeled hjournal ⊢
  generalize ((upTo depth).perform make.action).on started = done at hreeled hjournal ⊢
  -- until the function has ended, there is nothing to be seen but that it is being called
  obtain ⟨_ | ⟨ended, middle⟩, scenes⟩ := done
  · obtain ⟨last, hreel⟩ := hreeled
    refine ⟨started.stage cell, ?_⟩
    rw [endings, List.append_nil]
    exact .cons hcalled (hreel.lives_of_journal_eq_nil hjournal cell).2
  · obtain ⟨halone, hstill⟩ := Reel.lives_of_journal_eq_nil hreeled hjournal cell
    have hmiddle : middle.cell? cell = some ⟨name, .building, make, none⟩ := by
      rcases halone with hsame | ⟨hnone, -⟩
      · rw [hsame, hstarted]
      · rw [hstarted] at hnone
        cases hnone
    obtain ⟨hsettled, hended⟩ := step_settle hmiddle ended
    have hbuilding : started.stage cell = .building := Store.stage_of_cell? hstarted
    rw [← hbuilding] at hended
    exact ⟨hsettled, .cons hcalled (hstill.append (.single hended))⟩

/-- To a lazy parser it is nothing that the function of another one is called, apart from what that
does. -/
theorem Ordered.others {depth : Nat} {store : Store} {id : CellId} {name : String}
    {state : RuleState} {make : Maker} (hid : id ≠ cell) (hstore : store.Settled cell)
    (hcell : store.cell? id = some ⟨name, state, make, none⟩)
    (h : ((upTo depth).perform make.action).Orderly cell)
    (hpassive : ∀ scene ∈ ((assemble (upTo depth) id).on store).2, scene.store.Passive cell) :
    Ordered cell store ((assemble (upTo depth) id).on store) := by
  rw [assemble_of_unmade hcell] at hpassive ⊢
  have halone : store.LeavesAlone cell ((store.log (.building name state)).setState id .building) :=
    .inl (Store.cell?_begun_of_ne hid)
  have hdone := h _ (halone.settled hstore)
  simp only at hpassive ⊢
  generalize (store.log (.building name state)).setState id .building = started
    at halone hdone hpassive ⊢
  -- neither the call nor its end has to do with this lazy parser
  have hcalled :
      RuleState.Step cell (store.stage cell) (some (.called id)) (started.stage cell) := by
    rw [halone.stage]
    exact .other hid
  generalize ((upTo depth).perform make.action).on started = done at hdone hpassive ⊢
  have hdone := hdone fun scene hscene =>
    hpassive scene (List.mem_cons_of_mem _ (List.mem_append_left _ hscene))
  obtain ⟨_ | ⟨ended, middle⟩, scenes⟩ := done
  · obtain ⟨stage, hlives⟩ := hdone
    refine ⟨stage, ?_⟩
    rw [endings, List.append_nil]
    exact .cons hcalled hlives
  · obtain ⟨hmiddle, hlives⟩ := hdone
    have hended : middle.LeavesAlone cell (Engine.settle id name (ended, middle)).2 :=
      .inl (cell?_settle_of_ne hid name ended middle)
    have hother : (ending id ended).cell ≠ cell := by rwa [cell_ending]
    refine ⟨hended.settled hmiddle, .cons hcalled (hlives.append (.single ?_))⟩
    rw [hended.stage]
    exact .other hother

/-- Making a lazy parser takes each one through its stages in order, if scripts do. -/
theorem Orderly.assemble {depth : Nat}
    (h : ∀ action : Action (Object Parser), ((upTo depth).perform action).Orderly cell)
    (id : CellId) : (assemble (upTo depth) id).Orderly cell := by
  intro store hstore hpassive
  cases hfound : store.cell? id with
  | none =>
    rw [assemble_of_none hfound]
    exact ⟨_, .nil _⟩
  | some found =>
    obtain ⟨name, state, make, _ | parser⟩ := found
    · by_cases hid : id = cell
      · subst hid
        obtain rfl : state = .unbuilt :=
          (Store.stage_of_cell? hfound).symm.trans (hstore.stage_unbuilt hfound rfl)
        refine .own hfound ?_
        -- the first scene shows that the function neither runs nor makes parsers
        have hstarted := hpassive
        rw [assemble_of_unmade hfound] at hstarted
        exact hstarted _ List.mem_cons_self _ (Store.cell?_begun hfound .unbuilt)
      · exact .others hid hstore hfound (h make.action) hpassive
    · rw [assemble_of_made hfound]
      refine ⟨hstore, .single ?_⟩
      by_cases hid : id = cell
      · subst hid
        rw [hstore.stage_ready hfound rfl]
        exact .reused parser
      · exact .other hid

/-- Runs take every lazy parser through its stages in order. -/
theorem orderly_upTo (cell : CellId) (depth : Nat) :
    Engine.Related (fun _ (film _ : Film _) => film.Orderly cell) (upTo depth) (upTo depth) := by
  induction depth with
  | zero => exact ⟨fun _ _ _ => .diverge, fun _ => .diverge⟩
  | succ depth ih =>
    exact ⟨fun parser source place =>
        (ih.step Orderly.compatible parser source place).asRun _ _ _,
      .assemble (ih.perform Orderly.compatible)⟩

/-- So do deeds. -/
theorem orderly_apply (cell : CellId) (depth : Nat) (deed : Deed) :
    (deed.apply (upTo depth)).Orderly cell := by
  cases deed with
  | operate operation => exact operation.related Orderly.compatible (orderly_upTo cell depth)
  | shelve name object =>
    refine .of_spares fun store ended after hon => ?_
    cases hon
    exact Store.spares_shelve store name object
  | defineClass name bases initialises members =>
    refine .of_spares fun store ended after hon => ?_
    rcases Store.defineClass_or_eq hon with hdefine | rfl
    · exact Store.spares_defineClass hdefine
    · exact .refl _

end Film

/-! ## Sessions -/

/-- In deeds one after another, the stages of a lazy parser follow from one another. -/
theorem Film.lives_ofDeeds {cell : CellId} {depth : Nat} {deeds : List Deed} {store : Store}
    (hstore : store.Settled cell)
    (hpassive : ∀ scene ∈ ofDeeds (upTo depth) deeds store, scene.store.Passive cell) :
    ∃ stage, Lives cell (store.stage cell) (ofDeeds (upTo depth) deeds store) stage := by
  induction deeds generalizing store with
  | nil => exact ⟨_, .nil _⟩
  | cons deed rest ih =>
    have hdone := orderly_apply cell depth deed store hstore
    unfold ofDeeds at hpassive ⊢
    generalize (deed.apply (upTo depth)).on store = done at hdone hpassive ⊢
    rcases done with ⟨_ | ⟨ended, after⟩, scenes⟩
    · exact hdone hpassive
    · obtain ⟨hafter, hlives⟩ :=
        hdone fun scene hscene => hpassive scene (List.mem_append_left _ hscene)
      obtain ⟨stage, hrest⟩ :=
        ih hafter fun scene hscene => hpassive scene (List.mem_append_right _ hscene)
      exact ⟨stage, hlives.append hrest⟩

/-- In a session, the stages of a lazy parser follow from one another if its function neither runs
nor makes parsers. -/
theorem Film.lives_ofSession {cell : CellId} {depth : Nat} {logging : Bool} {deeds : List Deed}
    (hpassive : ∀ scene ∈ ofSession depth logging deeds, scene.store.Passive cell) :
    ∃ stage, Lives cell .unbuilt (ofSession depth logging deeds) stage := by
  have hnone : (Store.initial logging).cell? cell = none := Store.cell?_of_size_le _ (Nat.zero_le _)
  have hsettled : (Store.initial logging).Settled cell := by
    intro found hfound
    rw [hnone] at hfound
    cases hfound
  have hstage : (Store.initial logging).stage cell = .unbuilt := by
    rw [Store.stage, Store.cellAt, hnone]
    rfl
  obtain ⟨stage, hdeeds⟩ :=
    lives_ofDeeds hsettled fun scene hscene => hpassive scene (List.mem_cons_of_mem _ hscene)
  refine ⟨stage, .cons ?_ hdeeds⟩
  rw [hstage]
  exact .still

end Descent
