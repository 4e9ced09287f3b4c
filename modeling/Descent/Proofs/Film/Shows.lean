import Descent.Proofs.Film.Erases
import Descent.Proofs.Journal.Tracks
import Descent.Proofs.Store.Opens

/-! # What a film shows of a lazy parser

* **`Posture`** — what is to be seen of a lazy parser at a moment: the parser that it holds, how
  many calls of its function are in progress, and the stage that it is in.
* **`Posture.Step`** — how one scene changes that.
* **`Plays`** — how a whole film does.
* **`Film.related_shows`** — main statement: the films of engines are such films.
* **`plays_ofSession`** — and so are those of sessions. -/

namespace Descent

/-! ## Postures -/

/-- What is to be seen of a lazy parser at a moment. -/
structure Posture extends Standing where
  /-- The stage that it is in. -/
  stage : RuleState

/-- How what happens in a scene changes what is to be seen of a lazy parser. -/
inductive Posture.Step (cell : CellId) : Posture → Option Entry → Posture → Prop where
  /-- Nothing happens to a lazy parser. -/
  | still {posture : Posture} : Step cell posture none posture
  /-- The function is called only if nothing is held. -/
  | called {calls : Nat} {stage : RuleState} :
      Step cell ⟨⟨none, calls⟩, stage⟩ (some (.called cell)) ⟨⟨none, calls + 1⟩, .building⟩
  /-- A call that ends with a parser puts it in place of whatever is held. -/
  | made {kept : Option Parser} {calls : Nat} {stage : RuleState} (parser : Parser) :
      Step cell ⟨⟨kept, calls + 1⟩, stage⟩ (some (.made cell parser)) ⟨⟨some parser, calls⟩, .ready⟩
  /-- A call that ends without a parser leaves whatever is held, but the stage does not say so. -/
  | failed {kept : Option Parser} {calls : Nat} {stage : RuleState} :
      Step cell ⟨⟨kept, calls + 1⟩, stage⟩ (some (.failed cell)) ⟨⟨kept, calls⟩, .unbuilt⟩
  /-- What is returned without a call is what is held. -/
  | reused {parser : Parser} {calls : Nat} {stage : RuleState} :
      Step cell ⟨⟨some parser, calls⟩, stage⟩ (some (.reused cell parser))
        ⟨⟨some parser, calls⟩, stage⟩
  /-- Other lazy parsers do not matter. -/
  | other {posture : Posture} {entry : Entry} (h : entry.cell ≠ cell) :
      Step cell posture (some entry) posture

/-- The stage apart, this is what the journal tells. -/
theorem Posture.Step.standing {cell : CellId} {before after : Posture} {entry : Entry}
    (h : Posture.Step cell before (some entry) after) :
    Standing.Step cell before.toStanding entry after.toStanding := by
  cases h with
  | called => exact .called
  | made parser => exact .made parser
  | failed => exact .failed
  | reused => exact .reused
  | other h => exact .other h

/-- What is to be seen of a lazy parser in a store, if so many calls of its function are in
progress. -/
def Store.posture (store : Store) (cell : CellId) (calls : Nat) : Posture :=
  ⟨⟨store.stored cell, calls⟩, store.stage cell⟩

/-- What leaves lazy parsers as they are leaves them to be seen as they were. -/
theorem Store.Spares.posture {store after : Store} (h : store.Spares after) (cell : CellId)
    (calls : Nat) : after.posture cell calls = store.posture cell calls := by
  unfold Store.posture
  rw [h.stored, h.stage]

/-- A change to one lazy parser leaves the others to be seen as they were. -/
theorem Store.posture_modifyCell_of_ne {store : Store} {id cell : CellId} (h : id ≠ cell)
    (change : Cell → Cell) (calls : Nat) :
    (store.modifyCell id change).posture cell calls = store.posture cell calls := by
  unfold posture
  rw [stage_modifyCell_of_ne h, stored, cell?_modifyCell, if_neg h, stored]

/-! ## Films -/

/-- How a film changes what is to be seen of a lazy parser. -/
inductive Plays (cell : CellId) : Posture → List Scene → Posture → Prop where
  /-- Nothing happens. -/
  | nil (posture : Posture) : Plays cell posture [] posture
  /-- A scene that shows the lazy parser as it is then, and others after it. -/
  | cons {before after : Posture} {scene : Scene} {rest : List Scene} {calls : Nat}
      (step : Posture.Step cell before scene.recorded? (scene.store.posture cell calls))
      (next : Plays cell (scene.store.posture cell calls) rest after) :
      Plays cell before (scene :: rest) after

namespace Plays

variable {cell : CellId} {before middle after : Posture} {first second scenes : List Scene}

/-- One scene. -/
theorem single {scene : Scene} {calls : Nat}
    (h : Posture.Step cell before scene.recorded? (scene.store.posture cell calls)) :
    Plays cell before [scene] (scene.store.posture cell calls) := .cons h (.nil _)

/-- One film after another. -/
theorem append (h : Plays cell before first middle) (h' : Plays cell middle second after) :
    Plays cell before (first ++ second) after := by
  induction h with
  | nil => exact h'
  | cons step _ ih => exact .cons step (ih h')

/-- A film can be stopped anywhere. -/
theorem exists_of_append (h : Plays cell before (first ++ second) after) :
    ∃ middle, Plays cell before first middle ∧ Plays cell middle second after := by
  induction first generalizing before with
  | nil => exact ⟨before, .nil before, h⟩
  | cons scene rest ih =>
    cases h with
    | cons step next =>
      obtain ⟨middle, hrest, hsecond⟩ := ih next
      exact ⟨middle, .cons step hrest, hsecond⟩

/-- The journal of a film says what the film shows. -/
theorem tracks (h : Plays cell before scenes after) :
    Tracks cell before.toStanding (Scene.journal scenes) after.toStanding := by
  induction h with
  | nil => exact .nil _
  | @cons before after scene rest calls step _ ih =>
    unfold Scene.journal at ih ⊢
    cases hentry : scene.recorded? with
    | none =>
      rw [List.filterMap_cons_none hentry]
      rw [hentry] at step
      cases step
      exact ih
    | some entry =>
      rw [List.filterMap_cons_some hentry]
      rw [hentry] at step
      exact .cons step.standing ih

/-- The calls in progress are those that the journal tells of. -/
theorem calls_eq (h : Plays cell before scenes after) (hcalls : before.calls = 0) :
    after.calls = callsIn cell (Scene.journal scenes) := h.tracks.calls_eq hcalls

/-- The last scene of a film shows what is to be seen of a lazy parser at the end. -/
theorem exists_of_append_singleton {scene : Scene}
    (h : Plays cell before (first ++ [scene]) after) :
    ∃ middle, Plays cell before first middle ∧ Posture.Step cell middle scene.recorded? after ∧
      after = scene.store.posture cell after.calls := by
  obtain ⟨middle, hfirst, hlast⟩ := h.exists_of_append
  cases hlast with
  | cons step next =>
    cases next
    exact ⟨middle, hfirst, step, rfl⟩

end Plays

/-! ## Computations -/

namespace Film

/-- The film of what was done in a store shows a lazy parser as the stores have it. The calls of its
function that were in progress are in progress still. -/
def Shown (cell : CellId) (store : Store) (calls : Nat) {α : Type} :
    Option (Except Raised α × Store) × List Scene → Prop
  | (none, scenes) => ∃ posture, Plays cell (store.posture cell calls) scenes posture
  | (some (_, after), scenes) =>
      ((store.cell? cell).isSome → (after.cell? cell).isSome) ∧
        Plays cell (store.posture cell calls) scenes (after.posture cell calls)

/-- The film of a computation shows a lazy parser as the stores have it. -/
def Shows (cell : CellId) {α : Type} (film : Film α) : Prop :=
  ∀ store calls, Shown cell store calls (film.on store)

variable {cell : CellId} {α β : Type}

/-- In a computation that gives no answer at once, nothing happens. -/
theorem Shows.diverge : (quiet Eval.diverge : Film α).Shows cell :=
  fun _ _ => ⟨_, .nil _⟩

theorem Shows.pure (result : α) : (Pure.pure result : Film α).Shows cell :=
  fun _ _ => ⟨fun hsome => hsome, .nil _⟩

/-- A computation that leaves lazy parsers as they are is filmed in one scene. -/
theorem Shows.of_spares {computation : Eval α}
    (h : ∀ store ended after, computation.on store = some (ended, after) → store.Spares after) :
    (liftM computation : Film α).Shows cell := by
  intro store calls
  rw [quiet_on]
  cases hon : computation.on store with
  | none => exact ⟨_, .nil _⟩
  | some outcome =>
    obtain ⟨ended, after⟩ := outcome
    have hspares := h store ended after hon
    refine ⟨hspares.isSome_cell?, .single ?_⟩
    rw [hspares.posture]
    exact .still

/-- What an engine does by itself leaves every lazy parser as it is. -/
theorem Shows.basic {computation : Eval α} (h : computation.Basic) :
    (liftM computation : Film α).Shows cell :=
  .of_spares fun _ _ _ hon => (h.opens hon).spares

theorem Shows.bind {first : Film α} {next : α → Film β} (h : first.Shows cell)
    (hnext : ∀ result, (next result).Shows cell) : (first >>= next).Shows cell := by
  intro store calls
  have hfirst := h store calls
  rw [bind_on]
  generalize first.on store = done at hfirst ⊢
  rcases done with ⟨_ | ⟨cause | result, middle⟩, scenes⟩
  · exact hfirst
  · exact hfirst
  · obtain ⟨hsome, hplays⟩ := hfirst
    have hsecond := hnext result middle calls
    -- the films follow one another, whether the second comes to an end or not
    show Shown cell store calls
      (((next result).on middle).1, scenes ++ ((next result).on middle).2)
    generalize (next result).on middle = done at hsecond ⊢
    rcases done with ⟨_ | ⟨ended, after⟩, rest⟩
    · obtain ⟨posture, hrest⟩ := hsecond
      exact ⟨posture, hplays.append hrest⟩
    · obtain ⟨hsome', hrest⟩ := hsecond
      exact ⟨fun hthere => hsome' (hsome hthere), hplays.append hrest⟩

/-- Putting computations together keeps this up. -/
theorem compatible_shows : Engine.Compatible fun α (film _ : Film α) => film.Shows cell where
  pure := .pure
  basic := .basic
  bind := .bind

/-- The scene of the end of a run shows every lazy parser as it is. -/
theorem Shows.asRun {computation : Film Result} (h : computation.Shows cell) (parser : Parser)
    (source : Source) (start : Position) :
    (asRun parser source start computation).Shows cell := by
  intro store calls
  exact asRun_of (h store calls) fun result after scenes hdone =>
    ⟨hdone.1, hdone.2.append (.single .still)⟩

/-! ## Lazy parsers -/

/-- One call more if it is of the function of the lazy parser that is looked at. -/
def callsOf (cell id : CellId) (calls : Nat) : Nat := if id = cell then calls + 1 else calls

/-- When a lazy parser that holds nothing begins to be made, its function is called. -/
theorem step_called (cell : CellId) {store : Store} {id : CellId}
    (hthere : (store.cell? id).isSome) (hunmade : store.stored id = none) (record : Record)
    (calls : Nat) :
    Posture.Step cell (store.posture cell calls) (some (.called id))
      (((store.log record).setState id .building).posture cell (callsOf cell id calls)) := by
  have hlog : store.Spares (store.log record) := (Store.opens_log store record).spares
  by_cases hid : id = cell
  · subst hid
    unfold Store.posture
    rw [callsOf, if_pos rfl, Store.stored_setState, Store.stored_log, hunmade,
      Store.stage_setState (hlog.isSome_cell? hthere)]
    exact .called
  · rw [callsOf, if_neg hid, Store.setState, Store.posture_modifyCell_of_ne hid, hlog.posture]
    exact .other hid

/-- When the function of a lazy parser has ended, its parser is put in place, or else nothing. -/
theorem step_ending {store : Store} {id : CellId} (hthere : id = cell → (store.cell? id).isSome)
    (name : String) (ended : Except Raised (Object Parser)) (calls : Nat) :
    Posture.Step cell (store.posture cell (callsOf cell id calls)) (some (ending id ended))
      ((Engine.settle id name (ended, store)).2.posture cell calls) := by
  by_cases hparser : ∃ p, ended = .ok (.parser p)
  · obtain ⟨p, rfl⟩ := hparser
    rw [Engine.settle_made, (Store.opens_log _ _).spares.posture]
    by_cases hid : id = cell
    · subst hid
      unfold Store.posture
      rw [callsOf, if_pos rfl, Store.stored_setParser (hthere rfl),
        Store.stage_setParser (hthere rfl)]
      exact .made p
    · rw [callsOf, if_neg hid, Store.setParser, Store.posture_modifyCell_of_ne hid]
      exact .other hid
  -- without a parser the call has failed, and every lazy parser holds what it held
  · obtain ⟨cause, hsettle⟩ := Engine.settle_of_ne id name (not_exists.mp hparser) store
    rw [ending_of_ne id (not_exists.mp hparser), hsettle]
    by_cases hid : id = cell
    · subst hid
      unfold Store.posture
      rw [callsOf, if_pos rfl, Store.stored_setState, Store.stage_setState (hthere rfl)]
      exact .failed
    · rw [callsOf, if_neg hid, Store.setState, Store.posture_modifyCell_of_ne hid]
      exact .other hid

/-- What the function of a lazy parser shows, between its beginning and its end, makes what the film
of making the lazy parser shows. -/
theorem Shown.assembled {store : Store} {id : CellId} {calls : Nat} {record : Record}
    {done : Option (Except Raised (Object Parser) × Store) × List Scene} (name : String)
    (hunmade : store.stored id = none) (hthere : (store.cell? id).isSome)
    (h : Shown cell ((store.log record).setState id .building) (callsOf cell id calls) done) :
    Shown cell store calls
      (done.1.map (Engine.settle id name),
        ⟨.entry (.called id), (store.log record).setState id .building⟩
          :: (done.2 ++ endings id name done.1)) := by
  have hcalled := step_called cell hthere hunmade record calls
  have hsome : (store.cell? cell).isSome →
      (((store.log record).setState id .building).cell? cell).isSome := by
    intro hin
    rw [Store.setState, Store.isSome_cell?_modifyCell]
    exact (Store.opens_log _ _).isSome_cell? hin
  rcases done with ⟨_ | ⟨ended, after⟩, scenes⟩
  · obtain ⟨posture, hscenes⟩ := h
    refine ⟨posture, .cons hcalled ?_⟩
    rw [endings, List.append_nil]
    exact hscenes
  · obtain ⟨hstill, hscenes⟩ := h
    have hthere' : id = cell → (after.cell? id).isSome := by
      rintro rfl
      exact hstill (hsome hthere)
    exact ⟨fun hin => Store.isSome_cell?_settle id name ended (hstill (hsome hin)),
      .cons hcalled (hscenes.append (.single (step_ending hthere' name ended calls)))⟩

/-- The film of making a lazy parser shows every lazy parser as the stores have it. -/
theorem shows_assemble {engine : Engine Film}
    (h : ∀ action : Action (Object Parser), (engine.perform action).Shows cell) (id : CellId) :
    (assemble engine id).Shows cell := by
  intro store calls
  cases hid : store.cell? id with
  | none =>
    rw [assemble_of_none hid]
    exact ⟨_, .nil _⟩
  | some found =>
    have hstored := Store.stored_of_cell? hid
    have hthere := Option.isSome_of_eq_some hid
    obtain ⟨name, state, make, _ | parser⟩ := found
    · rw [assemble_of_unmade hid]
      exact .assembled name hstored hthere (h make.action _ _)
    · rw [assemble_of_made hid]
      refine ⟨fun hin => hin, .single ?_⟩
      by_cases heq : id = cell
      · subst heq
        unfold Store.posture
        rw [hstored]
        exact .reused
      · exact .other heq

/-! ## Engines and sessions -/

/-- The films of engines show every lazy parser as the stores have it. -/
theorem related_shows (cell : CellId) (depth : Nat) :
    Engine.Related (fun _ (film _ : Film _) => film.Shows cell) (upTo depth) (upTo depth) := by
  induction depth with
  | zero => exact ⟨fun _ _ _ => .diverge, fun _ => .diverge⟩
  | succ depth ih =>
    exact ⟨fun parser source place => (ih.step compatible_shows parser source place).asRun _ _ _,
      shows_assemble (ih.perform compatible_shows)⟩

/-- So do those of deeds. -/
theorem shows_apply (cell : CellId) (depth : Nat) (deed : Deed) :
    (deed.apply (upTo depth)).Shows cell := by
  cases deed with
  | operate operation => exact operation.related compatible_shows (related_shows cell depth)
  | shelve name object =>
    refine .of_spares fun store ended after hon => ?_
    cases hon
    exact Store.spares_shelve store name object
  | defineClass name bases initialises members =>
    refine .of_spares fun store ended after hon => ?_
    rcases Store.defineClass_or_eq hon with hdefine | rfl
    · exact Store.spares_defineClass hdefine
    · exact .refl _

end Film

/-- A film of deeds shows a lazy parser as the stores have it. -/
theorem plays_ofDeeds (cell : CellId) (depth : Nat) (deeds : List Deed) (store : Store) :
    ∃ posture, Plays cell (store.posture cell 0) (Film.ofDeeds (Film.upTo depth) deeds store)
      posture := by
  induction deeds generalizing store with
  | nil => exact ⟨_, .nil _⟩
  | cons deed rest ih =>
    have hdone := Film.shows_apply cell depth deed store 0
    unfold Film.ofDeeds
    generalize (deed.apply (Film.upTo depth)).on store = done at hdone ⊢
    rcases done with ⟨_ | ⟨ended, after⟩, scenes⟩
    · exact hdone
    · -- whether it ended with a result or with an error, the next deed goes on from there
      obtain ⟨posture, hrest⟩ := ih after
      exact ⟨posture, hdone.2.append hrest⟩

/-- At the beginning of a session there are no lazy parsers. -/
def Posture.absent : Posture := ⟨⟨none, 0⟩, .unbuilt⟩

theorem Store.posture_initial (logging : Bool) (cell : CellId) :
    (Store.initial logging).posture cell 0 = .absent := by
  have hnone : (Store.initial logging).cell? cell = none := cell?_of_size_le _ (Nat.zero_le _)
  unfold posture stored stage cellAt
  rw [hnone]
  rfl

/-- The film of a session shows a lazy parser as the stores have it. -/
theorem plays_ofSession (cell : CellId) (depth : Nat) (logging : Bool) (deeds : List Deed) :
    ∃ posture, Plays cell .absent (Film.ofSession depth logging deeds) posture := by
  obtain ⟨posture, hdeeds⟩ := plays_ofDeeds cell depth deeds (Store.initial logging)
  refine ⟨posture, .cons ?_ hdeeds⟩
  rw [Store.posture_initial]
  exact .still

end Descent
