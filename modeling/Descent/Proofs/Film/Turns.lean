import Descent.Proofs.Film.Erases
import Descent.Proofs.Store.Created
import Descent.Proofs.Store.Opens
import Descent.Proofs.Store.Written

/-! # What a scene can change

Everything that happens in a run or in a session happens in one of a few ways, and each of them
changes the store, the log included, in its own way only. Whatever is true of a film follows from
these.

* **`Record.isReport`** — the entries of the log about sources. The others are about lazy parsers.
* **`Store.Turns`** — what can happen in a store, and the store that it leaves.
* **`Reel`** — scenes of which each happens in the store that the one before left.
* **`Film.reels_upTo`** — main statement: the films of runs are such scenes, and no sources are
  reported in them.
* **`Film.reel_ofSession`** — so are the films of sessions, where sources are reported. -/

namespace Descent

/-- Whether an entry of the log says what became of a source. -/
def Record.isReport : Record → Bool
  | .matched .. | .failed .. => true
  | .building .. | .ready .. => false

/-- What becomes of a source is reported as such. -/
theorem Record.isReport_ofResult {source : Source} {result : Result} {record : Record}
    (h : Record.ofResult source result = .ok record) : record.isReport = true := by
  cases result with
  | matched stop value =>
    cases h
    rfl
  | failed failure =>
    obtain ⟨wording, -, rfl⟩ := Store.exists_of_map_eq_ok h
    rfl

/-- What can happen in a store, and the store that it leaves. Of entries about sources only those
are made that are among the `reports`. -/
inductive Store.Turns (reports : Record → Prop) (before : Store) : Happening → Store → Prop where
  /-- Something that concerns neither the lazy parsers that there are nor the log. -/
  | quiet {after : Store} (hspares : before.Spares after) (hlog : before.Unwritten after) :
      Turns reports before .quiet after
  /-- An entry of the log is made for a source. -/
  | reported {record : Record} (hrecord : reports record) :
      Turns reports before .quiet (before.log record)
  /-- A parser has been run. -/
  | ran (parser : Parser) (source : Source) (start : Position) (result : Result) :
      Turns reports before (.ran parser source start result) before
  /-- The function of a lazy parser that holds nothing is called. -/
  | called {id : CellId} {found : Cell} (hcell : before.cell? id = some found)
      (hnone : found.parser = none) :
      Turns reports before (.entry (.called id))
        ((before.log (.building found.name found.state)).setState id .building)
  /-- It ends with a parser, which is put in place. -/
  | made {id : CellId} {found : Cell} (hcell : before.cell? id = some found) (parser : Parser) :
      Turns reports before (.entry (.made id parser))
        ((before.setParser id parser).log (.ready found.name))
  /-- It ends without one. -/
  | failed {id : CellId} {found : Cell} (hcell : before.cell? id = some found) :
      Turns reports before (.entry (.failed id)) (before.setState id .unbuilt)
  /-- The parser that a lazy parser holds is returned. -/
  | reused {id : CellId} {found : Cell} {parser : Parser} (hcell : before.cell? id = some found)
      (hparser : found.parser = some parser) :
      Turns reports before (.entry (.reused id parser)) before

/-- Scenes one after another. Each happens in the store that the one before left. -/
inductive Reel (reports : Record → Prop) : Store → List Scene → Store → Prop where
  /-- Nothing happens. -/
  | nil (store : Store) : Reel reports store [] store
  /-- One thing happens, then others. -/
  | cons {before after : Store} {scene : Scene} {rest : List Scene}
      (turn : before.Turns reports scene.happening scene.store)
      (next : Reel reports scene.store rest after) : Reel reports before (scene :: rest) after

/-! ## One scene -/

namespace Store

variable {store : Store} {id : CellId} {found : Cell}

theorem still_modifyCell (hcell : store.cell? id = some found) (other : CellId)
    (change : Cell → Cell) (hchange : ∀ cell : Cell, cell.Still (change cell)) :
    ∃ later, (store.modifyCell other change).cell? id = some later ∧ found.Still later :=
  (grows_modifyCell store other change (fun cell => .refl cell) hchange).cell id found hcell

theorem still_setState (hcell : store.cell? id = some found) (other : CellId) (state : RuleState) :
    ∃ later, (store.setState other state).cell? id = some later ∧ found.Still later :=
  still_modifyCell hcell other (fun old => { old with state := state }) fun _ => ⟨rfl, rfl⟩

/-- That a function is called is one entry of the log. -/
theorem writes_called (store : Store) (id : CellId) (name : String) (state : RuleState) :
    store.Writes ((store.log (.building name state)).setState id .building)
      [.building name state] := by
  have hwrites := (writes_log store (.building name state)).trans
    (unwritten_modifyCell _ id fun old => { old with state := .building }).writes
  exact hwrites

/-- That it has ended with a parser is another one. -/
theorem writes_made (store : Store) (id : CellId) (parser : Parser) (name : String) :
    store.Writes ((store.setParser id parser).log (.ready name)) [.ready name] := by
  have hset := unwritten_modifyCell store id
    fun old => { old with state := .ready, parser := some parser }
  exact hset.writes.trans (writes_log _ _)

end Store

namespace Store.Turns

variable {reports : Record → Prop} {before after : Store} {happening : Happening}

/-- A lazy parser keeps its name and its function. -/
theorem still (h : before.Turns reports happening after) {id : CellId} {found : Cell}
    (hcell : before.cell? id = some found) :
    ∃ later, after.cell? id = some later ∧ found.Still later := by
  cases h with
  | quiet hspares hunwritten => exact ⟨found, hspares.cell id found hcell, .refl found⟩
  | @reported record hrecord => exact ⟨found, (cell?_log ..).trans hcell, .refl found⟩
  | ran | reused => exact ⟨found, hcell, .refl found⟩
  | called => exact still_setState ((cell?_log ..).trans hcell) _ _
  | @made other there _ parser =>
    obtain ⟨later, hlater, hstill⟩ := still_modifyCell hcell other
      (fun old => { old with state := .ready, parser := some parser }) fun _ => ⟨rfl, rfl⟩
    exact ⟨later, (cell?_log ..).trans hlater, hstill⟩
  | failed => exact still_setState hcell _ _

/-- What is written about sources is among the reports. -/
theorem exists_writes (h : before.Turns reports happening after) :
    ∃ records, before.Writes after records ∧
      ∀ record ∈ records, record.isReport = true → reports record := by
  cases h with
  | quiet _ hlog => exact ⟨[], hlog.writes, nofun⟩
  | @reported record hrecord =>
    refine ⟨[record], writes_log before record, fun other hother _ => ?_⟩
    rw [List.mem_singleton.mp hother]
    exact hrecord
  | ran | reused => exact ⟨[], (Unwritten.refl before).writes, nofun⟩
  | called =>
    refine ⟨_, writes_called before _ _ _, fun record hrecord hreport => ?_⟩
    rw [List.mem_singleton.mp hrecord] at hreport
    cases hreport
  | made =>
    refine ⟨_, writes_made before _ _ _, fun record hrecord hreport => ?_⟩
    rw [List.mem_singleton.mp hrecord] at hreport
    cases hreport
  | failed => exact ⟨[], (unwritten_modifyCell before _ _).writes, nofun⟩

end Store.Turns

/-- What an engine does by itself in a run is a quiet scene. -/
theorem Eval.Inner.turns {α : Type} {computation : Eval α} (h : computation.Inner)
    {store after : Store} {ended : Except Raised α}
    (hon : computation.on store = some (ended, after)) (reports : Record → Prop) :
    store.Turns reports .quiet after := .quiet (h.basic.opens hon).spares (h.unwritten hon)

/-- So is all that it does by itself, where sources are reported. -/
theorem Eval.Basic.turns {α : Type} {computation : Eval α} (h : computation.Basic)
    {store after : Store} {ended : Except Raised α}
    (hon : computation.on store = some (ended, after)) :
    store.Turns (·.isReport = true) .quiet after := by
  cases h with
  | raise cause => exact (Inner.raise cause).turns hon _
  | note event => exact (Inner.note event).turns hon _
  | addCell language name make => exact (Inner.addCell language name make).turns hon _
  | read view => exact (Inner.read view).turns hon _
  | consult view => exact (Inner.consult view).turns hon _
  | create className arguments rules => exact (Inner.create className arguments rules).turns hon _
  | count counter => exact (Inner.count counter).turns hon _
  | logResult source result =>
    rcases attempt_on_eq_some hon with ⟨done, hlog, -⟩ | ⟨-, -, rfl⟩
    · rcases Store.logResult_eq_ok hlog with ⟨-, record, hrecord, rfl⟩ | ⟨-, rfl⟩
      · exact .reported (Record.isReport_ofResult hrecord)
      · exact .quiet (.of_instances_eq rfl) (.refl _)
    · exact .quiet (.of_instances_eq rfl) (.refl _)

/-! ## Many scenes -/

namespace Reel

variable {reports : Record → Prop} {before middle after : Store}
  {first second scenes : List Scene}

theorem single {happening : Happening} (h : before.Turns reports happening after) :
    Reel reports before [⟨happening, after⟩] after := .cons h (.nil after)

/-- One reel after another. -/
theorem append (h : Reel reports before first middle) (h' : Reel reports middle second after) :
    Reel reports before (first ++ second) after := by
  induction h with
  | nil => exact h'
  | cons turn _ ih => exact .cons turn (ih h')

/-- A reel can be stopped anywhere. -/
theorem exists_of_append (h : Reel reports before (first ++ second) after) :
    ∃ middle, Reel reports before first middle ∧ Reel reports middle second after := by
  induction first generalizing before with
  | nil => exact ⟨before, .nil before, h⟩
  | cons scene rest ih =>
    cases h with
    | cons turn next =>
      obtain ⟨middle, hrest, hsecond⟩ := ih next
      exact ⟨middle, .cons turn hrest, hsecond⟩

/-- Every scene shows the store that is left when it is over. -/
theorem of_append_cons {scene : Scene} (h : Reel reports before (first ++ scene :: second) after) :
    Reel reports before (first ++ [scene]) scene.store ∧
      Reel reports scene.store second after := by
  obtain ⟨middle, hfirst, hrest⟩ := h.exists_of_append
  cases hrest with
  | cons turn next => exact ⟨hfirst.append (.single turn), next⟩

/-- A lazy parser keeps its name and its function. -/
theorem still (h : Reel reports before scenes after) {id : CellId} {found : Cell}
    (hcell : before.cell? id = some found) :
    ∃ later, after.cell? id = some later ∧ found.Still later := by
  induction h generalizing found with
  | nil => exact ⟨found, hcell, .refl found⟩
  | cons turn _ ih =>
    obtain ⟨later, hlater, hstill⟩ := turn.still hcell
    obtain ⟨last, hlast, hstill'⟩ := ih hlater
    exact ⟨last, hlast, hstill.trans hstill'⟩

/-- What is written about sources is among the reports. -/
theorem exists_writes (h : Reel reports before scenes after) :
    ∃ records, before.Writes after records ∧
      ∀ record ∈ records, record.isReport = true → reports record := by
  induction h with
  | nil store => exact ⟨[], (Store.Unwritten.refl store).writes, nofun⟩
  | cons turn _ ih =>
    obtain ⟨early, hearly, hfirst⟩ := turn.exists_writes
    obtain ⟨late, hlate, hrest⟩ := ih
    refine ⟨early ++ late, hearly.trans hlate, fun record hrecord => ?_⟩
    rcases List.mem_append.mp hrecord with hin | hin
    · exact hfirst record hin
    · exact hrest record hin

end Reel

/-! ## Films -/

namespace Film

variable {reports : Record → Prop} {α β : Type}

/-- What was done in a store, scene by scene, up to the store that was left. -/
def Reeled (reports : Record → Prop) (store : Store) :
    Option (Except Raised α × Store) × List Scene → Prop
  | (none, scenes) => ∃ last, Reel reports store scenes last
  | (some (_, after), scenes) => Reel reports store scenes after

/-- The scenes of a film follow from one another. -/
def Reels (reports : Record → Prop) (film : Film α) : Prop :=
  ∀ store, Reeled reports store (film.on store)

/-- A computation whose stores are known is filmed in one scene. -/
theorem Reels.of_turns {computation : Eval α}
    (h : ∀ store ended after, computation.on store = some (ended, after) →
      store.Turns reports .quiet after) : (liftM computation : Film α).Reels reports := by
  intro store
  rw [quiet_on]
  cases hon : computation.on store with
  | none => exact ⟨store, .nil store⟩
  | some outcome => exact .single (h store _ _ hon)

theorem Reels.diverge : (quiet Eval.diverge : Film α).Reels reports :=
  fun store => ⟨store, .nil store⟩

theorem Reels.pure (result : α) : (Pure.pure result : Film α).Reels reports := .nil

theorem Reels.bind {first : Film α} {next : α → Film β} (h : first.Reels reports)
    (hnext : ∀ result, (next result).Reels reports) : (first >>= next).Reels reports := by
  intro store
  have hfirst := h store
  rw [bind_on]
  generalize first.on store = done at hfirst ⊢
  rcases done with ⟨_ | ⟨cause | result, middle⟩, scenes⟩
  · exact hfirst
  · exact hfirst
  · have hsecond := hnext result middle
    -- the scenes follow one another, whether the second comes to an end or not
    show Reeled reports store
      (((next result).on middle).1, scenes ++ ((next result).on middle).2)
    generalize (next result).on middle = done at hsecond ⊢
    rcases done with ⟨_ | ⟨ended, after⟩, rest⟩
    · obtain ⟨last, hrest⟩ := hsecond
      exact ⟨last, Reel.append hfirst hrest⟩
    · exact Reel.append hfirst hsecond

/-- Putting computations together keeps this up. -/
theorem composable_reels :
    Engine.Composable fun α (film _ : Film α) => film.Reels reports where
  pure := .pure
  inner h := .of_turns fun _ _ _ hon => h.turns hon reports
  bind := .bind

/-- So does reporting sources, where that may be done. -/
theorem compatible_reels :
    Engine.Compatible fun α (film _ : Film α) => film.Reels (·.isReport = true) where
  pure := .pure
  basic h := .of_turns fun _ _ _ hon => h.turns hon
  bind := .bind

/-- The scene of the end of a run changes nothing. -/
theorem Reels.asRun {computation : Film Result} (h : computation.Reels reports) (parser : Parser)
    (source : Source) (start : Position) :
    (asRun parser source start computation).Reels reports := by
  intro store
  exact asRun_of (h store) fun result after scenes hdone =>
    Reel.append hdone (.single (.ran parser source start result))

/-- When the function of a lazy parser has ended, its parser is put in place, or else nothing. -/
theorem turns_ending {store : Store} {id : CellId} {found : Cell}
    (hcell : store.cell? id = some found) (ended : Except Raised (Object Parser)) :
    store.Turns reports (.entry (ending id ended))
      (Engine.settle id found.name (ended, store)).2 := by
  by_cases hparser : ∃ p, ended = .ok (.parser p)
  · obtain ⟨p, rfl⟩ := hparser
    exact .made hcell p
  · obtain ⟨cause, hsettle⟩ := Engine.settle_of_ne id found.name (not_exists.mp hparser) store
    rw [ending_of_ne id (not_exists.mp hparser), hsettle]
    exact .failed hcell

/-- The scenes of making a lazy parser follow from one another if those of its function do. -/
theorem reels_assemble {engine : Engine Film}
    (h : ∀ action : Action (Object Parser), (engine.perform action).Reels reports) (id : CellId) :
    (assemble engine id).Reels reports := by
  intro store
  cases hcell : store.cell? id with
  | none =>
    rw [assemble_of_none hcell]
    exact ⟨store, .nil store⟩
  | some found =>
    obtain ⟨name, state, make, _ | parser⟩ := found
    · rw [assemble_of_unmade hcell]
      have hcalled : store.Turns reports (.entry (.called id))
          ((store.log (.building name state)).setState id .building) := .called hcell rfl
      have hmade := h make.action ((store.log (.building name state)).setState id .building)
      simp only
      generalize (engine.perform make.action).on _ = done at hmade ⊢
      rcases done with ⟨_ | ⟨ended, middle⟩, scenes⟩
      · obtain ⟨last, hscenes⟩ := hmade
        rw [endings, List.append_nil]
        exact ⟨last, .cons hcalled hscenes⟩
      · -- it still has the name that it had when its function was called
        obtain ⟨between, hbetween, hstill⟩ := hcalled.still hcell
        obtain ⟨later, hlater, hstill'⟩ := Reel.still hmade hbetween
        have hname : later.name = name := (hstill.trans hstill').name
        have hended : middle.Turns reports _ _ := turns_ending hlater ended
        rw [hname] at hended
        exact Reel.cons hcalled (Reel.append hmade (.single hended))
    · rw [assemble_of_made hcell]
      exact .single (.reused hcell rfl)

/-- The scenes of a run follow from one another, and no sources are reported. -/
theorem reels_upTo (reports : Record → Prop) (depth : Nat) :
    Engine.Related (fun _ (film _ : Film _) => film.Reels reports) (upTo depth) (upTo depth) := by
  induction depth with
  | zero => exact ⟨fun _ _ _ => .diverge, fun _ => .diverge⟩
  | succ depth ih =>
    exact ⟨fun parser source place =>
        (composable_reels.step ih parser source place).asRun _ _ _,
      reels_assemble fun action => composable_reels.perform ih action⟩

/-- So do the scenes of a deed, but sources may be reported. -/
theorem reels_apply (depth : Nat) (deed : Deed) :
    (deed.apply (upTo depth)).Reels (·.isReport = true) := by
  cases deed with
  | operate operation => exact operation.related compatible_reels (reels_upTo _ depth)
  | shelve name object =>
    refine .of_turns fun store ended after hon => ?_
    cases hon
    exact .quiet (Store.spares_shelve store name object) (Store.unwritten_shelve store name object)
  | defineClass name bases initialises members =>
    refine .of_turns fun store ended after hon => ?_
    rcases Store.defineClass_or_eq hon with hdefine | rfl
    · exact .quiet (Store.spares_defineClass hdefine) (Store.unwritten_defineClass hdefine)
    · exact .quiet (.refl _) (.refl _)

/-- The scenes of deeds one after another follow from one another. -/
theorem reel_ofDeeds (depth : Nat) (deeds : List Deed) (store : Store) :
    ∃ last, Reel (·.isReport = true) store (ofDeeds (upTo depth) deeds store) last := by
  induction deeds generalizing store with
  | nil => exact ⟨store, .nil store⟩
  | cons deed rest ih =>
    have hdone := reels_apply depth deed store
    unfold ofDeeds
    generalize (deed.apply (upTo depth)).on store = done at hdone ⊢
    rcases done with ⟨_ | ⟨ended, after⟩, scenes⟩
    · exact hdone
    · obtain ⟨last, hrest⟩ := ih after
      exact ⟨last, Reel.append hdone hrest⟩

/-- The scenes of a session follow from one another. -/
theorem reel_ofSession (depth : Nat) (logging : Bool) (deeds : List Deed) :
    ∃ last, Reel (·.isReport = true) (Store.initial logging) (ofSession depth logging deeds)
      last := by
  obtain ⟨last, hdeeds⟩ := reel_ofDeeds depth deeds (Store.initial logging)
  exact ⟨last, .cons (.quiet (.of_instances_eq rfl) (.refl _)) hdeeds⟩

end Film

end Descent
