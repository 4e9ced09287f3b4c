import Descent.Engine.Depth
import Descent.Proofs.Alike.Classes
import Descent.Proofs.Alike.Engines

/-! # Stores in step

Two stores are in step if what is paired in them is made alike and has been made on both or on
neither. What is run on them goes through the same stages on both.

* **`Store.InStep`** — stores in step, where labels may differ if there is leeway in them.
* **`inStep`** — they remain so when something is added to both.
* **`Regime.Stepwise`** — a regime that may ask more of stores than that they are in step.
* **`Engine.mimics_stepwise`** — main statement: under such a regime, parsers that are alike end
  alike. -/

namespace Descent

/-- What is paired is made alike, and has been made on both stores or on neither. -/
structure Store.InStep (leeway : Leeway) (pairs : Pairing) (store store' : Store) : Prop where
  /-- What is paired is made alike. -/
  alike : store.Alike leeway pairs store'
  /-- Paired lazy parsers are in the same stage, and hold parsers that are alike, if any. -/
  cell : ∀ id id' : CellId, id.Pairs pairs id' → ∀ cell cell', store.cell? id = some cell →
    store'.cell? id' = some cell' → cell'.state = cell.state ∧
      Option.Rel (Parser.Alike leeway pairs) cell.parser cell'.parser
  /-- A lazy parser is paired with one at most. -/
  unique : ∀ id id₁ id₂ : CellId, id.Pairs pairs id₁ → id.Pairs pairs id₂ → id₁ = id₂
  /-- So it is the other way round. -/
  unique' : ∀ id₁ id₂ id' : CellId, id₁.Pairs pairs id' → id₂.Pairs pairs id' → id₁ = id₂
  /-- Counters answer the same. -/
  counters : ∀ counter, store'.countOf counter = store.countOf counter

namespace Store.InStep

variable {leeway : Leeway} {pairs larger : Pairing} {store store' after after' : Store}

/-- At the beginning stores are in step. -/
theorem initial (leeway : Leeway) (logging logging' : Bool) :
    (Store.initial logging).InStep leeway {(.className baseName, .className baseName)}
      (Store.initial logging') where
  alike := (DefinedAlike.initial leeway logging logging').alike
  cell := nofun
  unique := nofun
  unique' := nofun
  counters _ := rfl

/-- Stores in step are so the other way round. -/
theorem flip (h : store.InStep leeway pairs store') : store'.InStep leeway pairs.flip store where
  alike := h.alike.flip
  cell id id' hid cell cell' hcell hcell' := by
    obtain ⟨hstate, hparser⟩ := h.cell id' id hid cell' cell hcell' hcell
    exact ⟨hstate.symm, hparser.flip fun _ _ => Parser.Alike.flip⟩
  unique id id₁ id₂ h₁ h₂ := h.unique' id₁ id₂ id h₁ h₂
  unique' id₁ id₂ id' h₁ h₂ := h.unique id' id₁ id₂ h₁ h₂
  counters counter := (h.counters counter).symm

/-- A paired lazy parser is there. -/
theorem cell?_ne_none (h : store.InStep leeway pairs store') {id id' : CellId}
    (hid : id.Pairs pairs id') : store.cell? id ≠ none := by
  obtain ⟨cell, cell', hcell, -⟩ := h.alike.cell id id' hid
  rw [hcell]
  exact Option.some_ne_none cell

/-- Stores to which something is added stay in step if the lazy parsers that get paired are new
and have not been run. -/
theorem grow (h : store.InStep leeway pairs store') (hadds : Adds store after)
    (hadds' : Adds store' after')
    (hcounters : ∀ counter, after'.countOf counter = after.countOf counter)
    (hsub : pairs ⊆ larger) (halike : after.Alike leeway larger after')
    (hnew : ∀ id id' : CellId, id.Pairs larger id' → ¬ id.Pairs pairs id' →
      store.cell? id = none ∧ store'.cell? id' = none ∧
        (∀ cell, after.cell? id = some cell → cell.state = .unbuilt ∧ cell.parser = none) ∧
        ∀ cell', after'.cell? id' = some cell' → cell'.state = .unbuilt ∧ cell'.parser = none)
    (hunique : ∀ id id₁ id₂ : CellId, id.Pairs larger id₁ → ¬ id.Pairs pairs id₁ →
      id.Pairs larger id₂ → ¬ id.Pairs pairs id₂ → id₁ = id₂)
    (hunique' : ∀ id₁ id₂ id' : CellId, id₁.Pairs larger id' → ¬ id₁.Pairs pairs id' →
      id₂.Pairs larger id' → ¬ id₂.Pairs pairs id' → id₁ = id₂) :
    after.InStep leeway larger after' where
  alike := halike
  cell id id' hid cell cell' hcell hcell' := by
    by_cases hk : id.Pairs pairs id'
    · obtain ⟨old, old', hold, hold', -⟩ := h.alike.cell id id' hk
      rw [hadds.cell?_eq_some hold, Option.some.injEq] at hcell
      rw [hadds'.cell?_eq_some hold', Option.some.injEq] at hcell'
      subst hcell hcell'
      obtain ⟨hstate, hparser⟩ := h.cell id id' hk _ _ hold hold'
      exact ⟨hstate, hparser.imp fun _ _ hp => hp.mono hsub⟩
    · obtain ⟨-, -, hfresh, hfresh'⟩ := hnew id id' hid hk
      obtain ⟨hstate, hparser⟩ := hfresh cell hcell
      obtain ⟨hstate', hparser'⟩ := hfresh' cell' hcell'
      rw [hstate, hstate', hparser, hparser']
      exact ⟨rfl, .none⟩
  unique id id₁ id₂ h₁ h₂ := by
    -- a lazy parser that was paired before is not new
    by_cases hk₁ : id.Pairs pairs id₁
    · by_cases hk₂ : id.Pairs pairs id₂
      · exact h.unique id id₁ id₂ hk₁ hk₂
      · exact absurd (hnew id id₂ h₂ hk₂).1 (h.cell?_ne_none hk₁)
    · by_cases hk₂ : id.Pairs pairs id₂
      · exact absurd (hnew id id₁ h₁ hk₁).1 (h.cell?_ne_none hk₂)
      · exact hunique id id₁ id₂ h₁ hk₁ h₂ hk₂
  unique' id₁ id₂ id' h₁ h₂ := by
    by_cases hk₁ : id₁.Pairs pairs id'
    · by_cases hk₂ : id₂.Pairs pairs id'
      · exact h.unique' id₁ id₂ id' hk₁ hk₂
      · exact absurd (hnew id₂ id' h₂ hk₂).2.1 (h.flip.cell?_ne_none hk₁)
    · by_cases hk₂ : id₂.Pairs pairs id'
      · exact absurd (hnew id₁ id' h₁ hk₁).2.1 (h.flip.cell?_ne_none hk₂)
      · exact hunique' id₁ id₂ id' h₁ hk₁ h₂ hk₂
  counters := hcounters

/-- Stores to which something is added stay in step if their counters answer the same. -/
theorem of_adds (h : store.InStep leeway pairs store') (hadds : Adds store after)
    (hadds' : Adds store' after')
    (hcounters : ∀ counter, after'.countOf counter = after.countOf counter) :
    after.InStep leeway pairs after' :=
  h.grow hadds hadds' hcounters .rfl
    (h.alike.of_grows (.of_adds Cell.Still.refl hadds) (.of_adds Cell.Still.refl hadds'))
    (fun _ _ hid hk => absurd hid hk) (fun _ _ _ hid hk => absurd hid hk)
    fun _ _ _ hid hk => absurd hid hk

/-- New lazy parsers that are made alike may be paired. -/
theorem addCell (h : store.InStep leeway pairs store') {language language' : InstanceId}
    {name : String} {make make' : Maker}
    (hhome : (Reference.home language, Reference.home language') ∈ pairs)
    (hmake : MakersAlike leeway pairs make make') :
    (store.addCell language name make).2.InStep leeway
      (insert (.cell (store.addCell language name make).1,
        .cell (store'.addCell language' name make').1) pairs)
      (store'.addCell language' name make').2 := by
  have hadds := adds_addCell store language name make
  have hadds' := adds_addCell store' language' name make'
  obtain ⟨hlt, hlt'⟩ := h.alike.home language language' hhome
  have hcell := cell?_addCell hlt name make
  have hcell' := cell?_addCell hlt' name make'
  refine h.grow hadds hadds' h.counters (Set.subset_insert _ _) ?_ ?_ ?_ ?_
  · exact (h.alike.of_grows (.of_adds Cell.Still.refl hadds)
      (.of_adds Cell.Still.refl hadds')).paired hcell hcell' ⟨rfl, hmake.1, hmake.2⟩
  · intro id id' hid hk
    obtain ⟨rfl, rfl⟩ := eq_of_insert hid hk
    refine ⟨cell?_fst_addCell .., cell?_fst_addCell .., ?_, ?_⟩
    · intro cell hfound
      rw [hcell, Option.some.injEq] at hfound
      rw [← hfound]
      exact ⟨rfl, rfl⟩
    · intro cell hfound
      rw [hcell', Option.some.injEq] at hfound
      rw [← hfound]
      exact ⟨rfl, rfl⟩
  · intro id id₁ id₂ h₁ hk₁ h₂ hk₂
    rw [(eq_of_insert h₁ hk₁).2, (eq_of_insert h₂ hk₂).2]
  · intro id₁ id₂ id' h₁ hk₁ h₂ hk₂
    rw [(eq_of_insert h₁ hk₁).1, (eq_of_insert h₂ hk₂).1]

/-- New languages with rules that are made alike may be paired. -/
theorem create (h : store.InStep leeway pairs store') {language language' : InstanceId}
    {className : String} {arguments : Table Value} {added added' : Table (Owner → Maker)}
    (hclass : (Reference.className className, Reference.className className) ∈ pairs)
    (hadded : RulesAlike leeway pairs added added')
    (hcreate : store.create className arguments added = .ok (language, after))
    (hcreate' : store'.create className arguments added' = .ok (language', after')) :
    after.InStep leeway (after.pairLanguages pairs language language') after' := by
  have hadds := adds_create hcreate
  have hadds' := adds_create hcreate'
  obtain ⟨hlast, hcreated, hfresh⟩ := Created.of_create hcreate
  obtain ⟨hlast', hcreated', hfresh'⟩ := Created.of_create hcreate'
  refine h.grow hadds hadds' ?_ subset_pairLanguages ?_ ?_ ?_ ?_
  · obtain ⟨-, -, -, made, rfl, -⟩ := create_eq_ok hcreate
    obtain ⟨-, -, -, made', rfl, -⟩ := create_eq_ok hcreate'
    exact h.counters
  · exact (h.alike.of_grows (.of_adds Cell.Still.refl hadds)
      (.of_adds Cell.Still.refl hadds')).created hcreated hcreated' hclass hadded
  · intro id id' hid hk
    obtain ⟨index, rfl, rfl⟩ := exists_of_pairLanguages hid hk
    exact ⟨cell?_of_size_le store (Nat.le_of_eq hlast.symm),
      cell?_of_size_le store' (Nat.le_of_eq hlast'.symm), hfresh index, hfresh' index⟩
  · intro id id₁ id₂ h₁ hk₁ h₂ hk₂
    obtain ⟨index, rfl, rfl⟩ := exists_of_pairLanguages h₁ hk₁
    obtain ⟨index, e, rfl⟩ := exists_of_pairLanguages h₂ hk₂
    cases e
    rfl
  · intro id₁ id₂ id' h₁ hk₁ h₂ hk₂
    obtain ⟨index, rfl, rfl⟩ := exists_of_pairLanguages h₁ hk₁
    obtain ⟨index, rfl, e⟩ := exists_of_pairLanguages h₂ hk₂
    cases e
    rfl

/-- A change to paired lazy parsers that leads to the same stage and to parsers that are alike. -/
theorem modifyCell (h : store.InStep leeway pairs store') {id id' : CellId}
    (hid : id.Pairs pairs id') {change change' : Cell → Cell}
    (hstill : ∀ cell : Cell, cell.Still (change cell))
    (hstill' : ∀ cell : Cell, cell.Still (change' cell))
    (hchange : ∀ cell cell' : Cell, cell'.state = cell.state →
      Option.Rel (Parser.Alike leeway pairs) cell.parser cell'.parser →
      (change' cell').state = (change cell).state ∧
        Option.Rel (Parser.Alike leeway pairs) (change cell).parser (change' cell').parser) :
    (store.modifyCell id change).InStep leeway pairs (store'.modifyCell id' change') where
  alike := h.alike.of_grows (grows_modifyCell store id change Cell.Still.refl hstill)
    (grows_modifyCell store' id' change' Cell.Still.refl hstill')
  cell other other' hother cell cell' hcell hcell' := by
    rw [cell?_modifyCell] at hcell hcell'
    obtain ⟨old, old', hold, hold', -⟩ := h.alike.cell other other' hother
    rw [hold] at hcell
    rw [hold'] at hcell'
    obtain ⟨hstate, hparser⟩ := h.cell other other' hother old old' hold hold'
    -- the one lazy parser is changed just if the other one is
    by_cases hsame : id = other
    · have hsame' : id' = other' := h.unique id id' other' hid (hsame ▸ hother)
      rw [if_pos hsame, Option.map_some, Option.some.injEq] at hcell
      rw [if_pos hsame', Option.map_some, Option.some.injEq] at hcell'
      rw [← hcell, ← hcell']
      exact hchange old old' hstate hparser
    · have hsame' : id' ≠ other' := fun e => hsame (h.unique' id other id' hid (e ▸ hother))
      rw [if_neg hsame, Option.some.injEq] at hcell
      rw [if_neg hsame', Option.some.injEq] at hcell'
      rw [← hcell, ← hcell']
      exact ⟨hstate, hparser⟩
  unique := h.unique
  unique' := h.unique'
  counters := h.counters

/-- Stores stay in step while the same classes are defined on both. -/
theorem of_defined (h : store.InStep leeway pairs store')
    (hdefined : DefinedAlike leeway larger store store' after after') (hsub : pairs ⊆ larger)
    (hpairs : ∀ id id' : CellId, id.Pairs larger id' → id.Pairs pairs id') :
    after.InStep leeway larger after' where
  alike := hdefined.alike
  cell id id' hid cell cell' hcell hcell' := by
    unfold cell? instanceAt at hcell hcell'
    rw [hdefined.instances.1] at hcell
    rw [hdefined.instances.2] at hcell'
    obtain ⟨hstate, hparser⟩ := h.cell id id' (hpairs id id' hid) cell cell' hcell hcell'
    exact ⟨hstate, hparser.imp fun _ _ hp => hp.mono hsub⟩
  unique id id₁ id₂ h₁ h₂ := h.unique id id₁ id₂ (hpairs _ _ h₁) (hpairs _ _ h₂)
  unique' id₁ id₂ id' h₁ h₂ := h.unique' id₁ id₂ id' (hpairs _ _ h₁) (hpairs _ _ h₂)
  counters counter := by
    unfold countOf
    rw [hdefined.counters.1, hdefined.counters.2]
    exact h.counters counter

end Store.InStep

/-- Stores in step remain so when something is added to both. -/
def inStep {leeway : Leeway} (hstages : ¬ leeway.stages) : Regime leeway where
  fits pairs store store' := store.InStep leeway pairs store'
  alike h := h.alike
  state h _ id id' hid := by
    obtain ⟨cell, cell', hcell, hcell', -⟩ := h.alike.cell id id' hid
    unfold Store.cellAt
    rw [hcell, hcell']
    exact (h.cell id id' hid cell cell' hcell hcell').1
  counts h _ := h.counters
  adds h hadds hadds' _ _ hcounters := h.of_adds hadds hadds' (hcounters hstages)
  addCell h hhome hmake := h.addCell hhome hmake
  create h hclass hadded hcreate hcreate' := h.create hclass hadded hcreate hcreate'

/-- A regime under which paired lazy parsers are in step and may be changed on both stores, if they
are free to be changed. Those that have not been made are. -/
structure Regime.Stepwise {leeway : Leeway} (regime : Regime leeway) (free : CellId → Prop) :
    Prop where
  /-- Stores that fit are in step. -/
  inStep : ∀ {pairs : Pairing} {store store' : Store}, regime.fits pairs store store' →
    store.InStep leeway pairs store'
  /-- Paired lazy parsers that have not been made are free. -/
  unmade : ∀ {pairs : Pairing} {store store' : Store} {id id' : CellId} {cell : Cell},
    regime.fits pairs store store' → id.Pairs pairs id' → store.cell? id = some cell →
    cell.parser = none → free id
  /-- Stores with the same entry in the log still fit. -/
  log : ∀ {pairs : Pairing} {store store' : Store}, regime.fits pairs store store' →
    ∀ record, regime.fits pairs (store.log record) (store'.log record)
  /-- Stores in which paired lazy parsers have changed alike still fit. -/
  modifyCell : ∀ {pairs : Pairing} {store store' : Store} {id id' : CellId}
    {change change' : Cell → Cell}, regime.fits pairs store store' → free id → id.Pairs pairs id' →
    (∀ cell : Cell, cell.Still (change cell)) → (∀ cell : Cell, cell.Still (change' cell)) →
    (∀ cell cell' : Cell, cell'.state = cell.state →
      Option.Rel (Parser.Alike leeway pairs) cell.parser cell'.parser →
      (change' cell').state = (change cell).state ∧
        Option.Rel (Parser.Alike leeway pairs) (change cell).parser (change' cell').parser) →
    regime.fits pairs (store.modifyCell id change) (store'.modifyCell id' change')

/-- Without more that is asked of stores in step, all lazy parsers are free. -/
theorem stepwise_inStep {leeway : Leeway} (hstages : ¬ leeway.stages) :
    (inStep hstages).Stepwise fun _ => True where
  inStep h := h
  unmade _ _ _ _ := trivial
  log h record := h.of_adds (Store.adds_log _ record) (Store.adds_log _ record) fun counter => by
    rw [Store.countOf_log, Store.countOf_log, h.counters]
  modifyCell h _ hid hstill hstill' hchange := h.modifyCell hid hstill hstill' hchange

/-! ## Running -/

namespace Engine

variable {leeway : Leeway} {regime : Regime leeway} {free : CellId → Prop} {engine : Engine Eval}
  {family : Nat → Engine Eval} {pairs : Pairing}

/-- What becomes of paired lazy parsers when their scripts have ended alike. -/
theorem settle_stepwise (hsteps : regime.Stepwise free) {cell cell' : CellId} (hfree : free cell)
    (hcell : cell.Pairs pairs cell') (name : String)
    {ended ended' : Except Raised (Object Parser)} {store store' : Store}
    (h : regime.fits pairs store store')
    (hended : Outcomes leeway (Object.Pairs pairs (Parser.Alike leeway pairs)) ended
      ended') :
    regime.fits pairs (settle cell name (ended, store)).2 (settle cell' name (ended', store')).2 ∧
      Outcomes leeway (Parser.Alike leeway pairs) (settle cell name (ended, store)).1
        (settle cell' name (ended', store')).1 := by
  -- what is returned depends on the stores afterwards only in what an error shows
  suffices hafter : regime.fits pairs (settle cell name (ended, store)).2
      (settle cell' name (ended', store')).2 by
    refine ⟨hafter, ?_⟩
    rw [settle_fst, settle_fst]
    exact parserOf_alike name (regime.alike hafter) (regime.state hafter) hended
  -- without a parser both are unbuilt again
  have hfails : regime.fits pairs (store.setState cell .unbuilt) (store'.setState cell' .unbuilt) :=
    hsteps.modifyCell h hfree hcell (fun _ => ⟨rfl, rfl⟩) (fun _ => ⟨rfl, rfl⟩)
      fun _ _ _ hparser => ⟨rfl, hparser⟩
  cases hended with
  | error hcause => exact hfails
  | ok hobject =>
    rcases hobject.eq_or with ⟨p, p', rfl, rfl, hp⟩ | ⟨hne, hne', -⟩
    · rw [settle_made, settle_made]
      refine hsteps.log ?_ (.ready name)
      exact hsteps.modifyCell h hfree hcell (fun _ => ⟨rfl, rfl⟩) (fun _ => ⟨rfl, rfl⟩)
        fun _ _ _ _ => ⟨rfl, .some hp⟩
    · rw [settle_nonParser cell name hne, settle_nonParser cell' name hne']
      exact hfails

/-- Paired lazy parsers are made alike. -/
theorem Mimics.assemble (hsteps : regime.Stepwise free) (h : engine.Mimics regime family)
    {cell cell' : CellId} (hcell : cell.Pairs pairs cell') :
    Eval.Mimics regime pairs (Parser.Alike leeway) (engine.assemble cell)
      fun depth => (family depth).assemble cell' := by
  intro store store' hfits outcome after hon
  obtain ⟨old, old', hold, hold', halike⟩ := (regime.alike hfits).cell cell cell' hcell
  obtain ⟨hstate, hparser⟩ := (hsteps.inStep hfits).cell cell cell' hcell old old' hold hold'
  obtain ⟨name, state, make, parser⟩ := old
  obtain ⟨name', state', make', parser'⟩ := old'
  obtain rfl : name' = name := halike.name
  obtain rfl : state' = state := hstate
  rcases hparser.eq_or with ⟨e, e'⟩ | ⟨p, p', e, e', hp⟩
  · obtain rfl : parser = none := e
    obtain rfl : parser' = none := e'
    rw [assemble_of_unmade hold, Option.map_eq_some_iff] at hon
    obtain ⟨⟨ended, middle⟩, hperform, hsettle⟩ := hon
    have hfree := hsteps.unmade hfits hcell hold rfl
    -- both are marked as being built before their scripts are performed
    have hstarted : regime.fits pairs ((store.log (.building name' state')).setState cell .building)
        ((store'.log (.building name' state')).setState cell' .building) :=
      hsteps.modifyCell (hsteps.log hfits (.building name' state')) hfree hcell
        (fun _ => ⟨rfl, rfl⟩) (fun _ => ⟨rfl, rfl⟩) fun _ _ _ hparser => ⟨rfl, hparser⟩
    obtain ⟨larger, ended', middle', hsub, ⟨depth, hdepth⟩, hmiddle, hended⟩ :=
      h.objects halike.make _ _ hstarted ended middle hperform
    obtain ⟨hafter, hout⟩ := settle_stepwise hsteps hfree (hsub hcell) name' hmiddle hended
    rw [hsettle] at hafter hout
    refine ⟨larger, (settle cell' name' (ended', middle')).1,
      (settle cell' name' (ended', middle')).2, hsub, ⟨depth, fun deeper hle => ?_⟩, hafter, hout⟩
    have hperform' := hdepth deeper hle
    simp only at hperform'
    rw [assemble_of_unmade hold', hperform']
    rfl
  · obtain rfl : parser = some p := e
    obtain rfl : parser' = some p' := e'
    rw [assemble_of_made hold] at hon
    cases hon
    exact ⟨pairs, .ok p', store', .rfl, ⟨0, fun _ _ => assemble_of_made hold'⟩, hfits, .ok hp⟩

/-- On stores that fit, parsers that are alike end alike. -/
theorem mimics_stepwise (hsteps : regime.Stepwise free) (depth : Nat) :
    (upTo depth).Mimics regime upTo := by
  induction depth with
  | zero => exact ⟨fun _ _ _ => .diverge, fun _ => .diverge⟩
  | succ depth ih =>
    exact ⟨fun source place hp => ih.step (fun _ => rfl) source place hp,
      fun hcell => .succ (ih.assemble hsteps hcell)⟩

/-- On stores in step, parsers that are alike end alike. -/
theorem mimics_inStep (hstages : ¬ leeway.stages) (depth : Nat) :
    (upTo depth).Mimics (inStep hstages) upTo := mimics_stepwise (stepwise_inStep hstages) depth

end Engine

end Descent
