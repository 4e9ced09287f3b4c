import Descent.Proofs.Alike.Exact

/-! # Runs that leave lazy parsers alone

What is run on a store changes only lazy parsers that are paired and have not been made. All others
are afterwards as they were, in particular those that some other parsers lead to.

* **`Store.Avoids`** — a later store, in which the lazy parsers to be spared are as they were.
* **`Store.Apace`** — stores in step with the same log, of which the first is such a later store.
* **`sparing`** — they remain so when something is added to both.
* **`Store.Avoids.inStep`** — main statement: stores in step by which nothing but lazy parsers to be
  spared is paired remain so when one of them goes on to such a later store. -/

namespace Descent

/-- From a store to a later one in which the lazy parsers to be spared are as they were. If such a
lazy parser has become paired, it had been made before. -/
structure Store.Avoids (base : Store) (spared : Set CellId) (pairs : Pairing) (store : Store) :
    Prop where
  /-- Nothing has gone. -/
  grows : Grows Cell.Still base store
  /-- The lazy parsers to be spared are there. -/
  there : ∀ id ∈ spared, base.cell? id ≠ none
  /-- They are as they were. -/
  same : ∀ id ∈ spared, store.cell? id = base.cell? id
  /-- If paired, they have been made. -/
  made : ∀ id ∈ spared, ∀ id' cell, id.Pairs pairs id' → base.cell? id = some cell →
    cell.parser ≠ none

/-- Stores in step with the same log, of which the first has spared what was to be spared. -/
structure Store.Apace (base : Store) (spared : Set CellId) (pairs : Pairing)
    (store store' : Store) : Prop where
  /-- What is paired is alike, and has been made on both or on neither. -/
  inStep : store.InStep .exact pairs store'
  /-- The first has spared what was to be spared. -/
  avoids : base.Avoids spared pairs store
  /-- The log has the same entries. -/
  records : store'.records = store.records
  /-- It is kept on both or on neither. -/
  logging : store'.logging = store.logging
  /-- It is kept as before. -/
  still : store.logging = base.logging

variable {base store store' after after' : Store} {spared : Set CellId}
  {pairs larger : Pairing}

namespace Store.Avoids

/-- A store avoids to change itself. -/
theorem refl (hthere : ∀ id ∈ spared, base.cell? id ≠ none)
    (hmade : ∀ id ∈ spared, ∀ id' cell, id.Pairs pairs id' → base.cell? id = some cell →
      cell.parser ≠ none) : base.Avoids spared pairs base :=
  ⟨.refl Cell.Still.refl base, hthere, fun _ _ => rfl, hmade⟩

/-- A lazy parser that is paired and has not been made is not among them. -/
theorem notMem_of_unmade (h : base.Avoids spared pairs store) {id id' : CellId} {cell : Cell}
    (hid : id.Pairs pairs id') (hcell : store.cell? id = some cell) (hnone : cell.parser = none) :
    id ∉ spared := fun hmem =>
  h.made id hmem id' cell hid ((h.same id hmem).symm.trans hcell) hnone

/-- Something may be added and new lazy parsers may be paired. -/
theorem grow (h : base.Avoids spared pairs store) (hadds : Adds store after)
    (hnew : ∀ id id', id.Pairs larger id' → ¬ id.Pairs pairs id' → store.cell? id = none) :
    base.Avoids spared larger after where
  grows := h.grows.still_trans (.of_adds Cell.Still.refl hadds)
  there := h.there
  same id hmem := by
    obtain ⟨cell, hcell⟩ := Option.ne_none_iff_exists'.mp (h.there id hmem)
    rw [hadds.cell?_eq_some ((h.same id hmem).trans hcell), hcell]
  made id hmem id' cell hid hcell := by
    by_cases hk : id.Pairs pairs id'
    · exact h.made id hmem id' cell hk hcell
    · exact absurd (h.grows.cell?_eq_none (hnew id id' hid hk)) (h.there id hmem)

/-- Something may be added. -/
theorem of_adds (h : base.Avoids spared pairs store) (hadds : Adds store after) :
    base.Avoids spared pairs after := h.grow hadds fun _ _ hid hk => absurd hid hk

/-- A lazy parser that is not among them may be changed. -/
theorem modifyCell (h : base.Avoids spared pairs store) {id : CellId} (hid : id ∉ spared)
    {change : Cell → Cell} (hstill : ∀ cell : Cell, cell.Still (change cell)) :
    base.Avoids spared pairs (store.modifyCell id change) where
  grows := h.grows.still_trans (grows_modifyCell store id change Cell.Still.refl hstill)
  there := h.there
  same other hmem := by
    rw [cell?_modifyCell, if_neg fun e : id = other => hid (e ▸ hmem), h.same other hmem]
  made := h.made

/-- A store remains in step with another one if whatever is paired in the two is spared and counters
are left alone. -/
theorem inStep {leeway : Leeway} (h : base.Avoids spared pairs store)
    (hbase : base.InStep leeway larger after)
    (hspared : ∀ id id' : CellId, id.Pairs larger id' → id ∈ spared)
    (hcounters : ∀ counter, store.countOf counter = base.countOf counter) :
    store.InStep leeway larger after where
  alike := hbase.alike.of_grows h.grows (.refl Cell.Still.refl after)
  cell id id' hid cell cell' hcell hcell' := by
    rw [h.same id (hspared id id' hid)] at hcell
    exact hbase.cell id id' hid cell cell' hcell hcell'
  unique := hbase.unique
  unique' := hbase.unique'
  counters counter := (hbase.counters counter).trans (hcounters counter).symm

end Store.Avoids

open Store in
/-- Stores remain apace when something is added to both. -/
def sparing (base : Store) (spared : Set CellId) : Regime .exact where
  fits pairs store store' := base.Apace spared pairs store store'
  alike h := h.inStep.alike
  state h := (Descent.inStep not_false).state h.inStep
  counts h _ := h.inStep.counters
  adds h hadds hadds' hlog hlog' hcounters :=
    { inStep := h.inStep.of_adds hadds hadds' (hcounters not_false)
      avoids := h.avoids.of_adds hadds
      records := by rw [hlog.records, hlog'.records, h.records]
      logging := by rw [hlog.logging, hlog'.logging, h.logging]
      still := hlog.logging.trans h.still }
  addCell h hhome hmake :=
    { inStep := h.inStep.addCell hhome hmake
      avoids := h.avoids.grow (adds_addCell ..) fun id id' hid hk => by
        rw [(eq_of_insert hid hk).1]
        exact cell?_fst_addCell ..
      records := h.records
      logging := h.logging
      still := h.still }
  create {pairs store store' after after' language language' className arguments added added'} h
      hclass hadded hcreate hcreate' := by
    obtain ⟨-, -, -, made, hafter, -⟩ := create_eq_ok hcreate
    obtain ⟨-, -, -, made', hafter', -⟩ := create_eq_ok hcreate'
    refine ⟨h.inStep.create hclass hadded hcreate hcreate',
      h.avoids.grow (adds_create hcreate) fun id id' hid hk => ?_, ?_, ?_, ?_⟩
    · obtain ⟨index, rfl, -⟩ := exists_of_pairLanguages hid hk
      exact cell?_of_size_le store (Nat.le_of_eq (Created.of_create hcreate).1.symm)
    · rw [hafter, hafter']
      exact h.records
    · rw [hafter, hafter']
      exact h.logging
    · rw [hafter]
      exact h.still

/-- Lazy parsers that are not to be spared may be changed. -/
theorem stepwise_sparing (base : Store) (spared : Set CellId) :
    (sparing base spared).Stepwise (· ∉ spared) where
  inStep h := h.inStep
  unmade h hid hcell hnone := h.avoids.notMem_of_unmade hid hcell hnone
  log {pairs store store'} h record :=
    { inStep := (stepwise_inStep not_false).log h.inStep record
      avoids := h.avoids.of_adds (Store.adds_log store record)
      -- both log or neither does
      records := by
        unfold Store.log
        rw [h.logging]
        split
        · exact congrArg (Array.push · record) h.records
        · exact h.records
      logging := by
        unfold Store.log
        rw [h.logging]
        split
        · rfl
        · exact h.logging
      still := by
        unfold Store.log
        split
        · exact h.still
        · exact h.still }
  modifyCell h hfree hid hstill hstill' hchange :=
    { inStep := h.inStep.modifyCell hid hstill hstill' hchange
      avoids := h.avoids.modifyCell hfree hstill
      records := h.records
      logging := h.logging
      still := h.still }

end Descent
