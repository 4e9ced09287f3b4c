import Descent.Proofs.Alike.InStep

/-! # Stores in lockstep

Two stores are in lockstep if they are in step up to labels: only labels can tell what is run on the
one from what is run on the other.

* **`Leeway.labelling`** — two runs may differ in the labels of failures and in nothing else.
* **`Store.Lockstep`** — stores in lockstep.
* **`Store.lockstep_iff`** — these are the stores that are in step with leeway in labels. -/

namespace Descent

/-- Two runs may differ in the labels of failures only. -/
def Leeway.labelling : Leeway := ⟨True, False⟩

/-- What is paired is made alike, and has been made on both stores or on neither. -/
structure Store.Lockstep (pairs : Pairing) (store store' : Store) : Prop where
  /-- What is paired is made alike. -/
  alike : store.Alike .labelling pairs store'
  /-- Paired lazy parsers are in the same stage, and hold parsers that are alike, if any. -/
  cell : ∀ id id' : CellId, id.Pairs pairs id' → ∀ cell cell', store.cell? id = some cell →
    store'.cell? id' = some cell' → cell'.state = cell.state ∧
      Option.Rel (Parser.Alike .labelling pairs) cell.parser cell'.parser
  /-- A lazy parser is paired with one at most. -/
  unique : ∀ id id₁ id₂ : CellId, id.Pairs pairs id₁ → id.Pairs pairs id₂ → id₁ = id₂
  /-- So it is the other way round. -/
  unique' : ∀ id₁ id₂ id' : CellId, id₁.Pairs pairs id' → id₂.Pairs pairs id' → id₁ = id₂
  /-- Counters answer the same. -/
  counters : ∀ counter, store'.countOf counter = store.countOf counter

namespace Store

variable {pairs : Pairing} {store store' : Store}

/-- Stores are in lockstep if they are in step with leeway in labels. -/
theorem lockstep_iff : store.Lockstep pairs store' ↔ store.InStep .labelling pairs store' :=
  ⟨fun h => ⟨h.alike, h.cell, h.unique, h.unique', h.counters⟩,
    fun h => ⟨h.alike, h.cell, h.unique, h.unique', h.counters⟩⟩

namespace Lockstep

/-- Stores in lockstep are so the other way round. -/
theorem flip (h : store.Lockstep pairs store') : store'.Lockstep pairs.flip store :=
  lockstep_iff.mpr (lockstep_iff.mp h).flip

/-- New languages with rules that are made alike may be paired. -/
theorem create (h : store.Lockstep pairs store') {language language' : InstanceId}
    {className : String} {arguments : Table Value} {added added' : Table (Owner → Maker)}
    {after after' : Store}
    (hclass : (Reference.className className, Reference.className className) ∈ pairs)
    (hadded : RulesAlike .labelling pairs added added')
    (hcreate : store.create className arguments added = .ok (language, after))
    (hcreate' : store'.create className arguments added' = .ok (language', after')) :
    after.Lockstep (after.pairLanguages pairs language language') after' :=
  lockstep_iff.mpr ((lockstep_iff.mp h).create hclass hadded hcreate hcreate')

end Lockstep

end Store

end Descent
