import Descent.Proofs.Composed
import Descent.Proofs.Family.Grants

/-! # Stores that honour what is known

* **`Store.Honours`** — the known references lead to composed parsers in a store: what is made of
  them, and what has been made already.
* **`Store.honours_iff`** — this is what it is to grant the family of composed parsers, so the rest
  is known of that. -/

namespace Descent

/-- The known references lead to composed parsers in a store. -/
structure Store.Honours (store : Store) (known : Known) : Prop where
  /-- A known lazy parser is there, and it makes, or has made, a composed parser. -/
  cell : ∀ id, Reference.cell id ∈ known → ∃ cell, store.cell? id = some cell ∧
    Action.Composed known cell.make.action ∧ ∀ p, cell.parser = some p → p.Composed known
  /-- A known place for lazy parsers is there. -/
  home : ∀ language, Reference.home language ∈ known → language < store.instances.size
  /-- A known language is there, and its rules are known. -/
  language : ∀ language, Reference.language language ∈ known → language < store.instances.size ∧
    ∀ rules, (store.instanceAt language).rules = some rules →
      ∀ entry ∈ rules, Reference.cell entry.2 ∈ known
  /-- The rules of a known class make composed parsers. -/
  className : ∀ name cls, Reference.className name ∈ known → store.classNamed name = .ok cls →
    ∀ entry ∈ store.ruleTable (store.classAt cls).lineage,
      RuleBody.Composed known (store.definitions.getD entry.2 default).action
  /-- What is known to have been put aside by name leads to what is known. -/
  shelved : ∀ name found, Reference.shelved name ∈ known → store.fetch name = .ok found →
    found.Within known (Handle.Within known)
  /-- A parser known to have been put aside is composed. -/
  kept : ∀ number, Reference.kept number ∈ known →
    (store.kept.getD number default).Composed known

/-- A store honours what it grants to be composed. -/
theorem Store.honours_iff {store : Store} {known : Known} :
    store.Honours known ↔ store.Grants Parser.Composed known := by
  refine ⟨fun h => ⟨?_, h.home, h.language, ?_, h.shelved, h.kept⟩,
    fun h => ⟨?_, h.home, h.language, ?_, h.shelved, h.kept⟩⟩
  · intro id hid
    obtain ⟨cell, hcell, hmake, hparser⟩ := h.cell id hid
    exact ⟨cell, hcell, hmake.makes, hparser⟩
  · exact fun name cls hname hcls entry hentry larger owner hsub hl hh =>
      (h.className name cls hname hcls entry hentry larger owner hsub hl hh).makes
  · intro id hid
    obtain ⟨cell, hcell, hmake, hparser⟩ := h.cell id hid
    exact ⟨cell, hcell, Action.composed_iff_makes.mpr hmake, hparser⟩
  · exact fun name cls hname hcls entry hentry larger owner hsub hl hh =>
      Action.composed_iff_makes.mpr
        (h.className name cls hname hcls entry hentry larger owner hsub hl hh)

namespace Store.Honours

variable {store after : Store} {known : Known}

/-- At the beginning the one class there is has no rules, so it may be known. -/
theorem initial (logging : Bool) : (Store.initial logging).Honours {.className Store.baseName} :=
  honours_iff.mpr (.initial logging)

/-- A new language honours its own rules if the rules of its class, and those of the mapping that it
was made with, make composed parsers. -/
theorem create {className : String} {arguments : Table Value} {rules : Table (Owner → Maker)}
    {language : InstanceId} (h : store.Honours known)
    (hcreate : store.create className arguments rules = .ok (language, after))
    (hclass : Reference.className className ∈ known)
    (hrules : ∀ entry ∈ rules, ∀ larger owner, known ⊆ larger →
      Reference.language owner.language ∈ larger → Reference.home owner.language ∈ larger →
      Action.Composed larger (entry.2 owner).action) :
    after.Honours (withLanguage after known language) :=
  honours_iff.mpr <| (honours_iff.mp h).create Parser.monotone_composed hcreate hclass
    fun entry hentry larger owner hsub hl hh =>
      (hrules entry hentry larger owner hsub hl hh).makes

end Store.Honours

end Descent
