import Descent.Proofs.Alike.Outcomes
import Descent.Proofs.Store.Created
import Mathlib.Data.Set.Insert

/-! # Stores that are alike

Two stores are alike if what is paired in them is made in the same way. What has been made already,
and the stages of lazy parsers, are left open here.

* **`Store.Alike`** — stores that are alike.
* **`Store.Alike.of_grows`**, **`Store.Alike.grow`**, **`Store.Alike.flip`** — they stay alike when
  they grow and when more is paired, and they are alike the other way round. -/

namespace Descent

/-- More is paired, but only lazy parsers and languages. -/
structure Pairing.Extends (pairs larger : Pairing) : Prop where
  /-- What was paired is. -/
  subset : pairs ⊆ larger
  /-- What has been paired since are lazy parsers or languages. -/
  made : ∀ pair ∈ larger, pair ∉ pairs → pair.1.IsMade

/-- Whatever is neither a lazy parser nor a language was paired before. -/
theorem Pairing.Extends.mem {pairs larger : Pairing} (h : pairs.Extends larger)
    {pair : Reference × Reference} (hpair : pair ∈ larger) (hnot : ¬ pair.1.IsMade) :
    pair ∈ pairs := by
  by_contra hk
  exact hnot (h.made pair hpair hk)

/-- Lazy parsers of the same name that are made alike. If stages may differ, they are made
quietly. -/
structure Cell.Alike (leeway : Leeway) (pairs : Pairing) (cell cell' : Cell) : Prop where
  /-- The name is the same. -/
  name : cell'.name = cell.name
  /-- They are made alike. -/
  make : Action.Alike leeway pairs cell.make.action.objects cell'.make.action.objects
  /-- They are made quietly. -/
  quiet : leeway.stages → cell.make.action.Quiet ∧ cell'.make.action.Quiet

/-- Rules that make parsers alike for paired languages. -/
def RuleBody.Alike (leeway : Leeway) (pairs : Pairing)
    (body body' : Owner → Action (Object Parser)) : Prop :=
  ∀ larger owner owner', pairs ⊆ larger → owner.Pairs larger owner' →
    Action.Alike leeway larger (body owner).objects (body' owner').objects ∧
      (leeway.stages → (body owner).Quiet ∧ (body' owner').Quiet)

/-- What is paired is made alike in two stores. -/
structure Store.Alike (leeway : Leeway) (pairs : Pairing) (store store' : Store) : Prop where
  /-- The classes are the same. -/
  classes : store'.classes = store.classes
  /-- They have the same names. -/
  classNames : store'.classNames = store.classNames
  /-- Rules of classes go by the same names. -/
  ruleName : ∀ definition, (store'.definitions.getD definition default).name
    = (store.definitions.getD definition default).name
  /-- Paired lazy parsers are there and alike. -/
  cell : ∀ id id', id.Pairs pairs id' → ∃ cell cell', store.cell? id = some cell ∧
    store'.cell? id' = some cell' ∧ cell.Alike leeway pairs cell'
  /-- Paired places for lazy parsers are there. -/
  home : ∀ language language', (.home language, .home language') ∈ pairs →
    language < store.instances.size ∧ language' < store'.instances.size
  /-- Paired languages are there, of the same class, and their rules are paired. -/
  language : ∀ language language', (.language language, .language language') ∈ pairs →
    language < store.instances.size ∧ language' < store'.instances.size ∧
      (store'.instanceAt language').cls = (store.instanceAt language).cls ∧
      Option.Rel (Table.Rel (CellId.Pairs pairs)) (store.instanceAt language).rules
        (store'.instanceAt language').rules
  /-- The rules of a paired class make parsers alike. -/
  className : ∀ name cls, (.className name, .className name) ∈ pairs →
    store.classNamed name = .ok cls → ∀ entry ∈ store.ruleTable (store.classAt cls).lineage,
      RuleBody.Alike leeway pairs (store.definitions.getD entry.2 default).action
        (store'.definitions.getD entry.2 default).action
  /-- What was put aside under a paired name is paired. -/
  shelved : ∀ name, (.shelved name, .shelved name) ∈ pairs →
    Answers (Object.Pairs pairs (Handle.Pairs pairs)) (store.fetch name) (store'.fetch name)
  /-- Paired parsers that were put aside are alike. -/
  kept : ∀ number number', (.kept number, .kept number') ∈ pairs →
    Parser.Alike leeway pairs (store.kept.getD number default) (store'.kept.getD number' default)

namespace Cell.Alike

variable {leeway : Leeway} {pairs larger : Pairing} {cell cell' : Cell}

theorem mono (hsub : pairs ⊆ larger) (h : cell.Alike leeway pairs cell') :
    cell.Alike leeway larger cell' := ⟨h.name, h.make.mono hsub, h.quiet⟩

theorem flip (h : cell.Alike leeway pairs cell') : cell'.Alike leeway pairs.flip cell :=
  ⟨h.name.symm, h.make.flip, fun hstages => (h.quiet hstages).symm⟩

/-- Lazy parsers stay alike whatever is made of them. -/
theorem of_still {after after' : Cell} (h : cell.Alike leeway pairs cell')
    (hstill : cell.Still after) (hstill' : cell'.Still after') :
    after.Alike leeway pairs after' := by
  refine ⟨?_, ?_, ?_⟩
  · rw [hstill.name, hstill'.name, h.name]
  · rw [hstill.make, hstill'.make]
    exact h.make
  · rw [hstill.make, hstill'.make]
    exact h.quiet

end Cell.Alike

namespace Store.Alike

variable {leeway : Leeway} {pairs larger : Pairing} {store store' after after' : Store}

/-- Lazy parsers that are there and paired are alike. -/
theorem cells (h : store.Alike leeway pairs store') {id id' : CellId} (hid : id.Pairs pairs id')
    {cell cell' : Cell} (hcell : store.cell? id = some cell)
    (hcell' : store'.cell? id' = some cell') : cell.Alike leeway pairs cell' := by
  obtain ⟨_, _, hthere, hthere', halike⟩ := h.cell id id' hid
  rw [hcell, Option.some.injEq] at hthere
  rw [hcell', Option.some.injEq] at hthere'
  subst hthere hthere'
  exact halike

/-- Stores stay alike when they grow, whatever is made of the lazy parsers in them. -/
theorem of_grows (h : store.Alike leeway pairs store') (hgrows : Grows Cell.Still store after)
    (hgrows' : Grows Cell.Still store' after') : after.Alike leeway pairs after' where
  classes := by rw [hgrows.classes, hgrows'.classes, h.classes]
  classNames := by rw [hgrows.classNames, hgrows'.classNames, h.classNames]
  ruleName definition := by
    rw [hgrows.definitions, hgrows'.definitions]
    exact h.ruleName definition
  cell id id' hid := by
    obtain ⟨cell, cell', hcell, hcell', halike⟩ := h.cell id id' hid
    obtain ⟨later, hlater, hstill⟩ := hgrows.cell id cell hcell
    obtain ⟨later', hlater', hstill'⟩ := hgrows'.cell id' cell' hcell'
    exact ⟨later, later', hlater, hlater', halike.of_still hstill hstill'⟩
  home language language' hl := by
    obtain ⟨hlt, hlt'⟩ := h.home language language' hl
    exact ⟨Nat.lt_of_lt_of_le hlt hgrows.size_le, Nat.lt_of_lt_of_le hlt' hgrows'.size_le⟩
  language language language' hl := by
    obtain ⟨hlt, hlt', hcls, hrules⟩ := h.language language language' hl
    refine ⟨Nat.lt_of_lt_of_le hlt hgrows.size_le, Nat.lt_of_lt_of_le hlt' hgrows'.size_le, ?_, ?_⟩
    · rw [hgrows.cls language hlt, hgrows'.cls language' hlt', hcls]
    · rw [hgrows.rules language hlt, hgrows'.rules language' hlt']
      exact hrules
  className name cls hname hcls := by
    have hnamed : store.classNamed name = .ok cls := by
      rw [← hcls]
      unfold classNamed
      rw [hgrows.classNames]
    rw [hgrows.ruleTable, hgrows.classAt, hgrows.definitions,
      hgrows'.definitions]
    exact h.className name cls hname hnamed
  shelved name hname := by
    have hfetch : after.fetch name = store.fetch name := by
      unfold fetch
      rw [hgrows.shelf]
    have hfetch' : after'.fetch name = store'.fetch name := by
      unfold fetch
      rw [hgrows'.shelf]
    rw [hfetch, hfetch']
    exact h.shelved name hname
  kept number number' hnumber := by
    rw [hgrows.kept, hgrows'.kept]
    exact h.kept number number' hnumber

/-- Stores stay alike when more is paired, if the lazy parsers and the languages that get paired are
alike. -/
theorem grow (h : store.Alike leeway pairs store') (hmore : pairs.Extends larger)
    (hcell : ∀ id id', id.Pairs larger id' → ¬ id.Pairs pairs id' → ∃ cell cell',
      store.cell? id = some cell ∧ store'.cell? id' = some cell' ∧ cell.Alike leeway larger cell')
    (hhome : ∀ language language', (.home language, .home language') ∈ larger →
      (.home language, .home language') ∉ pairs →
      language < store.instances.size ∧ language' < store'.instances.size)
    (hlanguage : ∀ language language', (.language language, .language language') ∈ larger →
      (.language language, .language language') ∉ pairs →
      language < store.instances.size ∧ language' < store'.instances.size ∧
        (store'.instanceAt language').cls = (store.instanceAt language).cls ∧
        Option.Rel (Table.Rel (CellId.Pairs larger)) (store.instanceAt language).rules
          (store'.instanceAt language').rules) : store.Alike leeway larger store' where
  classes := h.classes
  classNames := h.classNames
  ruleName := h.ruleName
  cell id id' hid := by
    by_cases hk : id.Pairs pairs id'
    · obtain ⟨cell, cell', hcell, hcell', halike⟩ := h.cell id id' hk
      exact ⟨cell, cell', hcell, hcell', halike.mono hmore.subset⟩
    · exact hcell id id' hid hk
  home language language' hl := by
    by_cases hk : (Reference.home language, Reference.home language') ∈ pairs
    · exact h.home language language' hk
    · exact hhome language language' hl hk
  language language language' hl := by
    by_cases hk : (Reference.language language, Reference.language language') ∈ pairs
    · obtain ⟨hlt, hlt', hcls, hrules⟩ := h.language language language' hk
      exact ⟨hlt, hlt', hcls,
        hrules.imp fun _ _ => Table.Rel.imp fun _ _ hcell => hmore.subset hcell⟩
    · exact hlanguage language language' hl hk
  className name cls hname hcls entry hentry larger' owner owner' hsub' :=
    h.className name cls (hmore.mem hname id) hcls entry hentry larger' owner owner'
      (hmore.subset.trans hsub')
  shelved name hname := by
    refine (h.shelved name (hmore.mem hname id)).imp fun _ _ hfound => ?_
    exact hfound.mono hmore.subset fun _ _ => Handle.Pairs.mono hmore.subset
  kept number number' hnumber := (h.kept number number' (hmore.mem hnumber id)).mono hmore.subset

/-- Lazy parsers that are alike may be paired. -/
theorem paired (h : store.Alike leeway pairs store') {id id' : CellId} {cell cell' : Cell}
    (hcell : store.cell? id = some cell) (hcell' : store'.cell? id' = some cell')
    (halike : cell.Alike leeway pairs cell') :
    store.Alike leeway (insert (.cell id, .cell id') pairs) store' := by
  have hsub := Set.subset_insert (Reference.cell id, Reference.cell id') pairs
  refine h.grow ⟨hsub, fun pair hpair hk => ?_⟩ ?_ ?_ ?_
  · rw [(Set.mem_insert_iff.mp hpair).resolve_right hk]
    trivial
  · intro other other' hother hk
    cases (Set.mem_insert_iff.mp hother).resolve_right hk
    exact ⟨cell, cell', hcell, hcell', halike.mono hsub⟩
  · intro language language' hl hk
    cases (Set.mem_insert_iff.mp hl).resolve_right hk
  · intro language language' hl hk
    cases (Set.mem_insert_iff.mp hl).resolve_right hk

/-- Stores that are alike are so the other way round. -/
theorem flip (h : store.Alike leeway pairs store') : store'.Alike leeway pairs.flip store where
  classes := h.classes.symm
  classNames := h.classNames.symm
  ruleName definition := (h.ruleName definition).symm
  cell id id' hid := by
    obtain ⟨cell', cell, hcell', hcell, halike⟩ := h.cell id' id hid
    exact ⟨cell, cell', hcell, hcell', halike.flip⟩
  home language language' hl := (h.home language' language hl).symm
  language language language' hl := by
    obtain ⟨hlt', hlt, hcls, hrules⟩ := h.language language' language hl
    exact ⟨hlt, hlt', hcls.symm, hrules.flip fun _ _ => Table.Rel.flip fun _ _ => CellId.Pairs.flip⟩
  className name cls hname hcls entry hentry larger owner owner' hsub howner := by
    have hat : ∀ cls, store'.classAt cls = store.classAt cls := by
      intro cls
      unfold classAt
      rw [h.classes]
    have hnamed : store.classNamed name = .ok cls := by
      unfold classNamed at hcls ⊢
      rw [← h.classNames]
      exact hcls
    have htable : entry ∈ store.ruleTable (store.classAt cls).lineage := by
      unfold ruleTable at hentry ⊢
      simp only [hat] at hentry
      exact hentry
    obtain ⟨halike, hquiet⟩ := h.className name cls hname hnamed entry htable larger.flip owner'
      owner (Pairing.subset_flip hsub) howner.flip
    exact ⟨halike.flip, fun hstages => (hquiet hstages).symm⟩
  shelved name hname := (h.shelved name hname).flip fun _ _ hfound =>
    hfound.flip fun _ _ => Handle.Pairs.flip
  kept number number' hnumber := (h.kept number' number hnumber).flip

end Store.Alike

end Descent
