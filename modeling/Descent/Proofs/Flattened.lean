import Descent.Proofs.Assembled
import Descent.Proofs.Rebased.Sessions

/-! # Class hierarchies as mappings

A language of a class can be had from a mapping as well, which has the rules of the class and of its
ancestors besides those of the language's own mapping. The two have the same lazy parsers, and what
tells them apart is only what is asked of the language: an attribute of a language of a class goes
by what the class has, and that of a language of a mapping by its table.

* **`Store.flattened`** — all rules of a language of a class as one mapping.
* **`Store.create_flattened`** — the language of this mapping is the other one, taken for a language
  of the class from which all others descend.
* **`Store.Plain`**, **`Store.Titling`**, **`Store.Asked`** — classes and questions for which the
  answers are the same.
* **`Store.rebasable_enlarged`** — main statement: as far as it may be asked, a new language answers
  the same when it is taken for a language of the class from which all others descend. -/

namespace Descent.Store

variable {store : Store} {lineage : List ClassId} {cls : ClassId} {className : String}
  {arguments : Table Value} {mapping : Table (Owner → Maker)} {name : String}

/-! ## Mappings -/

/-- The rules of a class with the given lineage and those of a mapping as one mapping. Their functions
are called with the given arguments, whatever those of the language are. -/
def flattened (store : Store) (lineage : List ClassId) (arguments : Table Value)
    (mapping : Table (Owner → Maker)) : Table (Owner → Maker) :=
  let inherited : Table (Owner → Maker) := (store.ruleTable lineage).map fun (name, definition) =>
    (name, fun owner => .mk
      ((store.definitions.getD definition default).action ⟨owner.language, arguments⟩))
  inherited.putAll (mapping.map fun (name, maker) =>
    (name, fun owner => maker ⟨owner.language, arguments⟩))

/-- For a language, this is how its rules are made. -/
theorem map_flattened (language : InstanceId) (others : Table Value) :
    (store.flattened lineage arguments mapping).map
        (fun entry => (entry.1, entry.2 ⟨language, others⟩))
      = store.makers lineage ⟨language, arguments⟩ mapping := by
  unfold flattened makers
  rw [Table.map_putAll fun maker : Owner → Maker => maker ⟨language, others⟩]
  simp only [List.map_map]
  rfl

/-- The last language that was added may be taken for another one at once. -/
theorem rebase_push (store : Store) (made : Instance) :
    ({ store with instances := store.instances.push made } : Store).rebase store.instances.size
      = { store with
          instances := store.instances.push { made with cls := base, arguments := [] } } := by
  unfold rebase
  simp only [Store.mk.injEq, true_and, and_true]
  refine Array.ext_getElem? fun index => ?_
  rw [Array.getElem?_modify, Array.getElem?_push, Array.getElem?_push]
  by_cases hlast : index = store.instances.size
  · simp [hlast]
  · simp [hlast, Ne.symm hlast]

/-- The language of the class from which all others descend that is made from all these rules as one
mapping is the same but for its class and its arguments. -/
theorem create_flattened (hfounded : store.Founded) (hbase : store.classNamed baseName = .ok base)
    (hnamed : ∀ name ∈ store.rulesOn (store.classAt cls).lineage ++ mapping.names,
      Inbuilt.find? name = none) :
    store.create baseName [] (store.flattened (store.classAt cls).lineage arguments mapping)
      = .ok (store.instances.size,
          (store.enlarged cls arguments mapping).rebase store.instances.size) := by
  -- the base class has no rules of its own, so the mapping is all there is
  have hmakers : store.makers [base] ⟨store.instances.size, []⟩
      (store.flattened (store.classAt cls).lineage arguments mapping)
      = store.newMakers cls arguments mapping := by
    unfold makers
    rw [hfounded.ruleTable]
    exact (Table.putAll_of_disjoint (by
      rw [map_flattened]
      exact nodup_names_makers) fun _ _ => List.not_mem_nil).trans (map_flattened _ _)
  have hnames : (store.flattened (store.classAt cls).lineage arguments mapping).names
      = (store.newMakers cls arguments mapping).names := by
    rw [newMakers, ← map_flattened store.instances.size [],
      Table.names_map fun maker : Owner → Maker => maker ⟨store.instances.size, []⟩]
  rw [create_of_free hbase (by rw [hfounded.classAt]) []]
  · unfold enlarged newRules newMakers
    rw [rebase_push, hfounded.classAt, hmakers]
  · intro name hname
    rw [hnames] at hname
    rw [hfounded.classAt]
    exact hasAttribute_eq_false_iff.mpr
      ⟨hnamed name (mem_names_makers.mp hname), hfounded.findAttribute name⟩

/-! ## What the new language may be asked -/

/-- The rules of a class, and those of a mapping besides, can be had as attributes, in so far as the
class leaves that to them. -/
structure Plain (store : Store) (lineage : List ClassId) (mapping : Table (Owner → Maker)) :
    Prop where
  /-- All rules have names that are looked for. -/
  named : ∀ name ∈ store.rulesOn lineage ++ mapping.names,
    name.startsWith "__" = false ∧ name ≠ tableName ∧ Inbuilt.find? name = none
  /-- The class has nothing in the place of the operations by which rules are found. -/
  operable : ∀ name ∈ [Inbuilt.getRule, Inbuilt.fallback, Inbuilt.ruleNames, Inbuilt.ruleState],
    store.findAttribute lineage name = none

/-- Every rule of a class goes by its own name, or at least not by that of another rule. -/
def Titling (store : Store) (lineage : List ClassId) (mapping : Table (Owner → Maker)) : Prop :=
  ∀ name definition, store.findAttribute lineage name = some (.rule definition) →
    store.titleOf definition = name ∨
      store.titleOf definition ∉ store.rulesOn lineage ++ mapping.names

/-- So it is if no definition was ever given a second name. -/
theorem titling_of_straight (h : store.ReachedBy Deed.Straight) :
    store.Titling lineage mapping := fun _ _ hfound =>
  .inl ((titled_of_straight h).titleOf_eq hfound).2

/-- What rules may ask their language for: other rules, and what is no attribute of its class. -/
def Asked (store : Store) (lineage : List ClassId) (mapping : Table (Owner → Maker))
    (name : String) : Prop :=
  name ∈ store.rulesOn lineage ++ mapping.names ∨ store.hasAttribute lineage name = false

section

variable (hplain : store.Plain (store.classAt cls).lineage mapping)

include hplain

/-- The new language can be asked for its rules. -/
theorem operable_enlarged (arguments : Table Value) :
    (store.enlarged cls arguments mapping).Operable store.instances.size := by
  intro name hname
  unfold operation
  rw [classOf_enlarged, findAttribute_enlarged, hplain.operable name hname]

/-- It has each of its rules. -/
theorem exists_getRule_enlarged (arguments : Table Value)
    (hname : name ∈ store.rulesOn (store.classAt cls).lineage ++ mapping.names) :
    ∃ cell, (store.newRules cls arguments mapping).get? name = some cell ∧
      (store.enlarged cls arguments mapping).getRule store.instances.size name = .ok cell := by
  obtain ⟨cell, hcell⟩ := Table.exists_get?_of_mem_names
    (names_newRules ▸ mem_names_makers.mpr hname)
  refine ⟨cell, hcell, ?_⟩
  rw [getRule_eq_bind rules_enlarged, operable_enlarged hplain arguments _ (by decide), hcell]
  rfl

end

/-- Taken for a language of the class from which all others descend, it is one with the same rules. -/
theorem mapped_enlarged (cls : ClassId) (arguments : Table Value) (mapping : Table (Owner → Maker))
    (hfounded : store.Founded) :
    ((store.enlarged cls arguments mapping).rebase store.instances.size).Mapped
      store.instances.size (store.newRules cls arguments mapping) where
  founded := hfounded
  there := by
    rw [size_rebase]
    exact there_enlarged
  cls := by
    unfold rebase
    rw [instanceAt_modify _ _ _ _ there_enlarged, if_pos rfl]
  rules := (rules_rebase _ _ _).trans rules_enlarged

/-- An attribute that the class does not have is looked for in the table. -/
theorem lookUp_enlarged_of_missing (htable : name ≠ tableName)
    (hmissing : store.hasAttribute (store.classAt cls).lineage name = false) :
    (store.enlarged cls arguments mapping).lookUp store.instances.size name
      = (store.enlarged cls arguments mapping).fallback store.instances.size name := by
  obtain ⟨hinbuilt, hattribute⟩ := hasAttribute_eq_false_iff.mp hmissing
  unfold lookUp lookUpOnClass
  rw [rules_enlarged, classOf_enlarged, findAttribute_enlarged]
  simp only [if_neg htable, hattribute, hinbuilt, Option.bind_none]

section

variable (hplain : store.Plain (store.classAt cls).lineage mapping)
  (htitling : store.Titling (store.classAt cls).lineage mapping)
  (hvisible : ∀ name ∈ store.rulesOn (store.classAt cls).lineage,
    ∃ definition, store.findAttribute (store.classAt cls).lineage name = some (.rule definition))
  (hfree : ∀ name ∈ mapping.names, store.hasAttribute (store.classAt cls).lineage name = false)

include hplain htitling hvisible hfree

/-- A rule of the new language is an attribute of it too. -/
theorem lookUp_enlarged_of_rule
    (hname : name ∈ store.rulesOn (store.classAt cls).lineage ++ mapping.names) {cell : CellId}
    (hget : (store.enlarged cls arguments mapping).getRule store.instances.size name = .ok cell) :
    (store.enlarged cls arguments mapping).lookUp store.instances.size name
      = .ok (.parser cell) := by
  obtain ⟨hreserved, htable, -⟩ := hplain.named name hname
  have hfallback : (store.enlarged cls arguments mapping).fallback store.instances.size name
      = .ok (.parser cell) :=
    (fallback_eq_ok_iff hget).mpr ⟨operable_enlarged hplain arguments _ (by decide), hreserved⟩
  rcases List.mem_append.mp hname with hinherited | hmapped
  · obtain ⟨definition, hfound⟩ := hvisible name hinherited
    have hmade : (store.enlarged cls arguments mapping).findAttribute
        ((store.enlarged cls arguments mapping).classOf store.instances.size).lineage name
        = some (.rule definition) := by
      rw [classOf_enlarged, findAttribute_enlarged, hfound]
    rw [lookUp_eq_of_rule rules_enlarged hmade htable, titleOf_enlarged]
    rcases htitling name definition hfound with hsame | hother
    · rw [hsame, hget]
    · -- there is no rule of that name, so the attribute is looked for in the table after all
      rw [getRule_eq_bind rules_enlarged, operable_enlarged hplain arguments _ (by decide),
        Table.get?_eq_none_iff.mpr (by rwa [names_newRules, mem_names_makers])]
      exact hfallback
  · rw [lookUp_enlarged_of_missing htable (hfree name hmapped), hfallback]

/-- As far as it may be asked, the new language has the same attributes if it is taken for another
one. -/
theorem nearly_lookUp_enlarged (hfounded : store.Founded)
    (hasked : store.Asked (store.classAt cls).lineage mapping name) :
    Nearly (fun _ => True) ((store.enlarged cls arguments mapping).lookUp store.instances.size name)
      (((store.enlarged cls arguments mapping).rebase store.instances.size).lookUp
        store.instances.size name) := by
  have hmapped := mapped_enlarged cls arguments mapping hfounded
  by_cases hname : name ∈ store.rulesOn (store.classAt cls).lineage ++ mapping.names
  · -- a rule is found by its name either way
    obtain ⟨hreserved, htable, hinbuilt⟩ := hplain.named name hname
    obtain ⟨cell, hcell, hget⟩ := exists_getRule_enlarged hplain arguments hname
    rw [lookUp_enlarged_of_rule hplain htitling hvisible hfree hname hget,
      hmapped.lookUp htable hinbuilt,
      (fallback_eq_ok_iff (hmapped.getRule hcell)).mpr ⟨hmapped.operation _, hreserved⟩]
    exact .ok trivial
  · have hmissing := hasked.resolve_left hname
    by_cases htable : name = tableName
    · subst htable
      unfold lookUp
      rw [hmapped.rules, rules_enlarged]
      exact .ok trivial
    · -- what is no attribute of the class is looked for in the table either way
      rw [lookUp_enlarged_of_missing htable hmissing,
        hmapped.lookUp htable (hasAttribute_eq_false_iff.mp hmissing).1]
      exact nearly_fallback rules_enlarged (operable_enlarged hplain arguments)
        (fun name _ => hmapped.operation name) name

/-- If its rules ask it for no more than they may, the new language may be taken for another one. -/
theorem rebasable_enlarged (hfounded : store.Founded)
    (hdiscreet : (store.enlarged cls arguments mapping).Discreet
      (.asking store.instances.size (store.Asked (store.classAt cls).lineage mapping))) :
    (store.enlarged cls arguments mapping).Rebasable
      (.asking store.instances.size (store.Asked (store.classAt cls).lineage mapping))
      store.instances.size where
  there := there_enlarged
  rules := ⟨_, rules_enlarged⟩
  discreet := hdiscreet
  operable := operable_enlarged hplain arguments
  operable' name _ := (mapped_enlarged cls arguments mapping hfounded).operation name
  lookUp _ hasked := nearly_lookUp_enlarged hplain htitling hvisible hfree hfounded (hasked rfl)

end

end Descent.Store
