import Descent.Proofs.Hierarchies

/-! # Languages of classes with mappings besides

A language gets the rules of its class and those of a mapping. It is made unless a name of the mapping
is an attribute of the class already, and nothing is made otherwise.

* **`Store.enlarged`** — the store with the new language.
* **`Store.create_of_taken`**, **`Store.create_of_free`** — when it is made.
* **`Store.Assembled`** — a new language with all these rules: their names, their order, and how each
  of them is going to be made.
* **`Store.assembled_enlarged`** — main statement: this is what is made. -/

namespace Descent.Store

variable {store : Store} {lineage : List ClassId} {cls : ClassId} {className : String}
  {arguments : Table Value} {mapping : Table (Owner → Maker)} {owner : Owner} {name : String}

/-! ## How rules are made -/

/-- The rules of the class have their names. -/
theorem names_inherited (lineage : List ClassId) (owner : Owner) :
    Table.names ((store.ruleTable lineage).map fun entry =>
      (entry.1, Maker.mk ((store.definitions.getD entry.2 default).action owner)))
      = store.rulesOn lineage :=
  (Table.names_map (fun definition =>
    Maker.mk ((store.definitions.getD definition default).action owner)) _).trans
      (names_ruleTable lineage)

/-- So have those of the mapping. -/
theorem names_mapped (mapping : Table (Owner → Maker)) (owner : Owner) :
    Table.names (mapping.map fun entry => (entry.1, entry.2 owner)) = mapping.names :=
  Table.names_map (fun maker : Owner → Maker => maker owner) mapping

/-- The names of all rules are those of the class and those of the mapping. -/
theorem mem_names_makers : name ∈ (store.makers lineage owner mapping).names ↔
    name ∈ store.rulesOn lineage ++ mapping.names := by
  unfold makers
  rw [Table.mem_names_putAll, names_inherited, names_mapped, List.mem_append]

/-- No name stands twice among them. -/
theorem nodup_names_makers : (store.makers lineage owner mapping).names.Nodup := by
  refine Table.nodup_names_putAll ?_ _
  rw [names_inherited, ← names_ruleTable]
  exact nodup_names_ruleTable lineage

/-- The rules of the class come first, then those of the mapping, if that has names of its own. -/
theorem names_makers (hmapping : mapping.names.Nodup)
    (hfree : ∀ name ∈ mapping.names, name ∉ store.rulesOn lineage) :
    (store.makers lineage owner mapping).names = store.rulesOn lineage ++ mapping.names := by
  unfold makers
  rw [Table.putAll_of_disjoint, Table.names, List.map_append, ← Table.names, ← Table.names,
    names_inherited, names_mapped]
  · rw [names_mapped]
    exact hmapping
  · rw [names_mapped, names_inherited]
    exact hfree

/-- What is found among all rules: that of the mapping, and otherwise that of the class. -/
theorem get?_makers (hmapping : mapping.names.Nodup) (name : String) :
    (store.makers lineage owner mapping).get? name = ((mapping.get? name).map (· owner)).or
      (((store.ruleTable lineage).get? name).map fun definition =>
        .mk ((store.definitions.getD definition default).action owner)) := by
  unfold makers
  rw [Table.get?_putAll (by rwa [names_mapped])]
  exact congrArg₂ _ (Table.get?_map (fun maker : Owner → Maker => maker owner) mapping name)
    (Table.get?_map (fun definition =>
      Maker.mk ((store.definitions.getD definition default).action owner)) _ name)

/-! ## The store with a new language -/

/-- How the rules of a new language are made. -/
abbrev newMakers (store : Store) (cls : ClassId) (arguments : Table Value)
    (mapping : Table (Owner → Maker)) : Table Maker :=
  store.makers (store.classAt cls).lineage ⟨store.instances.size, arguments⟩ mapping

/-- The rules of a new language by name. -/
def newRules (store : Store) (cls : ClassId) (arguments : Table Value)
    (mapping : Table (Owner → Maker)) : Table CellId :=
  numbered store.instances.size (store.newMakers cls arguments mapping).names

theorem names_newRules : (store.newRules cls arguments mapping).names
    = (store.newMakers cls arguments mapping).names := by
  simp [newRules, numbered, Table.names, Function.comp_def]

/-- A store with a new language of a class, and of a mapping besides. -/
def enlarged (store : Store) (cls : ClassId) (arguments : Table Value)
    (mapping : Table (Owner → Maker)) : Store :=
  let made : Instance := ⟨cls, arguments, some (store.newRules cls arguments mapping),
    (cellsOf (store.newMakers cls arguments mapping)).toArray⟩
  { store with instances := store.instances.push made }

section Create

variable (hcls : store.classNamed className = .ok cls)
  (hinitialises : (store.classAt cls).initialises = true)

include hcls hinitialises

/-- If a name is an attribute of the class already, no language is made. -/
theorem create_of_taken (arguments : Table Value) (hname : name ∈ mapping.names)
    (htaken : store.hasAttribute (store.classAt cls).lineage name = true) :
    ∃ other ∈ mapping.names, store.hasAttribute (store.classAt cls).lineage other = true ∧
      store.create className arguments mapping
        = .error (.nameTaken other (store.classAt cls).name) := by
  cases hfirst : store.firstTaken? (store.classAt cls).lineage mapping.names with
  | none => simpa [htaken] using List.find?_eq_none.mp hfirst name hname
  | some other =>
    refine ⟨other, List.mem_of_find?_eq_some hfirst, List.find?_some hfirst, ?_⟩
    unfold create
    rw [hcls]
    simp only [bind, Except.bind, hinitialises, if_true, hfirst]

/-- Otherwise one is made. -/
theorem create_of_free (arguments : Table Value)
    (hfree : ∀ name ∈ mapping.names, store.hasAttribute (store.classAt cls).lineage name = false) :
    store.create className arguments mapping
      = .ok (store.instances.size, store.enlarged cls arguments mapping) := by
  have hfirst : store.firstTaken? (store.classAt cls).lineage mapping.names = none :=
    List.find?_eq_none.mpr fun name hname => by simp [hfree name hname]
  unfold create
  rw [hcls]
  simp only [bind, Except.bind, pure, Except.pure, hinitialises, if_true, hfirst]
  rfl

/-- If no language is made, a name is an attribute of the class already, which the error says. -/
theorem taken_of_create {cause : Raised}
    (hcause : store.create className arguments mapping = .error cause) :
    ∃ name ∈ mapping.names, store.hasAttribute (store.classAt cls).lineage name = true ∧
      cause = .nameTaken name (store.classAt cls).name := by
  by_cases hfree : ∀ name ∈ mapping.names,
      store.hasAttribute (store.classAt cls).lineage name = false
  · rw [create_of_free hcls hinitialises arguments hfree] at hcause
    cases hcause
  · simp only [not_forall, Bool.not_eq_false] at hfree
    obtain ⟨name, hname, htaken⟩ := hfree
    obtain ⟨other, hother, hhas, herror⟩ :=
      create_of_taken hcls hinitialises arguments hname htaken
    rw [hcause] at herror
    exact ⟨other, hother, hhas, Except.error.inj herror⟩

/-- If one is made, no name was. -/
theorem free_of_create {made : InstanceId × Store}
    (hmade : store.create className arguments mapping = .ok made) :
    ∀ name ∈ mapping.names, store.hasAttribute (store.classAt cls).lineage name = false := by
  intro name hname
  by_contra htaken
  obtain ⟨other, -, -, herror⟩ :=
    create_of_taken hcls hinitialises arguments hname (by simpa using htaken)
  rw [hmade] at herror
  cases herror

end Create

/-- The new language. -/
theorem instanceAt_enlarged : (store.enlarged cls arguments mapping).instanceAt store.instances.size
    = ⟨cls, arguments, some (store.newRules cls arguments mapping),
      (cellsOf (store.newMakers cls arguments mapping)).toArray⟩ := instanceAt_push_self store _

theorem rules_enlarged :
    ((store.enlarged cls arguments mapping).instanceAt store.instances.size).rules
      = some (store.newRules cls arguments mapping) := congrArg Instance.rules instanceAt_enlarged

theorem classOf_enlarged :
    (store.enlarged cls arguments mapping).classOf store.instances.size = store.classAt cls := by
  unfold classOf
  rw [instanceAt_enlarged]
  rfl

theorem there_enlarged :
    store.instances.size < (store.enlarged cls arguments mapping).instances.size := by
  simp [enlarged]

/-- What classes have is as it was. -/
theorem findAttribute_enlarged :
    (store.enlarged cls arguments mapping).findAttribute = store.findAttribute := rfl

theorem titleOf_enlarged : (store.enlarged cls arguments mapping).titleOf = store.titleOf := rfl

/-- Each of its rules is a lazy parser of its own that has not been run. -/
theorem cell?_enlarged {maker : Maker}
    (hmaker : (store.newMakers cls arguments mapping).get? name = some maker) :
    ∃ cell, (store.newRules cls arguments mapping).get? name = some cell ∧
      (store.enlarged cls arguments mapping).cell? cell = some (.unbuilt (lazyName name) maker) := by
  have hname : name ∈ (store.newMakers cls arguments mapping).names := by
    by_contra hmem
    rw [Table.get?_eq_none_iff.mpr hmem] at hmaker
    cases hmaker
  rw [← names_newRules] at hname
  obtain ⟨cell, hcell⟩ := Table.exists_get?_of_mem_names hname
  obtain ⟨index, value, rfl, hindex, hvalue⟩ :=
    Table.get?_numbered (CellId.mk store.instances.size) hcell
  rw [hmaker, Option.some.injEq] at hvalue
  subst hvalue
  refine ⟨_, hcell, ?_⟩
  unfold cell?
  rw [instanceAt_enlarged]
  simp [cellsOf, hindex]

/-! ## What is made -/

/-- A language with the rules of a class with the given lineage and with those of a mapping. None of
its rules has been made, and each of them is going to be made for the language. -/
structure Assembled (store : Store) (lineage : List ClassId) (arguments : Table Value)
    (mapping : Table (Owner → Maker)) (language : InstanceId) (rules : Table CellId)
    (made : Store) : Prop where
  /-- The language has these rules. -/
  there : (made.instanceAt language).rules = some rules
  /-- The rules of the class come first, in the order in which they first appear from the most basic
  class to the most derived one. Then come those of the mapping. -/
  names : rules.names = store.rulesOn lineage ++ mapping.names
  /-- No name stands twice among them. -/
  nodup : rules.names.Nodup
  /-- The language tells these names, unless its class has something else in the place of that. -/
  told : made.operation language Inbuilt.ruleNames = .ok () →
    made.ruleNames language = .ok (store.rulesOn lineage ++ mapping.names)
  /-- A rule of the class is that of the most derived class which has the name. -/
  inherited : ∀ name ∈ store.rulesOn lineage, ∃ definition cell,
    store.findAttribute lineage name = some (.rule definition) ∧ rules.get? name = some cell ∧
      made.cell? cell = some (.unbuilt (lazyName name)
        (.mk ((store.definitions.getD definition default).action ⟨language, arguments⟩)))
  /-- A rule of the mapping is what the mapping says. -/
  mapped : ∀ name maker, mapping.get? name = some maker → ∃ cell, rules.get? name = some cell ∧
    made.cell? cell = some (.unbuilt (lazyName name) (maker ⟨language, arguments⟩))

/-- The rules of a class, none of which is hidden by something that is no rule, and those of a mapping
are all rules of the new language. -/
theorem assembled_enlarged (h : store.Tidy) (hmapping : mapping.names.Nodup)
    (hvisible : ∀ name ∈ store.rulesOn (store.classAt cls).lineage,
      ∃ definition, store.findAttribute (store.classAt cls).lineage name = some (.rule definition))
    (hfree : ∀ name ∈ mapping.names,
      store.hasAttribute (store.classAt cls).lineage name = false) :
    store.Assembled (store.classAt cls).lineage arguments mapping store.instances.size
      (store.newRules cls arguments mapping) (store.enlarged cls arguments mapping) := by
  -- a rule of the class is an attribute, and the names of the mapping are no attributes
  have hown : ∀ name ∈ mapping.names, name ∉ store.rulesOn (store.classAt cls).lineage := by
    intro name hname hrule
    obtain ⟨definition, hfound⟩ := hvisible name hrule
    rw [(hasAttribute_eq_false_iff.mp (hfree name hname)).2] at hfound
    cases hfound
  have hnames : (store.newRules cls arguments mapping).names
      = store.rulesOn (store.classAt cls).lineage ++ mapping.names :=
    names_newRules.trans (names_makers hmapping hown)
  refine ⟨rules_enlarged, hnames, ?_, fun hoperation => ?_, fun name hname => ?_,
    fun name maker hmaker => ?_⟩
  · rw [names_newRules]
    exact nodup_names_makers
  · unfold ruleNames Store.rulesOf
    rw [hoperation, rules_enlarged, ← hnames]
    rfl
  · obtain ⟨definition, hfound⟩ := hvisible name hname
    have hunmapped : mapping.get? name = none :=
      Table.get?_eq_none_iff.mpr fun hmapped => hown name hmapped hname
    have hmaker : (store.newMakers cls arguments mapping).get? name
        = some (.mk ((store.definitions.getD definition default).action
          ⟨store.instances.size, arguments⟩)) := by
      rw [get?_makers hmapping, hunmapped, get?_ruleTable h hfound]
      rfl
    obtain ⟨cell, hcell, hunbuilt⟩ := cell?_enlarged hmaker
    exact ⟨definition, cell, hfound, hcell, hunbuilt⟩
  · refine cell?_enlarged ?_
    rw [get?_makers hmapping, hmaker]
    rfl

end Descent.Store
