import Descent.Proofs.Attributes
import Descent.Proofs.Onward

/-! # Languages made from mappings

A language that is made from nothing but a mapping has no attributes of its class in the way of its
rules. As soon as it is there, and ever after, each rule of the mapping is found in the language's
table, and the attribute of that name is the same lazy parser, unless the name is one that is not
looked for in the table: it begins with two underscores, or it is the name of the table itself.

* **`Store.Founded`** — the class from which all others descend is as it was at the beginning.
* **`Store.Mapped`** — a language of that class, with certain rules.
* **`Store.Mapped.of_create`** — this is what is made from a mapping.
* **`Store.Mapped.onward`** — it stays so in all later stores.
* **`Film.lookUp_mapping`** — main statement: the rules of the mapping as attributes, in every store
  of a session from the one on in which the language was made.
* **`not_forall_lookUp_mapping`** — not every name of a mapping can be had as an attribute. -/

namespace Descent

namespace Store

variable {store after : Store} {language : InstanceId} {rules : Table CellId} {name : String}
  {cell : CellId}

/-! ## The class of languages that are made from mappings -/

/-- The class from which all others descend has no attributes of its own. -/
def Founded (store : Store) : Prop :=
  store.classes[base]? = some ⟨baseName, [base], [], true⟩

theorem founded_initial (logging : Bool) : (Store.initial logging).Founded := rfl

/-- The class is there for good. -/
theorem Founded.onward (h : store.Founded) (hafter : store.Onward after) : after.Founded :=
  hafter.class? base _ h

theorem Founded.classAt (h : store.Founded) : store.classAt base = ⟨baseName, [base], [], true⟩ := by
  unfold Store.classAt
  rw [Array.getD_eq_getD_getElem?, h, Option.getD_some]

/-- Nothing is found on the class. -/
theorem Founded.findAttribute (h : store.Founded) (name : String) :
    store.findAttribute [base] name = none := by
  simp [Store.findAttribute, h.classAt]

/-- It has no rules. -/
theorem Founded.ruleTable (h : store.Founded) : store.ruleTable [base] = [] := by
  simp [Store.ruleTable, h.classAt, rulesAmong, Table.putAll]

/-- The rules of a language of the class are those of the mapping. -/
theorem Founded.mem_names_makers (h : store.Founded) (owner : Owner)
    {mapping : Table (Owner → Maker)} :
    name ∈ (store.makers [base] owner mapping).names ↔ name ∈ mapping.names := by
  unfold makers
  rw [h.ruleTable, Table.mem_names_putAll]
  simp [Table.names, Function.comp_def]

/-! ## Their rules -/

/-- A language of the class from which all others descend, with certain rules. -/
structure Mapped (store : Store) (language : InstanceId) (rules : Table CellId) : Prop where
  /-- The class is as it was at the beginning. -/
  founded : store.Founded
  /-- The language is there. -/
  there : language < store.instances.size
  /-- It is of the class. -/
  cls : (store.instanceAt language).cls = base
  /-- It has the rules. -/
  rules : (store.instanceAt language).rules = some rules

namespace Mapped

/-- Such a language has the same rules in all later stores. -/
theorem onward (h : store.Mapped language rules) (hafter : store.Onward after) :
    after.Mapped language rules where
  founded := h.founded.onward hafter
  there := Nat.lt_of_lt_of_le h.there hafter.size_le
  cls := (hafter.cls language h.there).trans h.cls
  rules := (hafter.rules language h.there).trans h.rules

theorem classOf (h : store.Mapped language rules) :
    store.classOf language = ⟨baseName, [base], [], true⟩ := by
  unfold Store.classOf
  rw [h.cls, h.founded.classAt]

/-- No operation on it has been replaced. -/
theorem operation (h : store.Mapped language rules) (name : String) :
    store.operation language name = .ok () := by
  unfold Store.operation
  rw [h.classOf, h.founded.findAttribute]

/-- Its rules can be asked for. -/
theorem getRule (h : store.Mapped language rules) (hcell : rules.get? name = some cell) :
    store.getRule language name = .ok cell := by
  rw [getRule_eq_bind h.rules, h.operation, hcell]
  rfl

/-- An attribute that not every language has is looked for in the table. -/
theorem lookUp (h : store.Mapped language rules) (htable : name ≠ tableName)
    (hinbuilt : Inbuilt.find? name = none) :
    store.lookUp language name = store.fallback language name := by
  unfold Store.lookUp lookUpOnClass
  simp only [h.rules, if_neg htable, h.classOf, h.founded.findAttribute, hinbuilt,
    Option.bind_none]

/-- Names that begin with two underscores are not looked for. -/
theorem fallback_of_reserved (h : store.Mapped language rules)
    (hreserved : name.startsWith "__" = true) :
    store.fallback language name = .error (.reservedName name) := by
  unfold Store.fallback
  rw [h.operation]
  simp [bind, Except.bind, hreserved, throw, throwThe, MonadExceptOf.throw]

/-- A language made from a mapping that is accepted has the rules of the mapping, and none of them
has the name of an attribute that every language has. -/
theorem of_create (hfounded : store.Founded) (hbase : store.classNamed baseName = .ok base)
    {mapping : Table (Owner → Maker)}
    (hcreate : store.create baseName [] mapping = .ok (language, after)) :
    ∃ rules, after.Mapped language rules ∧
      ∀ name ∈ mapping.names, Inbuilt.find? name = none ∧ ∃ cell, rules.get? name = some cell := by
  unfold create at hcreate
  rw [hbase] at hcreate
  simp only [bind, Except.bind, pure, Except.pure, hfounded.classAt, if_true] at hcreate
  split at hcreate
  · cases hcreate
  · rename_i htaken
    cases hcreate
    let makers := store.makers [base] ⟨store.instances.size, []⟩ mapping
    refine ⟨numbered store.instances.size makers.names, ⟨hfounded, by simp, ?_, ?_⟩,
      fun name hname => ⟨?_, Table.exists_get?_of_mem_names ?_⟩⟩
    · rw [instanceAt_push_self]
    · rw [instanceAt_push_self]
    · -- otherwise the mapping would not have been accepted
      have hfree := List.find?_eq_none.mp htaken name hname
      simpa [hasAttribute, hfounded.findAttribute] using hfree
    · have hmade := (hfounded.mem_names_makers ⟨store.instances.size, []⟩).mpr hname
      simpa [numbered, Table.names, Function.comp_def] using hmade

end Mapped

end Store

/-! ## Sessions -/

/-- Once a language has been made from a mapping, in every store of the session, each rule of the
mapping is one and the same lazy parser, and except for the name of the table, the attribute of its
name is that lazy parser if and only if the name does not begin with two underscores. If it does, the
attribute is said not to be there. -/
theorem Film.lookUp_mapping {depth : Nat} {logging : Bool} {deeds : List Deed}
    {earlier later : List Scene} {before made : Scene}
    (hfilm : Film.ofSession depth logging deeds = earlier ++ before :: made :: later)
    (hbase : before.store.classNamed Store.baseName = .ok Store.base)
    {mapping : Table (Owner → Maker)} {language : InstanceId}
    (hcreate : before.store.create Store.baseName [] mapping = .ok (language, made.store))
    {name : String} (hname : name ∈ mapping.names) (htable : name ≠ Store.tableName) :
    ∃ cell, ∀ scene ∈ made :: later,
      scene.store.getRule language name = .ok cell ∧
        (scene.store.lookUp language name = .ok (.parser cell) ↔ name.startsWith "__" = false) ∧
        (name.startsWith "__" = true →
          scene.store.lookUp language name = .error (.reservedName name)) := by
  have hmem : before ∈ Film.ofSession depth logging deeds := by simp [hfilm]
  have hfounded := (Store.founded_initial logging).onward (Film.onward_of_mem_ofSession hmem)
  obtain ⟨rules, hmade, hrules⟩ := Store.Mapped.of_create hfounded hbase hcreate
  obtain ⟨hinbuilt, cell, hcell⟩ := hrules name hname
  refine ⟨cell, fun scene hscene => ?_⟩
  have hscenes := (List.pairwise_append.mp (hfilm ▸ Film.pairwise_ofSession depth logging deeds)).2.1
  have honward : made.store.Onward scene.store := by
    rcases List.mem_cons.mp hscene with rfl | hlater
    · exact .refl _
    · exact (List.pairwise_cons.mp (List.pairwise_cons.mp hscenes).2).1 scene hlater
  have hmapped := hmade.onward honward
  have hget := hmapped.getRule hcell
  rw [hmapped.lookUp htable hinbuilt, Store.fallback_eq_ok_iff hget]
  refine ⟨hget, ?_, hmapped.fallback_of_reserved⟩
  rw [hmapped.operation]
  simp

/-- A mapping of two rules, one of which has a name that begins with two underscores. -/
def namingRules : Table (Owner → Maker) :=
  [("a", fun _ => .mk (.done (.parser (.text "x")))),
    ("__b", fun _ => .mk (.done (.parser (.text "y"))))]

/-- A language is made from the mapping, and its first rule is run. -/
def namingDeeds : List Deed :=
  [.operate (.perform (.create Store.baseName [] namingRules fun _ => .done (.value .nothing))),
    .operate (.run (.lazy ⟨0, 0⟩) "x".toList .start)]

/-- Before, while and after the first rule is made, it is the attribute of its name, and the other
one is not there. -/
theorem Film.lookUp_mapping_naming : ∃ (before made : Scene) (later : List Scene) (cell : CellId),
    Film.ofSession 3 false namingDeeds = [] ++ before :: made :: later ∧
      later.map (fun scene => scene.store.stage cell) = [.building, .ready, .ready, .ready] ∧
      ∀ scene ∈ made :: later, scene.store.lookUp 0 "a" = .ok (.parser cell) ∧
        scene.store.lookUp 0 "__b" = .error (.reservedName "__b") := by
  have hfilm : Film.ofSession 3 false namingDeeds = [] ++ _ :: _ :: _ := rfl
  obtain ⟨cell, hcell⟩ := @Film.lookUp_mapping 3 false namingDeeds [] _ _ _ hfilm rfl
    namingRules 0 rfl "a" (by decide) (by decide)
  obtain ⟨other, hother⟩ := @Film.lookUp_mapping 3 false namingDeeds [] _ _ _ hfilm rfl
    namingRules 0 rfl "__b" (by decide) (by decide)
  obtain rfl : cell = ⟨0, 0⟩ := Except.ok.inj (hcell _ List.mem_cons_self).1.symm
  refine ⟨_, _, _, ⟨0, 0⟩, hfilm, rfl, fun scene hscene => ⟨?_, ?_⟩⟩
  · exact (hcell scene hscene).2.1.mpr (by decide)
  · exact (hother scene hscene).2.2 (by decide +kernel)

/-- Not every rule of a mapping can be had as an attribute, although the mapping is accepted. -/
theorem not_forall_lookUp_mapping :
    ¬ ∀ (mapping : Table (Owner → Maker)) (language : InstanceId) (after : Store),
      (Store.initial false).create Store.baseName [] mapping = .ok (language, after) →
        ∀ name ∈ mapping.names,
          after.lookUp language name = (after.getRule language name).map .parser := by
  intro h
  have hcreate : (Store.initial false).create Store.baseName [] namingRules = .ok (0, _) := rfl
  have hboth := h namingRules 0 _ hcreate "__b" (by decide)
  obtain ⟨rules, hmapped, hrules⟩ :=
    Store.Mapped.of_create (Store.founded_initial false) rfl hcreate
  obtain ⟨hinbuilt, -⟩ := hrules "__b" (by decide)
  rw [hmapped.lookUp (by decide) hinbuilt, hmapped.fallback_of_reserved (by decide +kernel)] at hboth
  -- the table has the rule
  cases hboth

end Descent
