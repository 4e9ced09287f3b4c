import Descent.Proofs.Store.Grows

/-! # Attributes of languages in stores that grow

What a language answers depends on the classes and on the rules that it was made with, so it is the
same in all later stores.

* **`Store.getRule_eq_ok`** — a rule is found in the language's own table.
* **`Store.Concurs`** — two stores that have all in common on which the answers of a language depend.
* **`Store.Concurs.lookUp`**, **`Store.Grows.lookUp`** — main statements: an attribute of a language
  is the same in two such stores, so it stays what it is. -/

namespace Descent.Store

/-- A rule of a language is found in the language's own table. -/
theorem getRule_eq_ok {store : Store} {language : InstanceId} {name : String} {cell : CellId}
    (h : store.getRule language name = .ok cell) :
    ∃ rules, (store.instanceAt language).rules = some rules ∧ rules.get? name = some cell := by
  unfold getRule rulesOf at h
  simp only [bind, Except.bind, pure, Except.pure] at h
  -- it is asked by an operation that a class may have replaced, but then there is an error
  cases hop : store.operation language Inbuilt.getRule with
  | error cause =>
    rw [hop] at h
    cases h
  | ok done =>
    rw [hop] at h
    cases hrules : (store.instanceAt language).rules with
    | none =>
      simp only [hrules] at h
      cases h
    | some rules =>
      simp only [hrules] at h
      cases hget : rules.get? name with
      | none =>
        rw [hget] at h
        cases h
      | some found =>
        rw [hget] at h
        cases h
        exact ⟨rules, rfl, hget⟩

/-- What a language answers depends on no more than this. -/
structure Concurs (language : InstanceId) (store after : Store) : Prop where
  /-- The rules of classes are the same. -/
  definitions : after.definitions = store.definitions
  /-- The classes are the same. -/
  classes : after.classes = store.classes
  /-- The language is of the same class. -/
  cls : (after.instanceAt language).cls = (store.instanceAt language).cls
  /-- It has the same rules. -/
  rules : (after.instanceAt language).rules = (store.instanceAt language).rules

namespace Concurs

variable {store after : Store} {language : InstanceId}

theorem classAt (h : Concurs language store after) (cls : ClassId) :
    after.classAt cls = store.classAt cls := by
  unfold Store.classAt
  rw [h.classes]

theorem findAttribute (h : Concurs language store after) (lineage : List ClassId) (name : String) :
    after.findAttribute lineage name = store.findAttribute lineage name := by
  unfold Store.findAttribute
  simp only [h.classAt]

theorem classOf (h : Concurs language store after) :
    after.classOf language = store.classOf language := by
  unfold Store.classOf
  rw [h.cls, h.classAt]

theorem rulesOf (h : Concurs language store after) :
    after.rulesOf language = store.rulesOf language := by
  unfold Store.rulesOf
  rw [h.rules, h.classOf]

theorem operation (h : Concurs language store after) (name : String) :
    after.operation language name = store.operation language name := by
  unfold Store.operation
  rw [h.classOf, h.findAttribute, h.rulesOf]

theorem getRule (h : Concurs language store after) (name : String) :
    after.getRule language name = store.getRule language name := by
  unfold Store.getRule
  rw [h.operation, h.rulesOf, h.classOf]

theorem fallback (h : Concurs language store after) (name : String) :
    after.fallback language name = store.fallback language name := by
  unfold Store.fallback
  rw [h.operation, h.getRule]

theorem shownLanguage (h : Concurs language store after) :
    after.shownLanguage language = store.shownLanguage language := by
  unfold Store.shownLanguage Store.ruleNames
  rw [h.operation, h.operation, h.rulesOf, h.classOf]

theorem inbuilt (h : Concurs language store after) (name kind : String) :
    after.inbuilt language name kind = store.inbuilt language name kind := by
  unfold Store.inbuilt
  rw [h.shownLanguage]

theorem lookUpOnClass (h : Concurs language store after) (name : String) :
    after.lookUpOnClass language name = store.lookUpOnClass language name := by
  unfold Store.lookUpOnClass
  simp only [h.classOf, h.findAttribute, h.definitions, h.getRule, h.fallback, h.inbuilt]

/-- An attribute of a language is the same. -/
theorem lookUp (h : Concurs language store after) (name : String) :
    after.lookUp language name = store.lookUp language name := by
  unfold Store.lookUp
  rw [h.rules, h.lookUpOnClass]

end Concurs

namespace Grows

variable {keeps : Cell → Cell → Prop} {store after : Store} {language : InstanceId}

theorem classAt (h : Grows keeps store after) (cls : ClassId) :
    after.classAt cls = store.classAt cls := by
  unfold Store.classAt
  rw [h.classes]

/-- The rules of classes depend on the classes alone. -/
theorem ruleTable (h : Grows keeps store after) (lineage : List ClassId) :
    after.ruleTable lineage = store.ruleTable lineage := by
  unfold Store.ruleTable
  simp only [h.classAt]

theorem concurs (h : Grows keeps store after) (hl : language < store.instances.size) :
    Concurs language store after :=
  ⟨h.definitions, h.classes, h.cls language hl, h.rules language hl⟩

theorem getRule (h : Grows keeps store after) (hl : language < store.instances.size)
    (name : String) : after.getRule language name = store.getRule language name :=
  (h.concurs hl).getRule name

/-- An attribute of a language stays what it is. -/
theorem lookUp (h : Grows keeps store after) (hl : language < store.instances.size)
    (name : String) : after.lookUp language name = store.lookUp language name :=
  (h.concurs hl).lookUp name

end Grows

end Descent.Store
