import Descent.Proofs.Alike.Stores

/-! # What stores that are alike answer

* **`Store.Alike.getRule`**, **`Store.Alike.lookUp`** — paired languages answer alike.
* **`Store.Alike.shownObject`** — what is no parser is shown alike. -/

namespace Descent.Store.Alike

variable {leeway : Leeway} {pairs : Pairing} {store store' : Store}
  {language language' : InstanceId}

/-! ## Attributes -/

theorem classAt (h : store.Alike leeway pairs store') (cls : ClassId) :
    store'.classAt cls = store.classAt cls := by
  unfold Store.classAt
  rw [h.classes]

theorem classNamed (h : store.Alike leeway pairs store') (name : String) :
    store'.classNamed name = store.classNamed name := by
  unfold Store.classNamed
  rw [h.classNames]

theorem findAttribute (h : store.Alike leeway pairs store') (lineage : List ClassId)
    (name : String) : store'.findAttribute lineage name = store.findAttribute lineage name := by
  unfold Store.findAttribute
  simp only [h.classAt]

theorem ruleTable (h : store.Alike leeway pairs store') (lineage : List ClassId) :
    store'.ruleTable lineage = store.ruleTable lineage := by
  unfold Store.ruleTable
  simp only [h.classAt]

section Paired

variable (h : store.Alike leeway pairs store')
  (hl : (Reference.language language, Reference.language language') ∈ pairs)

include h hl

theorem classOf : store'.classOf language' = store.classOf language := by
  unfold Store.classOf
  rw [(h.language language language' hl).2.2.1, h.classAt]

/-- Paired languages have rules of the same names, and these are paired. -/
theorem rulesOf :
    Answers (Table.Rel (CellId.Pairs pairs)) (store.rulesOf language)
      (store'.rulesOf language') := by
  unfold Store.rulesOf
  rw [h.classOf hl]
  rcases (h.language language language' hl).2.2.2.eq_or with
    ⟨e, e'⟩ | ⟨rules, rules', e, e', hrules⟩
  · rw [e, e']
    exact .error _
  · rw [e, e']
    exact .ok hrules

/-- The operations on paired languages are there, or fail, alike. -/
theorem operation (name : String) :
    store'.operation language' name = store.operation language name := by
  unfold Store.operation
  rw [h.classOf hl, h.findAttribute]
  split
  · rfl
  · rfl
  · simp only [bind, Except.bind]
    rcases (h.rulesOf hl).eq_or with ⟨rules, rules', e, e', -⟩ | ⟨cause, e, e'⟩
    · rw [e, e']
    · rw [e, e']

/-- A rule of paired languages is paired. -/
theorem getRule (name : String) :
    Answers (CellId.Pairs pairs) (store.getRule language name)
      (store'.getRule language' name) := by
  unfold Store.getRule
  rw [h.operation hl, h.classOf hl]
  simp only [bind, Except.bind, pure, Except.pure]
  cases store.operation language Inbuilt.getRule with
  | error cause => exact .error cause
  | ok done =>
    rcases (h.rulesOf hl).eq_or with ⟨rules, rules', e, e', hrules⟩ | ⟨cause, e, e'⟩
    · rw [e, e']
      simp only
      rcases (hrules.get? name).eq_or with ⟨e, e'⟩ | ⟨cell, cell', e, e', hcell⟩
      · rw [e, e']
        exact .error _
      · rw [e, e']
        exact .ok hcell
    · rw [e, e']
      exact .error cause

theorem ruleNames : store'.ruleNames language' = store.ruleNames language := by
  unfold Store.ruleNames
  rw [h.operation hl]
  simp only [bind, Except.bind, pure, Except.pure]
  rcases (h.rulesOf hl).eq_or with ⟨rules, rules', e, e', hrules⟩ | ⟨cause, e, e'⟩
  · rw [e, e']
    simp only [hrules.names]
  · rw [e, e']

theorem shownLanguage : store'.shownLanguage language' = store.shownLanguage language := by
  unfold Store.shownLanguage
  rw [h.operation hl, h.ruleNames hl, h.classOf hl]

theorem inbuilt (name kind : String) :
    store'.inbuilt language' name kind = store.inbuilt language name kind := by
  unfold Store.inbuilt
  rw [h.shownLanguage hl]

/-- The last resort of an attribute leads to what is paired. -/
theorem fallback (name : String) :
    Answers (Object.Pairs pairs (CellId.Pairs pairs)) (store.fallback language name)
      (store'.fallback language' name) := by
  unfold Store.fallback
  rw [h.operation hl]
  simp only [bind, Except.bind, pure, Except.pure]
  cases store.operation language Inbuilt.fallback with
  | error cause => exact .error cause
  | ok done =>
    by_cases hreserved : name.startsWith "__" = true
    · simp only [hreserved, if_true]
      exact .error _
    · simp only [hreserved]
      rcases (h.getRule hl name).eq_or with ⟨cell, cell', e, e', hcell⟩ | ⟨cause, e, e'⟩
      · rw [e, e']
        exact .ok hcell
      · rw [e, e']
        exact .error cause

/-- What the classes of paired languages say leads to what is paired. -/
theorem lookUpOnClass (name : String) :
    Answers (Object.Pairs pairs (CellId.Pairs pairs)) (store.lookUpOnClass language name)
      (store'.lookUpOnClass language' name) := by
  unfold Store.lookUpOnClass
  simp only [h.classOf hl, h.findAttribute, h.ruleName]
  cases store.findAttribute (store.classOf language).lineage name with
  | none =>
    simp only
    cases (Inbuilt.find? name).bind Inbuilt.onLanguage with
    | none => exact h.fallback hl name
    | some kind =>
      simp only [h.inbuilt hl]
      refine .ok ?_
      unfold Store.inbuilt
      split
      · exact ⟨rfl, rfl⟩
      · split
        · exact rfl
        · exact ⟨rfl, rfl⟩
  | some found =>
    cases found with
    | value v origin => exact .ok rfl
    | rule definition =>
      simp only
      rcases (h.getRule hl (store.definitions.getD definition default).name).eq_or with
        ⟨cell, cell', e, e', hcell⟩ | ⟨cause, e, e'⟩
      · rw [e, e']
        exact .ok hcell
      · rw [e, e']
        -- only a rule of another name is looked for elsewhere
        split
        · contradiction
        · exact h.fallback hl name
        · exact .error _

/-- An attribute of paired languages leads to what is paired. -/
theorem lookUp (name : String) :
    Answers (Object.Pairs pairs (CellId.Pairs pairs)) (store.lookUp language name)
      (store'.lookUp language' name) := by
  unfold Store.lookUp
  rcases (h.language language language' hl).2.2.2.eq_or with
    ⟨e, e'⟩ | ⟨rules, rules', e, e', hrules⟩
  · rw [e, e']
    exact h.lookUpOnClass hl name
  · rw [e, e']
    simp only
    split
    · exact .ok hrules
    · exact h.lookUpOnClass hl name

end Paired

/-! ## Texts -/

/-- The text of a table of lazy parsers depends on their names and stages. -/
theorem shownTable_eq (store : Store) (rules : Table CellId) :
    store.shownTable rules = tableText (rules.map fun entry =>
      (entry.1, (store.cellAt entry.2).name, (store.cellAt entry.2).state)) := by
  unfold shownTable tableText
  rw [List.map_map]
  rfl

/-- Paired lazy parsers have the same name. -/
theorem cellAt_name (h : store.Alike leeway pairs store') {id id' : CellId}
    (hid : id.Pairs pairs id') : (store'.cellAt id').name = (store.cellAt id).name := by
  obtain ⟨cell, cell', hcell, hcell', halike⟩ := h.cell id id' hid
  unfold cellAt
  rw [hcell, hcell']
  exact halike.name

/-- Tables of paired lazy parsers are shown alike. -/
theorem shownTable (h : store.Alike leeway pairs store')
    (hstate : ¬ leeway.stages → ∀ id id', id.Pairs pairs id' →
      (store'.cellAt id').state = (store.cellAt id).state)
    {rules rules' : Table CellId} (hrules : Table.Rel (CellId.Pairs pairs) rules rules') :
    SameText leeway (store.shownTable rules) (store'.shownTable rules') := by
  rw [shownTable_eq, shownTable_eq]
  by_cases hstages : leeway.stages
  · refine .table hstages ?_
    induction hrules with
    | nil => rfl
    | cons hentry _ ih =>
      refine congrArg₂ List.cons ?_ ih
      exact Prod.ext hentry.1 (h.cellAt_name hentry.2)
  · have heq : (rules'.map fun entry =>
          (entry.1, (store'.cellAt entry.2).name, (store'.cellAt entry.2).state))
        = rules.map fun entry =>
          (entry.1, (store.cellAt entry.2).name, (store.cellAt entry.2).state) := by
      induction hrules with
      | nil => rfl
      | cons hentry _ ih =>
        refine congrArg₂ List.cons ?_ ih
        exact Prod.ext hentry.1
          (Prod.ext (h.cellAt_name hentry.2) (hstate hstages _ _ hentry.2))
    rw [heq]
    exact .same _

/-- What is no parser is shown alike: tables of lazy parsers in the stages that these are in. -/
theorem shownObject (h : store.Alike leeway pairs store')
    (hstate : ¬ leeway.stages → ∀ id id', id.Pairs pairs id' →
      (store'.cellAt id').state = (store.cellAt id).state)
    {object object' : Object Parser} (hobject : object.Pairs pairs (fun _ _ => False) object') :
    Outcomes leeway (SameText leeway) (store.shownObject object) (store'.shownObject object') := by
  cases object with
  | parser p => cases object' <;> exact hobject.elim
  | value v =>
    cases object' with
    | value v' =>
      obtain rfl : v' = v := hobject
      change Outcomes leeway (SameText leeway) v'.shown? v'.shown?
      cases v'.shown? with
      | ok shown => exact .ok (.same shown)
      | error cause => exact .error (.same cause)
    | parser | table | other => exact hobject.elim
  | table rules =>
    cases object' with
    | table rules' => exact .ok (h.shownTable hstate hobject)
    | parser | value | other => exact hobject.elim
  | other kind shown =>
    cases object' with
    | other kind' shown' =>
      obtain ⟨rfl, rfl⟩ := hobject
      exact .ok (.same _)
    | parser | value | table => exact hobject.elim

end Descent.Store.Alike
