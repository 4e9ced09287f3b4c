import Descent.Proofs.Mapped

/-! # The rules of class hierarchies

Which rules a class has, in which order, and what each of them stands for: rules come in the order
in which their names first appear from the most basic class to the most derived one, and a rule is
the one that the most derived class has under its name.

* **`Store.tidy_of_reached`**, **`Store.founded_of_reached`** — what holds of classes in all stores
  that come about.
* **`Store.rulesOn`** — the names of the rules of a class, in order.
* **`Store.names_ruleTable`**, **`Store.get?_ruleTable`** — main statements: these are the names of
  the rules that languages of the class get, and under each name they get what the class has. -/

namespace Descent.Store

variable {store after : Store}

/-! ## Classes in stores that come about -/

/-- No class has two attributes of one name. -/
def Tidy (store : Store) : Prop := ∀ cls ∈ store.classes, cls.attributes.names.Nodup

/-- What depends on the classes alone is ended by nothing that an engine does. -/
theorem lasting_of_classes (holds : Array Class → Prop) :
    Lasting fun store => holds store.classes where
  beside _ _ _ hadds h := hadds.classes ▸ h
  addCell _ _ _ _ h := h
  create _ _ _ _ _ _ h hcreate := (adds_create hcreate).classes ▸ h
  modifyCell _ _ _ _ h := h

/-- The attributes of a class have different names, whatever its members are. -/
theorem nodup_addMembers {bases : List ClassId} {members : List Member} {attributes : Table Attribute}
    {made : Store × Table Attribute} (h : attributes.names.Nodup)
    (hadd : members.foldlM (addMember bases) (store, attributes) = .ok made) :
    made.2.names.Nodup := by
  refine inv_addMembers (fun made => made.2.names.Nodup) (fun member _ made made' hmade hone => ?_)
    h hadd
  obtain ⟨name, late, content⟩ := member
  unfold addMember at hone
  cases content with
  | rule functionName errorName body =>
    cases hone
    exact Table.nodup_names_put hmade _ _
  | value value =>
    cases hone
    exact Table.nodup_names_put hmade _ _
  | «alias» other =>
    simp only at hone
    split at hone
    · cases hone
      exact Table.nodup_names_put hmade _ _
    · cases hone

theorem Tidy.defineClass {name : String} {bases : List String} {initialises : Bool}
    {members : List Member} (h : store.Tidy)
    (hdefine : store.defineClass name bases initialises members = .ok after) : after.Tidy := by
  obtain ⟨last, hclasses⟩ := exists_classes_defineClass hdefine
  obtain ⟨inherited, ancestors, early, late, made, own, finished, own', -, hearly, hlate, rfl⟩ :=
    defineClass_eq_ok hdefine
  intro cls hcls
  rw [hclasses] at hcls
  rcases Array.mem_push.mp hcls with hold | rfl
  · exact h cls hold
  · rw [← (Array.push_eq_push.mp hclasses).1]
    have hempty : (Table.names ([] : Table Attribute)).Nodup := List.nodup_nil
    exact nodup_addMembers (nodup_addMembers hempty hearly) hlate

/-- In stores that come about, no class has two attributes of one name. -/
theorem tidy_of_reached (h : store.Reached) : store.Tidy := by
  refine h.holds (lasting_of_classes fun classes => ∀ cls ∈ classes, cls.attributes.names.Nodup)
    ?_ ?_ ?_
  · intro logging cls hcls
    obtain rfl := Array.mem_singleton.mp hcls
    exact List.nodup_nil
  · intro store name object hstore
    obtain ⟨kept, shelf, heq⟩ := store.exists_shelve_eq name object
    rw [heq]
    exact hstore
  · exact fun _ _ _ _ _ _ _ hstore hdefine => Tidy.defineClass hstore hdefine

/-- In stores that come about, the class from which all others descend is as it was. -/
theorem founded_of_reached (h : store.Reached) : store.Founded := by
  refine h.holds (lasting_of_classes fun classes => classes[base]? = some ⟨baseName, [base], [], true⟩)
    (fun _ => rfl) ?_ ?_
  · intro store name object hstore
    obtain ⟨kept, shelf, heq⟩ := store.exists_shelve_eq name object
    rw [heq]
    exact hstore
  · exact fun _ _ _ _ _ _ _ hstore hdefine => Founded.onward hstore (onward_defineClass hdefine)

/-! ## Their attributes -/

/-- What is no attribute of a class is neither one that every language has nor one that the class
has. -/
theorem hasAttribute_eq_false_iff {lineage : List ClassId} {name : String} :
    store.hasAttribute lineage name = false ↔
      Inbuilt.find? name = none ∧ store.findAttribute lineage name = none := by
  simp only [hasAttribute, Bool.or_eq_false_iff, Option.isSome_eq_false_iff,
    Option.isNone_iff_eq_none]

/-! ## Their rules -/

/-- The names of the rules that a class has itself, in the order of its body. -/
def ownRules (store : Store) (cls : ClassId) : List String :=
  (rulesAmong (store.classAt cls).attributes).names

/-- The names of the rules of a class given its lineage: in the order in which they first appear from
the most basic class to the most derived one. -/
def rulesOn (store : Store) (lineage : List ClassId) : List String :=
  (lineage.reverse.flatMap store.ownRules).eraseDups

/-- A class has its own rules after those of its ancestors. -/
theorem ruleTable_cons (cls : ClassId) (lineage : List ClassId) :
    store.ruleTable (cls :: lineage)
      = (store.ruleTable lineage).putAll (rulesAmong (store.classAt cls).attributes) := by
  unfold ruleTable
  rw [List.reverse_cons, List.foldl_append, List.foldl_cons, List.foldl_nil]

/-- The rules that the languages of a class get are in this order. -/
theorem names_ruleTable (lineage : List ClassId) :
    (store.ruleTable lineage).names = store.rulesOn lineage := by
  induction lineage with
  | nil => rfl
  | cons cls rest ih =>
    unfold rulesOn at ih ⊢
    rw [ruleTable_cons, Table.names_putAll, ih, List.reverse_cons, List.flatMap_append,
      List.flatMap_singleton, List.eraseDups_append]
    congr 2
    -- a name that appears twice counts once
    simp [List.removeAll, ownRules]

/-- No name stands twice among them. -/
theorem nodup_names_ruleTable (lineage : List ClassId) :
    (store.ruleTable lineage).names.Nodup := by
  induction lineage with
  | nil => exact List.nodup_nil
  | cons cls rest ih =>
    rw [ruleTable_cons]
    exact Table.nodup_names_putAll ih _

/-- The rules among some attributes have different names if the attributes have. -/
theorem nodup_names_rulesAmong {attributes : Table Attribute} (h : attributes.names.Nodup) :
    (rulesAmong attributes).names.Nodup := by
  refine h.sublist ?_
  induction attributes with
  | nil => exact .slnil
  | cons first rest ih =>
    have hrest := ih (List.nodup_cons.mp h).2
    obtain ⟨name, _ | _⟩ := first
    · exact hrest.cons_cons name
    · exact hrest.cons name

/-- An attribute that is a rule is one of the rules, and no other rule has the name of an
attribute. -/
theorem get?_rulesAmong {attributes : Table Attribute} (h : attributes.names.Nodup)
    (name : String) :
    (rulesAmong attributes).get? name = (attributes.get? name).bind Attribute.definition? := by
  induction attributes with
  | nil => rfl
  | cons first rest ih =>
    obtain ⟨hfresh, hnodup⟩ := List.nodup_cons.mp h
    have hrest := ih hnodup
    obtain ⟨key, entry⟩ := first
    -- an attribute that is no rule hides no rule, since no name comes twice
    have hgone : key = name → Table.get? rest name = none := by
      rintro rfl
      exact Table.get?_eq_none_iff.mpr hfresh
    cases entry with
    | rule definition =>
      change Table.get? ((key, definition) :: rulesAmong rest) name = _
      rw [Table.get?, Table.get?, hrest]
      split <;> rfl
    | value value origin =>
      change Table.get? (rulesAmong rest) name = _
      rw [Table.get?, hrest]
      split
      · rw [hgone ‹_›]
        rfl
      · rfl

/-- The attributes of any class have different names. -/
theorem Tidy.classAt (h : store.Tidy) (cls : ClassId) :
    (store.classAt cls).attributes.names.Nodup := by
  unfold Store.classAt
  rw [Array.getD_eq_getD_getElem?]
  cases hcls : store.classes[cls]? with
  | none => exact List.nodup_nil
  | some found => exact h found (Array.mem_of_getElem? hcls)

/-- Under the name of a rule, the languages of a class get what the class has. -/
theorem get?_ruleTable (h : store.Tidy) {lineage : List ClassId} {name : String}
    {definition : DefinitionId}
    (hfound : store.findAttribute lineage name = some (.rule definition)) :
    (store.ruleTable lineage).get? name = some definition := by
  induction lineage with
  | nil => cases hfound
  | cons cls rest ih =>
    rw [ruleTable_cons, Table.get?_putAll (nodup_names_rulesAmong (h.classAt cls)),
      get?_rulesAmong (h.classAt cls)]
    unfold findAttribute at hfound ih
    rw [List.findSome?_cons] at hfound
    cases hown : (store.classAt cls).attributes.get? name with
    | none =>
      rw [hown] at hfound
      exact ih hfound
    | some entry =>
      rw [hown] at hfound
      cases hfound
      rfl

end Descent.Store
