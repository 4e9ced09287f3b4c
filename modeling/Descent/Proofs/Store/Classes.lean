import Descent.Hierarchy

/-! # What a class definition does

* **`Definitions.getD_push`**, **`Definitions.getD_modify`** — the rules of classes after one was
  added or changed.
* **`Store.inv_addMembers`** — what no member ends, no several members end.
* **`Store.defineClass_eq_ok`** — a class definition, stage by stage.
* **`Store.instances_defineClass`** — it changes no language. -/

namespace Descent

/-- A definition that was added comes last. -/
theorem Definitions.getD_push (definitions : Array Definition) (definition : Definition)
    (id : DefinitionId) : (definitions.push definition).getD id default
      = if id = definitions.size then definition else definitions.getD id default := by
  rw [Array.getD_eq_getD_getElem?, Array.getD_eq_getD_getElem?, Array.getElem?_push]
  split <;> rfl

/-- A change to one definition leaves the others as they are. -/
theorem Definitions.getD_modify (definitions : Array Definition) (changed id : DefinitionId)
    (change : Definition → Definition) : (definitions.modify changed change).getD id default
      = if changed = id ∧ id < definitions.size then change (definitions.getD id default)
        else definitions.getD id default := by
  rw [Array.getD_eq_getD_getElem?, Array.getD_eq_getD_getElem?, Array.getElem?_modify]
  by_cases hid : id < definitions.size
  · rw [Array.getElem?_eq_getElem hid]
    split <;> simp_all
  · rw [Array.getElem?_eq_none (Nat.le_of_not_lt hid)]
    simp [hid]

namespace Store

variable {store after : Store}

/-- What comes to a result after something else, has a result there too. -/
theorem exists_of_bind_eq_ok {α β : Type} {first : Except Raised α} {next : α → Except Raised β}
    {result : β} (h : first >>= next = .ok result) :
    ∃ middle, first = .ok middle ∧ next middle = .ok result := by
  cases first with
  | error cause => cases h
  | ok middle => exact ⟨middle, rfl, h⟩

/-- What comes to a result and is changed afterwards, comes to a result that is changed. -/
theorem exists_of_map_eq_ok {α β : Type} {first : Except Raised α} {change : α → β} {result : β}
    (h : first.map change = .ok result) :
    ∃ middle, first = .ok middle ∧ change middle = result := by
  cases first with
  | error cause => cases h
  | ok middle => exact ⟨middle, rfl, Except.ok.inj h⟩

/-- What holds at the beginning and is ended by none of some members, holds after them. -/
theorem inv_addMembers (inv : Store × Table Attribute → Prop) {bases : List ClassId}
    {members : List Member} {made made' : Store × Table Attribute}
    (hstep : ∀ member ∈ members, ∀ made made', inv made →
      addMember bases made member = .ok made' → inv made')
    (hmade : inv made) (h : members.foldlM (addMember bases) made = .ok made') : inv made' := by
  induction members generalizing made with
  | nil =>
    cases h
    exact hmade
  | cons member rest ih =>
    rw [List.foldlM_cons] at h
    obtain ⟨middle, hmember, hrest⟩ := exists_of_bind_eq_ok h
    exact ih (fun other hother => hstep other (List.mem_cons_of_mem _ hother))
      (hstep member List.mem_cons_self made middle hmade hmember) hrest

/-- An attribute more changes no language. -/
theorem instances_addMember {bases : List ClassId} {made made' : Store × Table Attribute}
    {member : Member} (h : addMember bases made member = .ok made') :
    made'.1.instances = made.1.instances := by
  obtain ⟨name, late, content⟩ := member
  unfold addMember at h
  cases content with
  | rule functionName errorName body =>
    cases h
    rfl
  | value value =>
    cases h
    rfl
  | «alias» other =>
    simp only at h
    split at h
    · cases h
      rfl
    · cases h

/-- Naming the rules of a class changes nothing but definitions, and adds none. -/
theorem exists_nameRules_eq (store : Store) (attributes : Table Attribute) :
    ∃ definitions : Array Definition, definitions.size = store.definitions.size ∧
      store.nameRules attributes = { store with definitions := definitions } := by
  unfold nameRules
  generalize rulesAmong attributes = rules
  induction rules generalizing store with
  | nil => exact ⟨store.definitions, rfl, rfl⟩
  | cons rule rest ih =>
    obtain ⟨definitions, hsize, heq⟩ := ih { store with
      definitions := store.definitions.modify rule.2 fun old => { old with name := rule.1 } }
    exact ⟨definitions, hsize.trans Array.size_modify, heq⟩

@[simp] theorem instances_nameRules (store : Store) (attributes : Table Attribute) :
    (store.nameRules attributes).instances = store.instances := by
  obtain ⟨definitions, -, heq⟩ := store.exists_nameRules_eq attributes
  rw [heq]

@[simp] theorem classes_nameRules (store : Store) (attributes : Table Attribute) :
    (store.nameRules attributes).classes = store.classes := by
  obtain ⟨definitions, -, heq⟩ := store.exists_nameRules_eq attributes
  rw [heq]

@[simp] theorem size_definitions_nameRules (store : Store) (attributes : Table Attribute) :
    (store.nameRules attributes).definitions.size = store.definitions.size := by
  obtain ⟨definitions, hsize, heq⟩ := store.exists_nameRules_eq attributes
  rw [heq, hsize]

/-- The early members of a class make its body, whose rules are named by their attributes; then come
the late members, and then the class itself. -/
theorem defineClass_eq_ok {name : String} {bases : List String} {initialises : Bool}
    {members : List Member} (h : store.defineClass name bases initialises members = .ok after) :
    ∃ inherited ancestors early late made own finished own',
      members.partition (fun member => !member.late) = (early, late) ∧
      early.foldlM (addMember inherited) (store, []) = .ok (made, own) ∧
      late.foldlM (addMember inherited) (made.nameRules own, own) = .ok (finished, own') ∧
      after = { finished with
        classes := finished.classes.push
          ⟨name, finished.classes.size :: ancestors, own', initialises⟩
        classNames := finished.classNames.put name finished.classes.size } := by
  unfold defineClass at h
  obtain ⟨ids, -, h⟩ := exists_of_bind_eq_ok h
  obtain ⟨⟨made, own⟩, hearly, h⟩ := exists_of_bind_eq_ok h
  obtain ⟨ancestors, -, h⟩ := exists_of_bind_eq_ok h
  obtain ⟨⟨finished, own'⟩, hlate, h⟩ := exists_of_bind_eq_ok h
  cases h
  exact ⟨_, ancestors, _, _, made, own, finished, own', rfl, hearly, hlate, rfl⟩

/-- A class definition changes no language. -/
theorem instances_defineClass {name : String} {bases : List String} {initialises : Bool}
    {members : List Member} (h : store.defineClass name bases initialises members = .ok after) :
    after.instances = store.instances := by
  obtain ⟨inherited, ancestors, early, late, made, own, finished, own', -, hearly, hlate, rfl⟩ :=
    defineClass_eq_ok h
  have hmade : made.instances = store.instances :=
    inv_addMembers (fun made => made.1.instances = store.instances)
      (fun _ _ _ _ hbefore hone => (instances_addMember hone).trans hbefore) rfl hearly
  exact inv_addMembers (fun made => made.1.instances = store.instances)
    (fun _ _ _ _ hbefore hone => (instances_addMember hone).trans hbefore)
    ((instances_nameRules made own).trans hmade) hlate

end Store

end Descent
