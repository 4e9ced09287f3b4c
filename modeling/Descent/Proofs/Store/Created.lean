import Descent.Proofs.Store.LookUp
import Descent.Proofs.Table

/-! # Languages by the way they were made

* **`Cell.Still`** — a lazy parser that goes by the same name and is made in the same way.
* **`Store.Created`** — a language was made of a class, with certain arguments and further rules.
* **`Store.Created.of_create`** — every new language was made in the way that was asked for.
* **`Store.Created.of_grows`** — a store does not forget how a language was made. -/

namespace Descent

/-- A lazy parser that goes by the same name and is made in the same way. -/
structure Cell.Still (before after : Cell) : Prop where
  /-- The name is the same. -/
  name : after.name = before.name
  /-- The way it is made is the same. -/
  make : after.make = before.make

namespace Cell.Still

theorem refl (cell : Cell) : Cell.Still cell cell := ⟨rfl, rfl⟩

theorem trans {a b c : Cell} (h : Cell.Still a b) (h' : Cell.Still b c) : Cell.Still a c :=
  ⟨h'.name.trans h.name, h'.make.trans h.make⟩

end Cell.Still

namespace Store

/-- How the rules of a new language are made, unless its class leaves them aside. -/
def makers? (store : Store) (cls : ClassId) (owner : Owner) (rules : Table (Owner → Maker)) :
    Option (Table Maker) :=
  if (store.classAt cls).initialises then
    some (store.makers (store.classAt cls).lineage owner rules)
  else none

/-- A language was made of a class, with these arguments and these further rules. -/
structure Created (store : Store) (language : InstanceId) (className : String)
    (arguments : Table Value) (added : Table (Owner → Maker)) : Prop where
  /-- The language is there. -/
  there : language < store.instances.size
  /-- It is of the class. -/
  cls : store.classNamed className = .ok (store.instanceAt language).cls
  /-- Such a language can be made. -/
  can : ∀ cause, store.create className arguments added ≠ .error cause
  /-- Its rules are those of the class and the further ones, unless the class leaves them aside. -/
  rules : (store.instanceAt language).rules
    = (store.makers? (store.instanceAt language).cls ⟨language, arguments⟩ added).map
      fun makers => numbered language makers.names
  /-- They are made as the class and the further rules say. -/
  cell : ∀ makers,
    store.makers? (store.instanceAt language).cls ⟨language, arguments⟩ added = some makers →
      ∀ index name make, makers[index]? = some (name, make) →
        ∃ cell, store.cell? ⟨language, index⟩ = some cell ∧
          (Cell.unbuilt (lazyName name) make).Still cell

namespace Grows

variable {keeps : Cell → Cell → Prop} {store middle after : Store}

/-- A store that has grown twice, and whose lazy parsers are made as before. -/
theorem still_trans (h : Grows Cell.Still store middle) (h' : Grows Cell.Still middle after) :
    Grows Cell.Still store after := h.trans (fun _ _ _ => Cell.Still.trans) h'

theorem classNamed (h : Grows keeps store after) (name : String) :
    after.classNamed name = store.classNamed name := by
  unfold Store.classNamed
  rw [h.classNames]

theorem makers (h : Grows keeps store after) (lineage : List ClassId) (owner : Owner)
    (rules : Table (Owner → Maker)) :
    after.makers lineage owner rules = store.makers lineage owner rules := by
  unfold Store.makers
  rw [h.ruleTable, h.definitions]

theorem makers? (h : Grows keeps store after) (cls : ClassId) (owner : Owner)
    (rules : Table (Owner → Maker)) :
    after.makers? cls owner rules = store.makers? cls owner rules := by
  unfold Store.makers?
  rw [h.classAt, h.makers]

end Grows

variable {store after : Store} {className : String} {arguments : Table Value}
  {added : Table (Owner → Maker)} {language : InstanceId}

/-- Whether a language can be made depends on the classes and on the names of its further rules. -/
theorem create_eq_error {store' : Store} {added' : Table (Owner → Maker)} {cause : Raised}
    (hclasses : store'.classes = store.classes) (hclassNames : store'.classNames = store.classNames)
    (hnames : added'.names = added.names)
    (h : store.create className arguments added = .error cause) :
    store'.create className arguments added' = .error cause := by
  have hnamed : store'.classNamed className = store.classNamed className := by
    unfold classNamed
    rw [hclassNames]
  have hat : ∀ cls, store'.classAt cls = store.classAt cls := by
    intro cls
    unfold classAt
    rw [hclasses]
  have htaken : ∀ lineage names, store'.firstTaken? lineage names
      = store.firstTaken? lineage names := by
    intro lineage names
    unfold firstTaken? hasAttribute findAttribute
    simp only [hat]
  unfold create at h ⊢
  rw [hnamed]
  cases hcls : store.classNamed className with
  | error cause' =>
    rw [hcls] at h
    exact h
  | ok cls =>
    rw [hcls] at h
    simp only [bind, Except.bind, pure, Except.pure, hat, htaken, hnames] at h ⊢
    split at h
    · rename_i hinitialises
      rw [if_pos hinitialises]
      split at h
      · exact h
      · cases h
    · cases h

namespace Created

/-- A store does not forget how a language was made. -/
theorem of_grows (h : store.Created language className arguments added)
    (hgrows : Grows Cell.Still store after) :
    after.Created language className arguments added where
  there := Nat.lt_of_lt_of_le h.there hgrows.size_le
  cls := by
    rw [hgrows.classNamed, hgrows.cls language h.there]
    exact h.cls
  can cause hcause :=
    h.can cause (create_eq_error hgrows.classes.symm hgrows.classNames.symm rfl hcause)
  rules := by
    rw [hgrows.rules language h.there, hgrows.cls language h.there, hgrows.makers?]
    exact h.rules
  cell makers hmakers index name make hindex := by
    rw [hgrows.cls language h.there, hgrows.makers?] at hmakers
    obtain ⟨cell, hcell, hstill⟩ := h.cell makers hmakers index name make hindex
    obtain ⟨later, hlater, hstill'⟩ := hgrows.cell _ cell hcell
    exact ⟨later, hlater, hstill.trans hstill'⟩

/-- The rules of a language are lazy parsers that belong to it. -/
theorem rules_there (h : store.Created language className arguments added) {rules : Table CellId}
    (hrules : (store.instanceAt language).rules = some rules) {item : String × CellId}
    (hitem : item ∈ rules) :
    ∃ index, item.2 = ⟨language, index⟩ ∧ (store.cell? ⟨language, index⟩).isSome := by
  rw [h.rules, Option.map_eq_some_iff] at hrules
  obtain ⟨makers, hmakers, rfl⟩ := hrules
  obtain ⟨⟨name, index⟩, hindex, rfl⟩ := List.mem_map.mp hitem
  have hlt : index < makers.length := by
    simpa [Table.names] using List.snd_lt_of_mem_zipIdx hindex
  obtain ⟨cell, hcell, -⟩ := h.cell makers hmakers index _ _ (List.getElem?_eq_getElem hlt)
  exact ⟨index, rfl, by rw [hcell]; rfl⟩

/-- A language was made in the way in which it is added to a store, and its lazy parsers have not
been run. -/
theorem of_push {made : Instance} (makers : Option (Table Maker))
    (hcls : store.classNamed className = .ok made.cls)
    (hcan : ∀ cause, store.create className arguments added ≠ .error cause)
    (hmakers : store.makers? made.cls ⟨store.instances.size, arguments⟩ added = makers)
    (hrules : made.rules = makers.map fun makers => numbered store.instances.size makers.names)
    (hcells : made.cells = ((makers.map cellsOf).getD []).toArray)
    (hafter : after = { store with instances := store.instances.push made }) :
    after.Created store.instances.size className arguments added ∧
      ∀ index cell, after.cell? ⟨store.instances.size, index⟩ = some cell →
        cell.state = .unbuilt ∧ cell.parser = none := by
  -- all that was there is as it was
  have hgrows : Adds store after := by
    rw [hafter]
    exact adds_push store made
  have hat : after.instanceAt store.instances.size = made := by
    rw [hafter]
    exact instanceAt_push_self store made
  refine ⟨⟨?_, ?_, ?_, ?_, ?_⟩, ?_⟩
  · rw [hafter]
    simp
  · rw [hat, hgrows.classNamed]
    exact hcls
  · intro cause hcause
    exact hcan cause (create_eq_error hgrows.classes.symm hgrows.classNames.symm rfl hcause)
  · rw [hat, hgrows.makers?, hmakers]
    exact hrules
  · intro found hfound index name make hindex
    rw [hat, hgrows.makers?, hmakers] at hfound
    refine ⟨_, ?_, .refl _⟩
    unfold cell?
    rw [hat, hcells, hfound]
    simp [cellsOf, hindex]
  · intro index cell hcell
    unfold cell? at hcell
    rw [hat, hcells] at hcell
    cases makers with
    | none => simp at hcell
    | some makers =>
      have hmem := List.mem_of_getElem? (by simpa using hcell)
      obtain ⟨entry, -, rfl⟩ := List.mem_map.mp hmem
      exact ⟨rfl, rfl⟩

/-- A new language was made in the way that was asked for, and its lazy parsers have not been
run. -/
theorem of_create (h : store.create className arguments added = .ok (language, after)) :
    language = store.instances.size ∧ after.Created language className arguments added ∧
      ∀ index cell, after.cell? ⟨language, index⟩ = some cell →
        cell.state = .unbuilt ∧ cell.parser = none := by
  have hcan : ∀ cause, store.create className arguments added ≠ .error cause := by
    intro cause hcause
    rw [h] at hcause
    cases hcause
  unfold create at h
  cases hcls : store.classNamed className with
  | error cause =>
    rw [hcls] at h
    cases h
  | ok cls =>
    rw [hcls] at h
    simp only [bind, Except.bind, pure, Except.pure] at h
    split at h
    · rename_i hinitialises
      split at h
      · cases h
      · cases h
        refine ⟨rfl, of_push (some (store.makers (store.classAt cls).lineage
          ⟨store.instances.size, arguments⟩ added)) ?_ hcan ?_ ?_ ?_ rfl⟩
        · exact hcls
        · exact if_pos hinitialises
        · rfl
        · rfl
    · rename_i hinitialises
      cases h
      refine ⟨rfl, of_push none ?_ hcan ?_ ?_ ?_ rfl⟩
      · exact hcls
      · exact if_neg hinitialises
      · rfl
      · rfl

end Created

end Store

end Descent
