import Descent.Language
import Mathlib.Order.Basic
import Mathlib.Tactic.ByContra

/-! # Stores only grow

Whatever runs, nothing that a store holds goes away: classes and what was put aside stay as they
are, languages keep their rules, and a lazy parser changes at most in the way that `keeps` allows.

* **`Store.Grows`** — the relation between a store and a later one.
* **`Store.Adds`** — nothing at all has changed, although there may be more.
* **`Store.adds_note`**, **`Store.adds_log`**, **`Store.adds_addCell`**, **`Store.adds_count`**,
  **`Store.adds_create`** — what a script does by itself only adds.
* **`Store.grows_modifyCell`** — changing a lazy parser. -/

namespace Descent.Store

/-- A later store has all that a store has. Its lazy parsers have changed as `keeps` allows. -/
structure Grows (keeps : Cell → Cell → Prop) (store after : Store) : Prop where
  /-- The rules of classes are the same. -/
  definitions : after.definitions = store.definitions
  /-- The classes are the same. -/
  classes : after.classes = store.classes
  /-- They have the same names. -/
  classNames : after.classNames = store.classNames
  /-- The parsers put aside are the same. -/
  kept : after.kept = store.kept
  /-- So is what was put aside by name. -/
  shelf : after.shelf = store.shelf
  /-- No language has gone. -/
  size_le : store.instances.size ≤ after.instances.size
  /-- Each language has the class that it had. -/
  cls : ∀ language < store.instances.size,
    (after.instanceAt language).cls = (store.instanceAt language).cls
  /-- Each language has the rules that it had. -/
  rules : ∀ language < store.instances.size,
    (after.instanceAt language).rules = (store.instanceAt language).rules
  /-- Each lazy parser has changed as it may. -/
  cell : ∀ id cell, store.cell? id = some cell →
    ∃ cell', after.cell? id = some cell' ∧ keeps cell cell'

/-- A later store has all that a store has, unchanged. -/
abbrev Adds (store after : Store) : Prop := Grows Eq store after

variable {keeps keeps' : Cell → Cell → Prop} {store middle after : Store}

/-- A store has what it has. -/
theorem Grows.refl (h : ∀ cell, keeps cell cell) (store : Store) : Grows keeps store store :=
  ⟨rfl, rfl, rfl, rfl, rfl, Nat.le_refl _, fun _ _ => rfl, fun _ _ => rfl,
    fun _ cell hcell => ⟨cell, hcell, h cell⟩⟩

/-- Growing goes on. -/
theorem Grows.trans (htrans : ∀ a b c, keeps a b → keeps b c → keeps a c)
    (h : Grows keeps store middle) (h' : Grows keeps middle after) : Grows keeps store after where
  definitions := h'.definitions.trans h.definitions
  classes := h'.classes.trans h.classes
  classNames := h'.classNames.trans h.classNames
  kept := h'.kept.trans h.kept
  shelf := h'.shelf.trans h.shelf
  size_le := Nat.le_trans h.size_le h'.size_le
  cls language hl := (h'.cls language (Nat.lt_of_lt_of_le hl h.size_le)).trans (h.cls language hl)
  rules language hl :=
    (h'.rules language (Nat.lt_of_lt_of_le hl h.size_le)).trans (h.rules language hl)
  cell id cell hcell := by
    obtain ⟨cell₁, hcell₁, hkeeps₁⟩ := h.cell id cell hcell
    obtain ⟨cell₂, hcell₂, hkeeps₂⟩ := h'.cell id cell₁ hcell₁
    exact ⟨cell₂, hcell₂, htrans _ _ _ hkeeps₁ hkeeps₂⟩

/-- Growth of which more was asked. -/
theorem Grows.mono (hkeeps : ∀ a b, keeps a b → keeps' a b) (h : Grows keeps store after) :
    Grows keeps' store after where
  definitions := h.definitions
  classes := h.classes
  classNames := h.classNames
  kept := h.kept
  shelf := h.shelf
  size_le := h.size_le
  cls := h.cls
  rules := h.rules
  cell id cell hcell := by
    obtain ⟨cell', hcell', hk⟩ := h.cell id cell hcell
    exact ⟨cell', hcell', hkeeps _ _ hk⟩

/-- A lazy parser that is not there later was not there before. -/
theorem Grows.cell?_eq_none (h : Grows keeps store after) {id : CellId}
    (hnone : after.cell? id = none) : store.cell? id = none := by
  by_contra hne
  obtain ⟨cell, hcell⟩ := Option.ne_none_iff_exists'.mp hne
  obtain ⟨cell', hcell', -⟩ := h.cell id cell hcell
  rw [hnone] at hcell'
  cases hcell'

/-- An unchanged store may be taken to have grown in any reflexive way. -/
theorem Grows.of_adds (hrefl : ∀ cell, keeps cell cell) (h : Adds store after) :
    Grows keeps store after := by
  refine h.mono fun a b hab => ?_
  rw [← hab]
  exact hrefl a

/-- A lazy parser that was there is there still, as it was. -/
theorem Adds.cell?_eq_some (h : Adds store after) {id : CellId} {cell : Cell}
    (hcell : store.cell? id = some cell) : after.cell? id = some cell := by
  obtain ⟨cell', hcell', rfl⟩ := h.cell id cell hcell
  exact hcell'

/-- A lazy parser that is there belongs to a language that is there. -/
theorem lt_size_of_cell? {id : CellId} {cell : Cell} (hcell : store.cell? id = some cell) :
    id.language < store.instances.size := by
  by_contra hge
  rw [cell?_of_size_le store (Nat.le_of_not_lt hge)] at hcell
  cases hcell

/-! ## What scripts do by themselves -/

/-- Stores with the same lazy parsers and languages, and all else of a grammar. -/
theorem adds_of_instances_eq (definitions : after.definitions = store.definitions)
    (classes : after.classes = store.classes) (classNames : after.classNames = store.classNames)
    (kept : after.kept = store.kept) (shelf : after.shelf = store.shelf)
    (instances : after.instances = store.instances) : Adds store after := by
  have hat : ∀ language, after.instanceAt language = store.instanceAt language := by
    intro language
    unfold instanceAt
    rw [instances]
  refine ⟨definitions, classes, classNames, kept, shelf, ?_, ?_, ?_, ?_⟩
  · exact Nat.le_of_eq (congrArg Array.size instances.symm)
  · intro language _
    rw [hat]
  · intro language _
    rw [hat]
  · intro id cell hcell
    refine ⟨cell, ?_, rfl⟩
    unfold cell? at hcell ⊢
    rw [hat]
    exact hcell

theorem adds_note (store : Store) (event : Event) : Adds store (store.note event) :=
  adds_of_instances_eq rfl rfl rfl rfl rfl rfl

theorem adds_log (store : Store) (record : Record) : Adds store (store.log record) := by
  unfold log
  split
  · exact adds_of_instances_eq rfl rfl rfl rfl rfl rfl
  · exact .refl (fun _ => rfl) store

theorem adds_count (store : Store) (counter : Nat) : Adds store (store.count counter).2 :=
  adds_of_instances_eq rfl rfl rfl rfl rfl rfl

@[simp] theorem countOf_log (store : Store) (record : Record) (counter : Nat) :
    (store.log record).countOf counter = store.countOf counter := by
  unfold log
  split <;> rfl

/-- Asking a counter adds one to it and nothing to the others. -/
theorem countOf_count (store : Store) (counter other : Nat) :
    (store.count counter).2.countOf other
      = if other = counter then store.countOf counter + 1 else store.countOf other := by
  unfold count countOf
  by_cases h : other = counter
  · simp [h]
  · have hne : (counter == other) = false := beq_eq_false_iff_ne.mpr fun e => h e.symm
    -- the entries of other counters are all still there
    have hothers : ∀ item : Nat × Nat,
        decide ((item.1 != counter) = true ∧ (item.1 == other) = true) = (item.1 == other) := by
      intro item
      by_cases he : item.1 = other
      · simp [he, h]
      · simp [he]
    simp only [List.find?_cons, hne, List.find?_filter, hothers, h, if_false]

/-- Changing one language leaves its place among the others. -/
theorem size_modify (store : Store) (language : InstanceId) (change : Instance → Instance) :
    (store.instances.modify language change).size = store.instances.size :=
  Array.size_modify

/-- A change to one language that keeps its class and rules, and whose lazy parsers have changed as
they may. -/
theorem grows_modify (store : Store) (language : InstanceId) (change : Instance → Instance)
    (hrefl : ∀ cell, keeps cell cell) (hcls : ∀ old, (change old).cls = old.cls)
    (hrules : ∀ old, (change old).rules = old.rules)
    (hcells : ∀ (old : Instance) (index : Nat) (cell : Cell), old.cells[index]? = some cell →
      ∃ cell', (change old).cells[index]? = some cell' ∧ keeps cell cell') :
    Grows keeps store { store with instances := store.instances.modify language change } := by
  refine ⟨rfl, rfl, rfl, rfl, rfl, ?_, ?_, ?_, ?_⟩
  · exact Nat.le_of_eq (size_modify store language change).symm
  · intro other hother
    rw [instanceAt_modify _ _ _ _ hother]
    split
    · exact hcls _
    · rfl
  · intro other hother
    rw [instanceAt_modify _ _ _ _ hother]
    split
    · exact hrules _
    · rfl
  · intro id cell hcell
    have hthere := lt_size_of_cell? hcell
    unfold cell? at hcell ⊢
    rw [instanceAt_modify _ _ _ _ hthere]
    split
    · exact hcells _ _ _ hcell
    · exact ⟨cell, hcell, hrefl cell⟩

theorem adds_addCell (store : Store) (language : InstanceId) (name : String) (make : Maker) :
    Adds store (store.addCell language name make).2 := by
  refine grows_modify store language _ (fun _ => rfl) (fun _ => rfl) (fun _ => rfl) ?_
  intro old index cell hcell
  -- the new lazy parser comes behind all that were there
  have hlt : index < old.cells.size := (Array.getElem?_eq_some_iff.mp hcell).1
  exact ⟨cell, by rw [Array.getElem?_push_lt hlt, ← hcell, Array.getElem?_eq_getElem hlt], rfl⟩

/-- A lazy parser added to a language that is there can be found. -/
theorem cell?_addCell {language : InstanceId} (hl : language < store.instances.size)
    (name : String) (make : Maker) :
    (store.addCell language name make).2.cell? (store.addCell language name make).1
      = some (.unbuilt name make) := by
  unfold addCell cell?
  rw [instanceAt_modify _ _ _ _ hl, if_pos rfl]
  exact Array.getElem?_push_size

/-- It was not there before. -/
theorem cell?_fst_addCell (store : Store) (language : InstanceId) (name : String) (make : Maker) :
    store.cell? (store.addCell language name make).1 = none := by
  unfold addCell cell?
  exact Array.getElem?_eq_none (Nat.le_refl _)

/-- A lazy parser may be changed in a way that may be gone. -/
theorem grows_modifyCell (store : Store) (id : CellId) (change : Cell → Cell)
    (hrefl : ∀ cell, keeps cell cell) (hchange : ∀ cell, keeps cell (change cell)) :
    Grows keeps store (store.modifyCell id change) := by
  refine grows_modify store id.language _ hrefl (fun _ => rfl) (fun _ => rfl) ?_
  intro old index cell hcell
  simp only [Array.getElem?_modify, hcell, Option.map_some]
  split
  · exact ⟨_, rfl, hchange cell⟩
  · exact ⟨_, rfl, hrefl cell⟩

/-- What a lazy parser holds after such a change, it held before, or it is the one that was
changed. -/
theorem parser_of_modifyCell {id other : CellId} {change : Cell → Cell} {old cell : Cell}
    {parser : Parser} (hold : store.cell? other = some old)
    (hcell : (store.modifyCell id change).cell? other = some cell)
    (hparser : cell.parser = some parser) :
    old.parser = some parser ∨ (id = other ∧ (change old).parser = some parser) := by
  rw [cell?_modifyCell, hold] at hcell
  by_cases hsame : id = other
  · rw [if_pos hsame, Option.map_some, Option.some.injEq] at hcell
    rw [← hcell] at hparser
    exact .inr ⟨hsame, hparser⟩
  · rw [if_neg hsame, Option.some.injEq] at hcell
    rw [← hcell] at hparser
    exact .inl hparser

/-! ## New languages -/

/-- A new language leaves the others as they are. -/
theorem instanceAt_push (store : Store) (made : Instance) {language : InstanceId}
    (h : language < store.instances.size) :
    ({ store with instances := store.instances.push made } : Store).instanceAt language
      = store.instanceAt language := by
  unfold instanceAt
  rw [Array.getD_eq_getD_getElem?, Array.getD_eq_getD_getElem?, Array.getElem?_push_lt h,
    Array.getElem?_eq_getElem h]

/-- A new language comes last. -/
theorem instanceAt_push_self (store : Store) (made : Instance) :
    ({ store with instances := store.instances.push made } : Store).instanceAt
      store.instances.size = made := by
  unfold instanceAt
  rw [Array.getD_eq_getD_getElem?, Array.getElem?_push_size, Option.getD_some]

theorem adds_push (store : Store) (made : Instance) :
    Adds store { store with instances := store.instances.push made } := by
  refine ⟨rfl, rfl, rfl, rfl, rfl, ?_, ?_, ?_, ?_⟩
  · simp
  · intro language hl
    rw [instanceAt_push store made hl]
  · intro language hl
    rw [instanceAt_push store made hl]
  · intro id cell hcell
    have hthere := lt_size_of_cell? hcell
    refine ⟨cell, ?_, rfl⟩
    unfold cell? at hcell ⊢
    rw [instanceAt_push store made hthere]
    exact hcell

/-- A language is made by adding it to the store. -/
theorem create_eq_ok {className : String} {arguments : Table Value}
    {rules : Table (Owner → Maker)} {language : InstanceId}
    (h : store.create className arguments rules = .ok (language, after)) :
    ∃ cls, store.classNamed className = .ok cls ∧ language = store.instances.size ∧
      ∃ made : Instance, after = { store with instances := store.instances.push made } ∧
        let makers := store.makers (store.classAt cls).lineage ⟨language, arguments⟩ rules
        (made = ⟨cls, arguments, some (numbered language makers.names), (cellsOf makers).toArray⟩ ∨
          made = ⟨cls, arguments, none, #[]⟩) := by
  unfold create at h
  cases hcls : store.classNamed className with
  | error cause =>
    rw [hcls] at h
    cases h
  | ok cls =>
    rw [hcls] at h
    refine ⟨cls, rfl, ?_⟩
    simp only [bind, Except.bind, pure, Except.pure] at h
    split at h
    · split at h
      · cases h
      · cases h
        exact ⟨rfl, _, rfl, .inl rfl⟩
    · cases h
      exact ⟨rfl, _, rfl, .inr rfl⟩

theorem adds_create {className : String} {arguments : Table Value}
    {rules : Table (Owner → Maker)} {language : InstanceId}
    (h : store.create className arguments rules = .ok (language, after)) : Adds store after := by
  obtain ⟨cls, -, -, made, rfl, -⟩ := create_eq_ok h
  exact adds_push store made

end Descent.Store
