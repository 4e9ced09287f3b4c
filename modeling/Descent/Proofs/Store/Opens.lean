import Descent.Engine.Related
import Descent.Proofs.Store.Spares
import Descent.Proofs.Table

/-! # What runs no parser makes none

What an engine does by itself leaves every lazy parser as it is, and those that it adds have not
been made.

* **`Store.Opens`** — a later store with nothing but unbuilt lazy parsers besides those that were
  there.
* **`Eval.Basic.opens`** — main statement: this is what an engine does by itself.
* **`Store.Opens.stored`** — so every lazy parser holds what it held. -/

namespace Descent

/-! ## New lazy parsers -/

namespace Store

variable {store after : Store}

/-- Nothing has changed, and the lazy parsers that were not there before are unbuilt. -/
structure Opens (store after : Store) : Prop where
  /-- Nothing has changed. -/
  adds : Adds store after
  /-- What is there was there, or it is unbuilt. -/
  fresh : ∀ id cell, after.cell? id = some cell →
    store.cell? id = some cell ∨ ∃ name make, cell = .unbuilt name make

/-- Where the languages are the same, there are no new lazy parsers. -/
theorem Opens.of_instances_eq (hadds : Adds store after)
    (hinstances : after.instances = store.instances) : Opens store after := by
  refine ⟨hadds, fun id cell hcell => .inl ?_⟩
  rw [← cell?_eq_of_instances_eq hinstances]
  exact hcell

theorem Opens.refl (store : Store) : Opens store store :=
  .of_instances_eq (.refl (fun _ => rfl) store) rfl

theorem Opens.trans {middle : Store} (h : Opens store middle) (h' : Opens middle after) :
    Opens store after := by
  refine ⟨h.adds.trans (fun _ _ _ => Eq.trans) h'.adds, fun id cell hcell => ?_⟩
  rcases h'.fresh id cell hcell with hmiddle | hunbuilt
  · exact h.fresh id cell hmiddle
  · exact .inr hunbuilt

theorem opens_log (store : Store) (record : Record) : Opens store (store.log record) := by
  refine .of_instances_eq (adds_log store record) ?_
  unfold log
  split
  · rfl
  · rfl

/-- What is logged changes no lazy parser. -/
@[simp] theorem cell?_log (store : Store) (record : Record) (id : CellId) :
    (store.log record).cell? id = store.cell? id := by
  unfold log
  split
  · rfl
  · rfl

theorem opens_logResult {source : Source} {result : Result} {done : Unit}
    (h : store.logResult source result = .ok (done, after)) : Opens store after := by
  unfold logResult at h
  split at h
  · obtain ⟨record, -, hmade⟩ := exists_of_map_eq_ok h
    cases hmade
    exact opens_log store record
  · cases h
    exact .refl store

/-- A lazy parser was there before another one was added, or it is that one. -/
theorem fresh_addCell {language : InstanceId} {name : String} {make : Maker} {id : CellId}
    {cell : Cell} (hcell : (store.addCell language name make).2.cell? id = some cell) :
    store.cell? id = some cell ∨ cell = .unbuilt name make := by
  -- only the language that gets the lazy parser has another one, and it comes last there
  by_cases hthere : id.language < store.instances.size
  · unfold addCell cell? at hcell
    rw [instanceAt_modify _ _ _ _ hthere] at hcell
    split at hcell
    · rw [Array.getElem?_push] at hcell
      split at hcell
      · exact .inr (Option.some.inj hcell).symm
      · exact .inl hcell
    · exact .inl hcell
  · have hgone := Nat.le_of_not_lt hthere
    rw [cell?_of_size_le] at hcell
    · cases hcell
    · unfold addCell
      rw [size_modify]
      exact hgone

theorem opens_addCell (store : Store) (language : InstanceId) (name : String) (make : Maker) :
    Opens store (store.addCell language name make).2 :=
  ⟨adds_addCell store language name make, fun _ _ hcell =>
    (fresh_addCell hcell).imp_right fun heq => ⟨name, make, heq⟩⟩

/-- What is so of the rules of a class, as a language makes them, and of those of a mapping, is so
of all rules of the language. -/
theorem of_mem_makers {P : Maker → Prop} {lineage : List ClassId} {owner : Owner}
    {rules : Table (Owner → Maker)}
    (hinherited : ∀ entry ∈ store.ruleTable lineage,
      P (.mk ((store.definitions.getD entry.2 default).action owner)))
    (hmapped : ∀ entry ∈ rules, P (entry.2 owner)) {entry : String × Maker}
    (hentry : entry ∈ store.makers lineage owner rules) : P entry.2 := by
  rcases Table.mem_putAll hentry with hold | hnew
  · obtain ⟨inherited, hinherits, rfl⟩ := List.mem_map.mp hold
    exact hinherited inherited hinherits
  · obtain ⟨mapped, hmaps, rfl⟩ := List.mem_map.mp hnew
    exact hmapped mapped hmaps

/-- A lazy parser was there before a new language, or it is that of one of its rules. -/
theorem fresh_create {className : String} {arguments : Table Value}
    {rules : Table (Owner → Maker)} {language : InstanceId}
    (h : store.create className arguments rules = .ok (language, after)) {id : CellId} {cell : Cell}
    (hcell : after.cell? id = some cell) :
    store.cell? id = some cell ∨ ∃ cls, store.classNamed className = .ok cls ∧
      ∃ entry ∈ store.makers (store.classAt cls).lineage ⟨language, arguments⟩ rules,
        cell = .unbuilt (lazyName entry.1) entry.2 := by
  obtain ⟨cls, hcls, rfl, made, rfl, hmade⟩ := create_eq_ok h
  rcases Nat.lt_trichotomy id.language store.instances.size with hlt | heq | hgt
  · unfold cell? at hcell ⊢
    rw [instanceAt_push store made hlt] at hcell
    exact .inl hcell
  · -- the new language has nothing but the lazy parsers of its rules
    unfold cell? at hcell
    rw [heq, instanceAt_push_self] at hcell
    rcases hmade with rfl | rfl
    · have hmem := List.mem_of_getElem? (by simpa using hcell)
      obtain ⟨entry, hentry, rfl⟩ := List.mem_map.mp hmem
      exact .inr ⟨cls, hcls, entry, hentry, rfl⟩
    · simp at hcell
  · rw [cell?_of_size_le] at hcell
    · cases hcell
    · rw [Array.size_push]
      exact hgt

/-- The lazy parsers of a new language are those of its rules. -/
theorem cell?_create {className : String} {arguments : Table Value}
    {rules : Table (Owner → Maker)} {language : InstanceId}
    (h : store.create className arguments rules = .ok (language, after)) {index : Nat} {cell : Cell}
    (hcell : after.cell? ⟨language, index⟩ = some cell) :
    ∃ cls, store.classNamed className = .ok cls ∧
      ∃ entry ∈ store.makers (store.classAt cls).lineage ⟨language, arguments⟩ rules,
        cell = .unbuilt (lazyName entry.1) entry.2 := by
  refine (fresh_create h hcell).resolve_left fun hold => ?_
  -- before, there was no language of that number
  obtain ⟨-, -, rfl, -⟩ := create_eq_ok h
  rw [cell?_of_size_le store (Nat.le_refl _)] at hold
  cases hold

theorem opens_create {className : String} {arguments : Table Value}
    {rules : Table (Owner → Maker)} {language : InstanceId}
    (h : store.create className arguments rules = .ok (language, after)) : Opens store after :=
  ⟨adds_create h, fun _ _ hcell => (fresh_create h hcell).imp_right
    fun ⟨_, _, entry, _, heq⟩ => ⟨_, entry.2, heq⟩⟩

end Store

/-- What an engine does by itself changes nothing and makes no parser. -/
theorem Eval.Basic.opens {α : Type} {computation : Eval α} (h : computation.Basic)
    {store after : Store} {ended : Except Raised α}
    (hon : computation.on store = some (ended, after)) : store.Opens after := by
  cases h with
  | raise cause =>
    cases hon
    exact .refl store
  | note event =>
    cases hon
    exact .of_instances_eq (Store.adds_note store event) rfl
  | addCell language name make =>
    cases hon
    exact Store.opens_addCell store language name make
  | read view =>
    cases hon
    exact .refl store
  | consult view =>
    cases hon
    exact .refl store
  | create className arguments rules =>
    rcases attempt_on_eq_some hon with ⟨language, hcreate, -⟩ | ⟨-, -, rfl⟩
    · exact Store.opens_create hcreate
    · exact .refl _
  | count counter =>
    cases hon
    exact .of_instances_eq (Store.adds_count store counter) rfl
  | logResult source result =>
    rcases attempt_on_eq_some hon with ⟨done, hlog, -⟩ | ⟨-, -, rfl⟩
    · exact Store.opens_logResult hlog
    · exact .refl _

/-! ## What lazy parsers hold -/

namespace Store

variable {store after : Store}

theorem Opens.spares (h : Opens store after) : Spares store after :=
  ⟨fun _ _ => h.adds.cell?_eq_some, h.fresh⟩

theorem Opens.isSome_cell? (h : Opens store after) {id : CellId}
    (hsome : (store.cell? id).isSome) : (after.cell? id).isSome := h.spares.isSome_cell? hsome

/-- Where no parsers are made, every lazy parser holds what it held. -/
theorem Opens.stored (h : Opens store after) (id : CellId) : after.stored id = store.stored id :=
  h.spares.stored id

@[simp] theorem stored_log (store : Store) (record : Record) (id : CellId) :
    (store.log record).stored id = store.stored id := (opens_log store record).stored id

@[simp] theorem stage_log (store : Store) (record : Record) (id : CellId) :
    (store.log record).stage id = store.stage id := (opens_log store record).spares.stage id

/-- After a class was to be defined, the store has it or is as it was. -/
theorem defineClass_or_eq {name : String} {bases : List String} {initialises : Bool}
    {members : List Member} {ended : Except Raised Unit}
    (h : (Eval.attempt fun store => (store.defineClass name bases initialises members).map
      fun after => ((), after)).on store = some (ended, after)) :
    store.defineClass name bases initialises members = .ok after ∨ after = store := by
  rcases Eval.attempt_on_eq_some h with ⟨done, hmade, -⟩ | ⟨-, -, rfl⟩
  · obtain ⟨made, hdefine, heq⟩ := exists_of_map_eq_ok hmade
    cases heq
    exact .inl hdefine
  · exact .inr rfl

/-- What becomes of a lazy parser takes no lazy parser away. -/
theorem isSome_cell?_settle (id : CellId) (name : String) (ended : Except Raised (Object Parser))
    {cell : CellId} (h : (store.cell? cell).isSome) :
    ((Engine.settle id name (ended, store)).2.cell? cell).isSome := by
  by_cases hparser : ∃ p, ended = .ok (.parser p)
  · obtain ⟨p, rfl⟩ := hparser
    refine (opens_log _ _).isSome_cell? ?_
    rw [setParser, isSome_cell?_modifyCell]
    exact h
  · obtain ⟨cause, hsettle⟩ := Engine.settle_of_ne id name (not_exists.mp hparser) store
    rw [hsettle]
    show ((store.setState id .unbuilt).cell? cell).isSome
    rw [setState, isSome_cell?_modifyCell]
    exact h

end Store

end Descent
