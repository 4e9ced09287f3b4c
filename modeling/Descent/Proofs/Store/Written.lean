import Descent.Engine.Related
import Descent.Proofs.Store.Spares

/-! # What is written to the log

* **`Store.Writes`** — from one store to another, certain entries were made in the log, if one is
  kept.
* **`Store.Unwritten`** — nothing was written at all.
* **`Eval.Inner.unwritten`** — what an engine does by itself in a run writes nothing.
* **`Store.unwritten_shelve`**, **`Store.unwritten_defineClass`** — nor does what a session does
  without an engine.
* **`Store.logResult_eq_ok`** — what is written for a source, if a log is kept. -/

namespace Descent

/-- Nothing has been written to the log. -/
structure Store.Unwritten (store after : Store) : Prop where
  /-- A log is kept or not, as before. -/
  logging : after.logging = store.logging
  /-- It has the same entries. -/
  records : after.records = store.records

/-- Certain entries have been added at the end of the log, if one is kept. -/
structure Store.Writes (store after : Store) (records : List Record) : Prop where
  /-- A log is kept or not, as before. -/
  logging : after.logging = store.logging
  /-- It has these entries besides those that it had. -/
  records : after.records.toList = store.records.toList ++ if store.logging then records else []

namespace Store

variable {store middle after : Store}

/-- What is written in two stretches is written in both together. -/
theorem Writes.trans {records records' : List Record} (h : store.Writes middle records)
    (h' : middle.Writes after records') : store.Writes after (records ++ records') := by
  refine ⟨h'.logging.trans h.logging, ?_⟩
  rw [h'.records, h.records, h.logging, List.append_assoc]
  split <;> rfl

theorem writes_log (store : Store) (record : Record) :
    store.Writes (store.log record) [record] := by
  unfold log
  split
  · rename_i hlogging
    exact ⟨rfl, by simp [hlogging]⟩
  · rename_i hlogging
    exact ⟨rfl, by simp [hlogging]⟩

theorem Unwritten.writes (h : store.Unwritten after) : store.Writes after [] :=
  ⟨h.logging, by simp [h.records]⟩

theorem Unwritten.refl (store : Store) : store.Unwritten store := ⟨rfl, rfl⟩

theorem Unwritten.trans (h : store.Unwritten middle) (h' : middle.Unwritten after) :
    store.Unwritten after := ⟨h'.logging.trans h.logging, h'.records.trans h.records⟩

/-- A lazy parser may change without a word in the log. -/
theorem unwritten_modifyCell (store : Store) (id : CellId) (change : Cell → Cell) :
    store.Unwritten (store.modifyCell id change) := ⟨rfl, rfl⟩

theorem unwritten_shelve (store : Store) (name : String) (object : Object Parser) :
    store.Unwritten (store.shelve name object) := by
  obtain ⟨kept, shelf, heq⟩ := store.exists_shelve_eq name object
  rw [heq]
  exact ⟨rfl, rfl⟩

theorem unwritten_create {className : String} {arguments : Table Value}
    {rules : Table (Owner → Maker)} {language : InstanceId}
    (h : store.create className arguments rules = .ok (language, after)) :
    store.Unwritten after := by
  obtain ⟨cls, -, -, made, rfl, -⟩ := create_eq_ok h
  exact ⟨rfl, rfl⟩

theorem unwritten_addMember {bases : List ClassId} {made made' : Store × Table Attribute}
    {member : Member} (h : addMember bases made member = .ok made') :
    made.1.Unwritten made'.1 := by
  obtain ⟨name, late, content⟩ := member
  unfold addMember at h
  cases content with
  | rule functionName errorName body =>
    cases h
    exact ⟨rfl, rfl⟩
  | value value =>
    cases h
    exact .refl _
  | «alias» other =>
    simp only at h
    split at h
    · cases h
      exact .refl _
    · cases h

theorem unwritten_nameRules (store : Store) (own : Table Attribute) :
    store.Unwritten (store.nameRules own) := by
  obtain ⟨definitions, -, heq⟩ := store.exists_nameRules_eq own
  rw [heq]
  exact ⟨rfl, rfl⟩

theorem unwritten_defineClass {name : String} {bases : List String} {initialises : Bool}
    {members : List Member} (h : store.defineClass name bases initialises members = .ok after) :
    store.Unwritten after := by
  obtain ⟨inherited, ancestors, early, late, made, own, finished, own', -, hearly, hlate, rfl⟩ :=
    defineClass_eq_ok h
  have hmade : store.Unwritten made :=
    inv_addMembers (fun made => store.Unwritten made.1)
      (fun _ _ _ _ hbefore hone => hbefore.trans (unwritten_addMember hone)) (.refl store) hearly
  have hfinished : store.Unwritten finished :=
    inv_addMembers (fun made => store.Unwritten made.1)
      (fun _ _ _ _ hbefore hone => hbefore.trans (unwritten_addMember hone))
      (hmade.trans (unwritten_nameRules made own)) hlate
  exact ⟨hfinished.logging, hfinished.records⟩

/-- What became of a source is added to the log, if one is kept and if there are words for it. -/
theorem logResult_eq_ok {source : Source} {result : Result} {done : Unit}
    (h : store.logResult source result = .ok (done, after)) :
    (store.logging = true ∧ ∃ record, Record.ofResult source result = .ok record ∧
      after = store.log record) ∨ (store.logging = false ∧ after = store) := by
  unfold logResult at h
  split at h
  · rename_i hlogging
    obtain ⟨record, hrecord, hmade⟩ := exists_of_map_eq_ok h
    cases hmade
    exact .inl ⟨hlogging, record, hrecord, rfl⟩
  · rename_i hlogging
    cases h
    exact .inr ⟨by simpa using hlogging, rfl⟩

end Store

/-- What an engine does by itself in a run writes nothing. -/
theorem Eval.Inner.unwritten {α : Type} {computation : Eval α} (h : computation.Inner)
    {store after : Store} {ended : Except Raised α}
    (hon : computation.on store = some (ended, after)) : store.Unwritten after := by
  cases h with
  | raise | read | consult =>
    cases hon
    exact .refl store
  | note | addCell | count =>
    cases hon
    exact ⟨rfl, rfl⟩
  | create className arguments rules =>
    rcases attempt_on_eq_some hon with ⟨language, hcreate, -⟩ | ⟨-, -, rfl⟩
    · exact Store.unwritten_create hcreate
    · exact .refl _

end Descent
