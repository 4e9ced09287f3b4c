import Descent.Proofs.Film.Erases
import Descent.Proofs.Store.Opens
import Descent.Proofs.Triples

/-! # Invariants of sessions

* **`Store.Lasting`** — a property of stores that nothing an engine does to a store ends.
* **`Engine.meets_upTo`** — so no run of an engine ends it.
* **`Store.ReachedBy`** — the stores that come about in sessions, deed by deed. Which deeds are done
  may be restricted.
* **`Store.ReachedBy.holds`** — main statement: what is lasting, and what class definitions and
  putting things aside do not end either, is true of all these stores. -/

namespace Descent

/-- A property of stores that nothing an engine does to a store ends. -/
structure Store.Lasting (inv : Store → Prop) : Prop where
  /-- Notes, entries of the log and counters. -/
  beside : ∀ store after, after.instances = store.instances → Store.Adds store after → inv store →
    inv after
  /-- A new lazy parser. -/
  addCell : ∀ store language name make, inv store → inv (store.addCell language name make).2
  /-- A new language. -/
  create : ∀ store className arguments rules language after, inv store →
    store.create className arguments rules = .ok (language, after) → inv after
  /-- A lazy parser that changes, but is made in the same way. -/
  modifyCell : ∀ store id change, (∀ cell : Cell, (change cell).make = cell.make) → inv store →
    inv (store.modifyCell id change)

namespace Store.Lasting

variable {inv : Store → Prop} {store after : Store}

theorem log (hinv : Lasting inv) (h : inv store) (record : Record) : inv (store.log record) := by
  refine hinv.beside store _ ?_ (adds_log store record) h
  unfold Store.log
  split
  · rfl
  · rfl

/-- What an engine does by itself does not end it. -/
theorem basic (hinv : Lasting inv) {α : Type} {computation : Eval α} (hbasic : computation.Basic)
    {ended : Except Raised α} (h : inv store)
    (hon : computation.on store = some (ended, after)) : inv after := by
  cases hbasic with
  | raise | read | consult =>
    cases hon
    exact h
  | note event =>
    cases hon
    exact hinv.beside store _ rfl (adds_note store event) h
  | addCell language name make =>
    cases hon
    exact hinv.addCell store language name make h
  | create className arguments rules =>
    rcases Eval.attempt_on_eq_some hon with ⟨language, hcreate, -⟩ | ⟨-, -, rfl⟩
    · exact hinv.create store className arguments rules language after h hcreate
    · exact h
  | count counter =>
    cases hon
    exact hinv.beside store _ rfl (adds_count store counter) h
  | logResult source result =>
    rcases Eval.attempt_on_eq_some hon with ⟨done, hlog, -⟩ | ⟨-, -, rfl⟩
    · unfold Store.logResult at hlog
      split at hlog
      · obtain ⟨record, -, hmade⟩ := Store.exists_of_map_eq_ok hlog
        cases hmade
        exact hinv.log h record
      · cases hlog
        exact h
    · exact h

/-- What becomes of a lazy parser does not end it. -/
theorem settle (hinv : Lasting inv) (cell : CellId) (name : String)
    (ended : Except Raised (Object Parser)) (h : inv store) :
    inv (Engine.settle cell name (ended, store)).2 := by
  by_cases hparser : ∃ p, ended = .ok (.parser p)
  · obtain ⟨p, rfl⟩ := hparser
    have hset := hinv.modifyCell store cell
      (fun old => { old with state := .ready, parser := some p }) (fun _ => rfl) h
    exact hinv.log hset (.ready name)
  · obtain ⟨cause, hsettle⟩ := Engine.settle_of_ne cell name (not_exists.mp hparser) store
    rw [hsettle]
    exact hinv.modifyCell store cell _ (fun _ => rfl) h

end Store.Lasting

namespace Engine

variable {inv : Store → Prop}

/-- Putting computations together keeps up that they do not end it. -/
theorem compatible_meets (hinv : Store.Lasting inv) :
    Compatible fun α (first _ : Eval α) => first.Meets inv fun _ => True where
  pure _ := .pure trivial
  basic h _ hstore _ _ hon := ⟨hinv.basic h hstore hon, fun _ _ => trivial⟩
  bind h hnext := h.bind fun result _ => hnext result

/-- Making a lazy parser does not end it if the scripts do not. -/
theorem meets_assemble (hinv : Store.Lasting inv) {engine : Engine Eval}
    (h : ∀ action : Action (Object Parser), (engine.perform action).Meets inv fun _ => True)
    (cell : CellId) : (engine.assemble cell).Meets inv fun _ => True := by
  intro store hstore outcome after hon
  refine ⟨?_, fun _ _ => trivial⟩
  cases hcell : store.cell? cell with
  | none =>
    rw [assemble_of_none hcell] at hon
    cases hon
  | some found =>
    obtain ⟨name, state, make, _ | parser⟩ := found
    · rw [assemble_of_unmade hcell, Option.map_eq_some_iff] at hon
      obtain ⟨⟨ended, middle⟩, hperform, heq⟩ := hon
      have hstarted := hinv.modifyCell _ cell (fun old => { old with state := .building })
        (fun _ => rfl) (hinv.log hstore (.building name state))
      have hmiddle := (h make.action _ hstarted _ _ hperform).1
      have hsettled := hinv.settle cell name ended hmiddle
      rw [heq] at hsettled
      exact hsettled
    · rw [assemble_of_made hcell] at hon
      cases hon
      exact hstore

/-- No run of an engine ends it. -/
theorem meets_upTo (hinv : Store.Lasting inv) (depth : Nat) :
    Related (fun _ (first _ : Eval _) => first.Meets inv fun _ => True) (upTo depth)
      (upTo depth) := by
  induction depth with
  | zero => exact ⟨fun _ _ _ => .diverge, fun _ => .diverge⟩
  | succ depth ih =>
    exact ⟨ih.step (compatible_meets hinv),
      meets_assemble hinv (ih.perform (compatible_meets hinv))⟩

end Engine

/-! ## Sessions -/

/-- The stores that come about in sessions by certain deeds, however these end. -/
inductive Store.ReachedBy (allowed : Deed → Prop) : Store → Prop where
  /-- The store at the beginning. -/
  | initial (logging : Bool) : Store.ReachedBy allowed (.initial logging)
  /-- The store that a deed leaves. -/
  | after {store after : Store} {deed : Deed} {depth : Nat} {ended : Except Raised Unit}
      (before : Store.ReachedBy allowed store) (hallowed : allowed deed)
      (hdeed : (deed.apply (Engine.upTo depth)).on store = some (ended, after)) :
      Store.ReachedBy allowed after

/-- The stores that come about in sessions. -/
abbrev Store.Reached : Store → Prop := Store.ReachedBy fun _ => True

/-- The store that several deeds leave, if none of them is endless. -/
def Store.afterDeeds (depth : Nat) (deeds : List Deed) (store : Store) : Option Store :=
  deeds.foldlM (fun store deed => ((deed.apply (Engine.upTo depth)).on store).map Prod.snd) store

namespace Store.ReachedBy

variable {allowed : Deed → Prop} {inv : Store → Prop}

/-- More deeds may be allowed. -/
theorem mono {allowed' : Deed → Prop} (hallowed : ∀ deed, allowed deed → allowed' deed)
    {store : Store} (h : ReachedBy allowed store) : ReachedBy allowed' store := by
  induction h with
  | initial logging => exact .initial logging
  | after _ hdeed hafter ih => exact ih.after (hallowed _ hdeed) hafter

/-- What several deeds leave comes about. -/
theorem afterDeeds {depth : Nat} {deeds : List Deed} {store after : Store}
    (h : ReachedBy allowed store) (hdeeds : ∀ deed ∈ deeds, allowed deed)
    (hafter : store.afterDeeds depth deeds = some after) : ReachedBy allowed after := by
  induction deeds generalizing store with
  | nil =>
    cases hafter
    exact h
  | cons deed rest ih =>
    obtain ⟨middle, hfirst, hrest⟩ := Option.bind_eq_some_iff.mp hafter
    obtain ⟨⟨ended, _⟩, hdeed, rfl⟩ := Option.map_eq_some_iff.mp hfirst
    exact ih (h.after (hdeeds deed List.mem_cons_self) hdeed)
      (fun other hother => hdeeds other (List.mem_cons_of_mem _ hother)) hrest

/-- What nothing ends is true of all stores that come about. -/
theorem holds (hinv : Lasting inv) (hinitial : ∀ logging, inv (.initial logging))
    (hshelve : ∀ store name object, inv store → inv (store.shelve name object))
    (hdefine : ∀ store name bases initialises members after,
      allowed (.defineClass name bases initialises members) → inv store →
      store.defineClass name bases initialises members = .ok after → inv after)
    {store : Store} (h : ReachedBy allowed store) : inv store := by
  induction h with
  | initial logging => exact hinitial logging
  | @after store after deed depth ended _ hallowed hdeed ih =>
    cases deed with
    | operate operation =>
      have hmeets := operation.related (Engine.compatible_meets hinv) (Engine.meets_upTo hinv depth)
      exact (hmeets store ih ended after hdeed).1
    | shelve name object =>
      cases hdeed
      exact hshelve store name object ih
    | defineClass name bases initialises members =>
      rcases defineClass_or_eq hdeed with hdefined | rfl
      · exact hdefine store name bases initialises members after hallowed ih hdefined
      · exact ih

end Store.ReachedBy

end Descent
