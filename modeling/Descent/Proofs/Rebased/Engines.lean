import Descent.Proofs.Rebased
import Descent.Proofs.Scripts

/-! # Parsers of languages that are taken for others

Discreet parsers end the same, but for the class named in an error, if a language is taken for one
of the class from which all others descend.

* **`Eval.Rebasable`** — a computation that ends the same, and leaves the same.
* **`Eval.Rebasable.bind`** — one computation after another.
* **`Engine.Rebasable.perform`**, **`Engine.Rebasable.step`**, **`Engine.Rebasable.assemble`** — what
  an engine does one level up.
* **`Engine.rebasable_upTo`** — main statement: so it is with all engines. -/

namespace Descent

/-- A computation ends the same and leaves the same, but for a language that is taken for another
one; something holds of its result. -/
def Eval.Rebasable {α : Type} (permit : Permit) (language : InstanceId) (P : α → Prop)
    (computation : Eval α) : Prop :=
  ∀ store, store.Rebasable permit language →
    Option.Rel (fun done done' => Nearly P done.1 done'.1 ∧ done'.2 = done.2.rebase language ∧
      done.2.Rebasable permit language)
      (computation.on store) (computation.on (store.rebase language))

namespace Eval.Rebasable

variable {α β : Type} {permit : Permit} {language : InstanceId} {P : α → Prop}
  {Q : β → Prop}

/-- Less may be said of the result. -/
theorem imp {weaker : α → Prop} {first : Eval α} (h : first.Rebasable permit language P)
    (hpost : ∀ result, P result → weaker result) : first.Rebasable permit language weaker :=
  fun store hstore => (h store hstore).imp fun _ _ hdone => ⟨hdone.1.imp hpost, hdone.2⟩

theorem pure {result : α} (h : P result) :
    (Pure.pure result : Eval α).Rebasable permit language P :=
  fun _ hstore => .some ⟨.ok h, rfl, hstore⟩

theorem raise (cause : Raised) : (Eval.raise cause : Eval α).Rebasable permit language P :=
  fun _ hstore => .some ⟨.error (.same cause), rfl, hstore⟩

theorem diverge : (Eval.diverge : Eval α).Rebasable permit language P := fun _ _ => .none

/-- Reading something off the store changes nothing. -/
theorem consult {view : Store → Except Raised α}
    (h : ∀ store, store.Rebasable permit language →
      Nearly P (view store) (view (store.rebase language))) :
    (Eval.consult view).Rebasable permit language P :=
  fun store hstore => .some ⟨h store hstore, rfl, hstore⟩

/-- What is the same on both stores may be read off them. -/
theorem read {view : Store → α}
    (h : ∀ store, store.Rebasable permit language → view (store.rebase language) = view store) :
    (Eval.read view).Rebasable permit language fun _ => True := by
  refine consult fun store hstore => ?_
  rw [h store hstore]
  exact .ok trivial

/-- A change of the store. -/
theorem update {change : Store → Store}
    (h : ∀ store, store.Rebasable permit language →
      change (store.rebase language) = (change store).rebase language ∧
        (change store).Rebasable permit language) :
    (Eval.update change).Rebasable permit language fun _ => True := by
  intro store hstore
  obtain ⟨heq, hafter⟩ := h store hstore
  unfold Eval.update
  simp only [heq]
  exact .some ⟨.ok trivial, rfl, hafter⟩

/-- A change of the store that gives a result. -/
theorem draw {change : Store → α × Store}
    (h : ∀ store, store.Rebasable permit language →
      change (store.rebase language) = ((change store).1, (change store).2.rebase language) ∧
        P (change store).1 ∧ (change store).2.Rebasable permit language) :
    (Eval.draw change).Rebasable permit language P := by
  intro store hstore
  obtain ⟨heq, hpost, hafter⟩ := h store hstore
  unfold Eval.draw
  simp only [heq]
  exact .some ⟨.ok hpost, rfl, hafter⟩

/-- A change of the store that gives a result or fails. -/
theorem attempt {change : Store → Except Raised (α × Store)}
    (h : ∀ store, store.Rebasable permit language →
      change (store.rebase language) = (change store).map (fun made =>
        (made.1, made.2.rebase language)) ∧
      ∀ result after, change store = .ok (result, after) →
        P result ∧ after.Rebasable permit language) :
    (Eval.attempt change).Rebasable permit language P := by
  intro store hstore
  obtain ⟨heq, hok⟩ := h store hstore
  cases hchange : change store with
  | error cause =>
    rw [hchange] at heq
    rw [attempt_error hchange, attempt_error heq]
    exact .some ⟨.error (.same cause), rfl, hstore⟩
  | ok made =>
    obtain ⟨result, after⟩ := made
    obtain ⟨hpost, hafter⟩ := hok result after hchange
    rw [hchange] at heq
    rw [attempt_ok hchange, attempt_ok heq]
    exact .some ⟨.ok hpost, rfl, hafter⟩

/-- One computation after another. -/
theorem bind {first : Eval α} {next : α → Eval β} (h : first.Rebasable permit language P)
    (hnext : ∀ result, P result → (next result).Rebasable permit language Q) :
    (first >>= next).Rebasable permit language Q := by
  intro store hstore
  rcases (h store hstore).eq_or with ⟨e, e'⟩ | ⟨⟨ended, after⟩, ⟨ended', after'⟩, e, e', hdone⟩
  · rw [bind_none e, bind_none e']
    exact .none
  · obtain ⟨hended, rfl, hafter⟩ := hdone
    cases hended with
    | ok hpost =>
      rw [bind_ok e, bind_ok e']
      exact hnext _ hpost after hafter
    | error hcause =>
      rw [bind_error e, bind_error e']
      exact .some ⟨.error hcause, rfl, hafter⟩

/-- What holds once something reversible is done with the results holds without it. -/
theorem unwrap {f : α → β} (hf : Function.Injective f) {first : Eval α}
    (h : (first >>= fun result => Pure.pure (f result)).Rebasable permit language Q) :
    first.Rebasable permit language fun result => Q (f result) := by
  intro store hstore
  have hboth := h store hstore
  rw [map_on, map_on] at hboth
  rcases hfirst : first.on store with _ | ⟨ended, after⟩
  · rcases hfirst' : first.on (store.rebase language) with _ | ⟨ended', after'⟩
    · exact .none
    · rw [hfirst, hfirst'] at hboth
      cases hboth
  · rcases hfirst' : first.on (store.rebase language) with _ | ⟨ended', after'⟩
    · rw [hfirst, hfirst'] at hboth
      cases hboth
    · rw [hfirst, hfirst'] at hboth
      cases hboth with
      | some hdone => exact .some ⟨hdone.1.of_map hf, hdone.2⟩

end Eval.Rebasable

/-! ## Engines -/

/-- An engine does the same with what is discreet, whatever a language is taken for. -/
structure Engine.Rebasable (permit : Permit) (language : InstanceId) (engine : Engine Eval) :
    Prop where
  /-- Discreet parsers end the same. -/
  run : ∀ {p : Parser} (source : Source) (place : Position), p.Discreet permit →
    (engine.run p source place).Rebasable permit language fun _ => True
  /-- The parsers of lazy parsers are the same and discreet. -/
  build : ∀ cell, (engine.build cell).Rebasable permit language (Parser.Discreet permit)

namespace Engine.Rebasable

open Eval

variable {permit : Permit} {language : InstanceId} {engine : Engine Eval}

/-- Discreet scripts end the same. -/
theorem perform (h : engine.Rebasable permit language) {action : Action Yield} :
    Action.Discreet permit action → (engine.perform action).Rebasable permit language
      fun yield => Action.Discreet permit (.done yield)
  | .parser hp => .pure (.parser hp)
  | .nonParser hobject => .pure (.nonParser hobject)
  | .result found => .pure (.result found)
  | .raise cause => .raise cause
  | .note hnext =>
      Eval.Rebasable.bind (.update fun _ hstore =>
        ⟨rfl, hstore.of_instances_eq (Store.adds_note _ _) rfl⟩) fun _ _ => h.perform hnext
  | .run hparser hnext =>
      Eval.Rebasable.bind (h.run _ _ hparser) fun result _ => h.perform (hnext result)
  | .build hnext => Eval.Rebasable.bind (h.build _) fun _ _ => h.perform hnext
  | .defer hmake hnext =>
      Eval.Rebasable.bind (P := fun _ => True) (.draw fun store hstore =>
        ⟨store.addCell_rebase _ _ _ _, trivial, hstore.addCell _ _ hmake⟩)
        fun cell _ => h.perform (hnext cell)
  | .inspect hnext =>
      Eval.Rebasable.bind (.read fun store _ => store.cellAt_rebase _ _)
        fun found _ => h.perform (hnext found.state found.shown)
  | .lookUp hname hnext =>
      Eval.Rebasable.bind (.consult fun _ hstore => hstore.lookUp_any hname)
        fun found _ => h.perform (hnext found)
  | .rule hnext =>
      Eval.Rebasable.bind (.consult fun _ hstore => hstore.getRule_any _ _)
        fun cell _ => h.perform (hnext cell)
  | .create hrules hnext =>
      Eval.Rebasable.bind (.attempt fun _ hstore =>
        ⟨Store.create_rebase hstore.there _ _ _,
          fun _ _ hcreate => (hstore.create hcreate hrules).symm⟩)
        fun other hfree => h.perform (hnext other hfree)
  | .fetch hnext =>
      Eval.Rebasable.bind (.consult fun _ _ => .refl fun _ _ => trivial)
        fun found _ => h.perform (hnext found)
  | .count hnext =>
      Eval.Rebasable.bind (P := fun _ => True) (.draw fun _ hstore =>
        ⟨rfl, trivial, hstore.of_instances_eq (Store.adds_count _ _) rfl⟩)
        fun before _ => h.perform (hnext before)

/-- Discreet functions make the same values. -/
theorem values (h : engine.Rebasable permit language) {action : Action Value}
    (hdiscreet : Action.Discreet permit action.values) :
    (engine.perform action).Rebasable permit language fun _ => True := by
  have hyields := h.perform hdiscreet
  rw [perform_bind] at hyields
  refine (Eval.Rebasable.unwrap ?_ hyields).imp fun _ _ => trivial
  rintro v v' ⟨⟩
  rfl

/-- Discreet functions make the same objects, which are discreet. -/
theorem objects (h : engine.Rebasable permit language) {action : Action (Object Parser)}
    (hdiscreet : Action.Discreet permit action.objects) :
    (engine.perform action).Rebasable permit language fun object =>
      ∀ p, object = .parser p → p.Discreet permit := by
  have hyields := h.perform hdiscreet
  rw [perform_bind] at hyields
  refine (Eval.Rebasable.unwrap ?_ hyields).imp ?_
  · rintro object object' ⟨⟩
    rfl
  · rintro object hobject p rfl
    cases hobject with
    | parser hp => exact hp
    | nonParser hne => exact absurd rfl (hne p)

/-- Discreet parsers that are written by hand find the same results. -/
theorem results (h : engine.Rebasable permit language) {action : Action Result}
    (hdiscreet : Action.Discreet permit action.results) :
    (engine.perform action).Rebasable permit language fun _ => True := by
  have hyields := h.perform hdiscreet
  rw [perform_bind] at hyields
  refine (Eval.Rebasable.unwrap ?_ hyields).imp fun _ _ => trivial
  rintro result result' ⟨⟩
  rfl

/-! ### Parsers -/

/-- Discreet parsers one after another. -/
theorem sequence (h : engine.Rebasable permit language) (source : Source) {parts : List Parser}
    (hparts : ∀ part ∈ parts, part.Discreet permit) (values : List Value) (place : Position) :
    (engine.sequence source parts values place).Rebasable permit language fun _ => True := by
  induction parts generalizing values place with
  | nil => exact .pure trivial
  | cons part parts ih =>
    refine Eval.Rebasable.bind (h.run source place (hparts part List.mem_cons_self))
      fun result _ => ?_
    cases result with
    | matched stop value =>
      exact ih (fun other hother => hparts other (List.mem_cons_of_mem _ hother)) _ _
    | failed failure => exact .pure trivial

/-- A discreet function chooses what comes after a discreet parser. -/
theorem chain (h : engine.Rebasable permit language) {of : Parser}
    {fn : Value → Action (Object Parser)} (hof : of.Discreet permit)
    (hfn : ∀ value, Action.Discreet permit (fn value).objects) (source : Source)
    (place : Position) :
    (engine.step (.chain of fn) source place).Rebasable permit language fun _ => True := by
  refine Eval.Rebasable.bind (h.run source place hof) fun result _ => ?_
  cases result with
  | failed failure => exact .pure trivial
  | matched stop value =>
    refine Eval.Rebasable.bind (h.objects (hfn value)) fun object hobject => ?_
    cases object with
    | parser p => exact h.run source stop (hobject p rfl)
    | value | table | other =>
      refine Eval.Rebasable.bind (P := fun _ => True) (.consult fun store _ => ?_)
        fun shown _ => .raise _
      rw [store.shownObject_rebase]
      exact .refl fun _ _ => trivial

/-- Discreet parsers end the same, one level up. -/
theorem step (h : engine.Rebasable permit language) {p : Parser} (source : Source)
    (place : Position) :
    p.Discreet permit → (engine.step p source place).Rebasable permit language fun _ => True
  | .text _ => .pure trivial
  | .pattern _ => .consult fun _ _ => .refl fun _ _ => trivial
  | .ok _ => .pure trivial
  | .fail _ => .pure trivial
  | .eof => .pure trivial
  | .location => .pure trivial
  | .seq hparts => h.sequence source hparts [] place
  | .or hfirst hsecond => by
    refine Eval.Rebasable.bind (h.run source place hfirst) fun result _ => ?_
    cases result with
    | matched stop value => exact .pure trivial
    | failed failure =>
      refine Eval.Rebasable.bind (h.run source place hsecond) fun other _ => ?_
      cases other <;> exact .pure trivial
  | .map hof hfn => by
    refine Eval.Rebasable.bind (h.run source place hof) fun result _ => ?_
    cases result with
    | failed failure => exact .pure trivial
    | matched stop value =>
      exact Eval.Rebasable.bind (h.values (hfn value)) fun _ _ => .pure trivial
  | .chain hof hfn => h.chain hof hfn source place
  | .many0 hof => by
    refine Eval.Rebasable.bind (h.run source place hof) fun result _ => ?_
    cases result with
    | failed failure => exact .pure trivial
    | matched stop value =>
      by_cases still : stop.index = place.index
      · simp only [still, if_true]
        exact .pure trivial
      · simp only [still, if_false]
        exact Eval.Rebasable.bind (h.run source stop (.many0 hof)) fun _ _ => .pure trivial
  | .desc hof _ => Eval.Rebasable.bind (h.run source place hof) fun _ _ => .pure trivial
  | .lazy cell => Eval.Rebasable.bind (h.build cell) fun _ hp => h.run source place hp
  | .kept number =>
      Eval.Rebasable.bind (P := Parser.Discreet permit)
        (.consult fun store hstore => .ok (hstore.discreet.kept number))
        fun _ hp => h.run source place hp
  | .custom haction => h.results (haction source place)

/-! ### Lazy parsers -/

/-- What becomes of a lazy parser is the same. -/
theorem settle {cell : CellId} {name : String} {ended ended' : Except Raised (Object Parser)}
    {after : Store} (h : Nearly (fun object => ∀ p, object = .parser p → p.Discreet permit)
      ended ended') (hafter : after.Rebasable permit language) :
    Nearly (Parser.Discreet permit) (Engine.settle cell name (ended, after)).1
        (Engine.settle cell name (ended', after.rebase language)).1 ∧
      (Engine.settle cell name (ended', after.rebase language)).2
        = (Engine.settle cell name (ended, after)).2.rebase language ∧
      (Engine.settle cell name (ended, after)).2.Rebasable permit language := by
  have hunbuilt := hafter.setState cell .unbuilt
  have hrebase := after.rebase_setState language cell .unbuilt
  cases h with
  | error hcause => exact ⟨.error hcause, hrebase.symm, hunbuilt⟩
  | @ok object hobject =>
    cases object with
    | parser p =>
      refine ⟨.ok (hobject p rfl), ?_, (hafter.setParser cell (hobject p rfl)).log _⟩
      rw [settle_made, settle_made, Store.rebase_log, Store.rebase_setParser]
    | value | table | other =>
      unfold Engine.settle
      simp only [← hrebase, Store.shownObject_rebase]
      split
      · exact ⟨.error (.same _), rfl, hunbuilt⟩
      · exact ⟨.error (.same _), rfl, hunbuilt⟩

/-- The parser of a lazy parser is the same, one level up. -/
theorem assemble (h : engine.Rebasable permit language) (cell : CellId) :
    (engine.assemble cell).Rebasable permit language (Parser.Discreet permit) := by
  intro store hstore
  have hsame := store.cell?_rebase language cell
  cases hcell : store.cell? cell with
  | none =>
    rw [assemble_of_none hcell, assemble_of_none (hsame.trans hcell)]
    exact .none
  | some found =>
    obtain ⟨name, state, make, _ | parser⟩ := found
    · rw [assemble_of_unmade hcell, assemble_of_unmade (hsame.trans hcell)]
      -- the script starts from stores that are the same but for the language
      have hstarted := (hstore.log (.building name state)).setState cell .building
      have hrebase : ((store.rebase language).log (.building name state)).setState cell .building
          = ((store.log (.building name state)).setState cell .building).rebase language := by
        rw [Store.rebase_setState, Store.rebase_log]
      have hperform := h.objects (hstore.discreet.cell cell _ hcell).make _ hstarted
      rw [hrebase]
      rcases hperform.eq_or with ⟨e, e'⟩ | ⟨⟨ended, after⟩, ⟨ended', after'⟩, e, e', hdone⟩
      · rw [e, e']
        exact .none
      · obtain ⟨hended, rfl, hafter⟩ := hdone
        rw [e, e']
        exact .some (settle hended hafter)
    · rw [assemble_of_made hcell, assemble_of_made (hsame.trans hcell)]
      exact .some ⟨.ok ((hstore.discreet.cell cell _ hcell).parser parser rfl), rfl, hstore⟩

end Engine.Rebasable

/-- All engines do the same with what is discreet, whatever a language is taken for. -/
theorem Engine.rebasable_upTo (permit : Permit) (language : InstanceId) (depth : Nat) :
    (Engine.upTo depth).Rebasable permit language := by
  induction depth with
  | zero => exact ⟨fun _ _ _ => .diverge, fun _ => .diverge⟩
  | succ depth ih => exact ⟨fun source place hp => ih.step source place hp, ih.assemble⟩

end Descent
