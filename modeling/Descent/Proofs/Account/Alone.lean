import Descent.Engine.Passive
import Descent.Proofs.Account.Undone

/-! # Attempts during which nothing else is asked for

* **`Account.law_passive`** — no lazy parser is asked for during an attempt whose function neither
  runs parsers nor has them made.
* **`Account.not_reenters`** — nor is the lazy parser of that attempt asked for during any other
  attempt at making it.
* **`Account.law_alone`** — if an attempt during which no lazy parser was asked for fails, it leaves
  other lazy parsers alone.
* **`Attempt.Alone.opens`** — main statement: if it is undone besides, nothing at all is left of it
  but new lazy parsers, new languages, notes, counts and entries in the log. -/

namespace Descent

/-- The function that is called in an attempt neither runs parsers nor has them made. -/
def Attempt.Passive (attempt : Attempt) : Prop :=
  ∀ found, attempt.before.cell? attempt.cell = some found → found.make.action.Passive

/-- An attempt has only changed the stage of its lazy parser, twice. -/
def Attempt.Alone (attempt : Attempt) : Prop :=
  ∃ name state middle, (attempt.before.begun attempt.cell name state).Opens middle ∧
    attempt.after = middle.setState attempt.cell .unbuilt

namespace Account

open Incident

/-! ## Functions that neither run nor make parsers -/

/-- No lazy parser is asked for. -/
def Unasking : Report := fun _ _ _ incidents => attempts incidents = []

section Passive

variable {engine : Engine Account} {after : Store} {incidents : List Incident} {α β : Type}

/-- Nothing is asked for by what an engine does by itself. -/
theorem follows_unasking_lift (computation : Eval α) :
    (liftM computation : Account α).Follows Unasking := by
  intro store ended after incidents hon
  obtain ⟨⟨outcome, _⟩, -, heq⟩ := Option.map_eq_some_iff.mp hon
  cases heq
  cases ended with
  | ok result => exact attempts_nil
  | error cause => exact attempts_raised cause []

/-- Nor is it by one computation after another, if it is by neither. -/
theorem follows_unasking_bind {first : Account β} {next : β → Account α}
    (h : first.Follows Unasking) (hnext : ∀ result, (next result).Follows Unasking) :
    (first >>= next).Follows Unasking := by
  intro store ended after incidents hon
  rcases bind_eq_some hon with
    ⟨cause, hfirst, -⟩ | ⟨result, middle, earlier, later, hfirst, hsecond, rfl⟩
  · exact h store _ after incidents hfirst
  · rw [Unasking, attempts_append, h store _ middle earlier hfirst,
      hnext result middle ended after later hsecond, List.nil_append]

/-- Putting computations together keeps this up. -/
theorem composable_unasking :
    Engine.Composable fun α (account _ : Account α) => account.Follows Unasking where
  pure result := by
    intro store ended after incidents hon
    cases hon
    exact attempts_nil
  inner _ := follows_unasking_lift _
  bind := follows_unasking_bind

/-- Scripts that neither run nor make parsers ask for no lazy parser. -/
theorem follows_unasking_perform {action : Action α} (h : action.Passive) :
    (engine.perform action).Follows Unasking :=
  composable_unasking.perform_passive engine engine h

end Passive

/-- During an attempt whose function neither runs nor makes parsers, no lazy parser is asked
for. -/
theorem law_passive : Law fun _ _ _ incidents =>
    ∀ attempt ∈ attempts incidents, attempt.Passive → attempt.within = [] where
  quiet _ := forall_attempts_nil
  raised _ cause := forall_attempts_raised cause
  bind h h' := forall_attempts_append.mpr ⟨h, h'⟩
  reused _ := List.forall_mem_singleton.mpr fun _ => rfl
  made hcell hon h _ _ := (forall_attempts_closed attempts_nil).mpr ⟨h, fun hpassive =>
    List.map_eq_nil_iff.mpr (follows_unasking_perform (hpassive _ hcell) _ _ _ _ hon)⟩
  failed hcell hon h _ _ _ hlate _ :=
    (forall_attempts_closed (attempts_late hlate)).mpr ⟨h, fun hpassive =>
      List.map_eq_nil_iff.mpr (follows_unasking_perform (hpassive _ hcell) _ _ _ _ hon)⟩

/-- A lazy parser with such a function is not asked for while it is being made. -/
theorem not_reenters {after : Store} {incidents : List Incident}
    (hmakes : ∀ attempt ∈ attempts incidents, SameFunction after attempt)
    (hwithin : ∀ attempt ∈ attempts incidents, attempt.Passive → attempt.within = [])
    {attempt : Attempt} (hattempt : attempt ∈ attempts incidents) (hpassive : attempt.Passive) :
    ¬ Reenters attempt.cell incidents := by
  rintro ⟨other, hother, hsame, hasked⟩
  -- the function that is called there is the same
  obtain ⟨found, found', hfound, hfound', hmake⟩ := hmakes attempt hattempt
  obtain ⟨found₁, found₁', hfound₁, hfound₁', hmake₁⟩ := hmakes other hother
  rw [hsame, hfound', Option.some.injEq] at hfound₁'
  subst hfound₁'
  have hpassive' : other.Passive := by
    intro there hthere
    rw [hfound₁, Option.some.injEq] at hthere
    rw [← hthere, ← hmake₁, hmake]
    exact hpassive found hfound
  rw [hwithin other hother hpassive'] at hasked
  exact List.not_mem_nil hasked

/-! ## Attempts during which nothing else is asked for -/

/-- A computation in which no lazy parser is asked for changes none, and an attempt during which
none is asked for changes no other one if it fails. -/
theorem law_alone : Law fun store _ after incidents =>
    (attempts incidents = [] → store.Opens after) ∧
      ∀ attempt ∈ attempts incidents, attempt.within = [] →
        ∀ cause, attempt.ended = .error cause → attempt.Alone where
  quiet h := ⟨fun _ => h, forall_attempts_nil⟩
  raised h cause := ⟨fun _ => h, forall_attempts_raised cause⟩
  bind h h' := by
    refine ⟨fun hnone => ?_, forall_attempts_append.mpr ⟨h.2, h'.2⟩⟩
    rw [attempts_append, List.append_eq_nil_iff] at hnone
    exact (h.1 hnone.1).trans (h'.1 hnone.2)
  reused _ := ⟨fun hnone => absurd hnone (List.cons_ne_nil _ _),
    List.forall_mem_singleton.mpr fun _ => nofun⟩
  made _ _ h _ _ := by
    refine ⟨fun hnone => ?_, (forall_attempts_closed attempts_nil).mpr ⟨h.2, fun _ => nofun⟩⟩
    rw [attempts_append] at hnone
    exact absurd (List.append_eq_nil_iff.mp hnone).2 (List.cons_ne_nil _ _)
  failed _ _ h _ _ _ hlate hafter := by
    refine ⟨fun hnone => ?_, (forall_attempts_closed (attempts_late hlate)).mpr
      ⟨h.2, fun hwithin _ _ => ⟨_, _, _, h.1 (List.map_eq_nil_iff.mp hwithin), hafter⟩⟩⟩
    rw [attempts_closed (attempts_late hlate)] at hnone
    exact absurd (List.append_eq_nil_iff.mp hnone).2 (List.cons_ne_nil _ _)

end Account

namespace Attempt

variable {attempt : Attempt}

/-- An attempt that changed nothing but the stage of its lazy parser, which is as it was, changed
nothing at all. -/
theorem Alone.opens (h : attempt.Alone) (hundone : attempt.Undone) :
    attempt.before.Opens attempt.after := by
  obtain ⟨name, state, middle, hopens, hafter⟩ := h
  obtain ⟨own, make, hbefore, hlast⟩ := hundone
  have hgrows : Store.Grows Cell.Still attempt.before attempt.after :=
    ((Account.grows_begun _ _ _ _).still_trans (.of_adds Cell.Still.refl hopens.adds)).still_trans
      (Account.grows_failed hafter)
  -- the other lazy parsers are those of the store in which the function has ended
  have hothers : ∀ id, attempt.cell ≠ id → attempt.after.cell? id = middle.cell? id := by
    intro id hne
    rw [hafter, Store.cell?_setState_of_ne hne]
  refine ⟨{ hgrows with cell := fun id cell hcell => ?_ }, fun id cell hcell => ?_⟩
  · refine ⟨cell, ?_, rfl⟩
    by_cases hid : attempt.cell = id
    · rw [← hid, hbefore] at hcell
      rw [← hid, hlast, hcell]
    · rw [hothers id hid]
      refine hopens.adds.cell?_eq_some ?_
      rw [Store.cell?_begun_of_ne hid]
      exact hcell
  · by_cases hid : attempt.cell = id
    · rw [← hid, hlast] at hcell
      rw [← hid, hbefore, hcell]
      exact .inl rfl
    · rw [hothers id hid] at hcell
      rcases hopens.fresh id cell hcell with hthere | hnew
      · rw [Store.cell?_begun_of_ne hid] at hthere
        exact .inl hthere
      · exact .inr hnew

end Attempt

end Descent
