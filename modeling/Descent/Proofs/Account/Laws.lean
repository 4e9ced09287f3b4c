import Descent.Proofs.Account
import Descent.Proofs.Store.Created

/-! # What accounts tell

* **`Account.law_errors`** — the only error that is raised is the one that comes out.
* **`Account.law_unwinds`** — after that, all that happens is that the attempts fail that are in
  progress, and their lazy parsers are unbuilt again.
* **`Account.law_makes`** — the function of a lazy parser never changes. -/

namespace Descent

/-- The error that something ended with, if any. -/
def Incident.cause? : Incident → Option Raised
  | .raised cause => some cause
  | .attempted attempt => causeOf attempt.ended

/-- The store that is left when some attempts have failed, one after another. -/
def Store.abandon (store : Store) (attempts : List Attempt) : Store :=
  attempts.foldl (fun store attempt => store.setState attempt.cell .unbuilt) store

/-- Some attempts are in progress when an error is raised or when another attempt fails, and fail
therefore. -/
structure Incident.Unwinds (incident : Incident) (cause : Raised) (around : List Attempt)
    (after : Store) : Prop where
  /-- They all fail. -/
  ended : ∀ outer ∈ around, outer.ended = .error cause
  /-- They are in progress. -/
  within : ∀ attempt, incident = .attempted attempt → ∀ outer ∈ around, attempt.cell ∈ outer.within
  /-- Their lazy parsers are unbuilt again, and that is all. -/
  left : ∀ attempt, incident = .attempted attempt → after = attempt.after.abandon around

namespace Incident.Unwinds

variable {cause : Raised} {around : List Attempt} {middle after : Store}

/-- Where an error is raised, there is nothing else to show but that the attempts in progress
fail. -/
theorem raised {cause' : Raised} (h : ∀ outer ∈ around, outer.ended = .error cause) :
    (Incident.raised cause').Unwinds cause around after := ⟨h, fun _ => nofun, fun _ => nofun⟩

/-- No attempt is in progress around this one. -/
theorem last (cause : Raised) (attempt : Attempt) :
    (Incident.attempted attempt).Unwinds cause [] attempt.after := by
  refine ⟨List.forall_mem_nil _, fun _ _ => List.forall_mem_nil _, fun other hother => ?_⟩
  cases hother
  rfl

/-- One more attempt is in progress, and fails after the others. -/
theorem concat {incident : Incident} {outer : Attempt} (h : incident.Unwinds cause around middle)
    (hended : outer.ended = .error cause)
    (hwithin : ∀ attempt, incident = .attempted attempt → attempt.cell ∈ outer.within)
    (hafter : after = middle.setState outer.cell .unbuilt) :
    incident.Unwinds cause (around ++ [outer]) after where
  ended := List.forall_mem_append.mpr ⟨h.ended, List.forall_mem_singleton.mpr hended⟩
  within attempt hattempt := List.forall_mem_append.mpr
    ⟨h.within attempt hattempt, List.forall_mem_singleton.mpr (hwithin attempt hattempt)⟩
  left attempt hattempt := by
    rw [hafter, h.left attempt hattempt, Store.abandon, Store.abandon, List.foldl_append]
    rfl

end Incident.Unwinds

namespace Account

open Incident

/-! ## Errors -/

/-- The only error that is raised is the one that comes out. -/
theorem law_errors : Law fun _ cause? _ incidents => errors incidents = cause?.toList where
  quiet _ := errors_nil
  raised _ cause := errors_raised cause []
  bind h h' := by rw [errors_append, h, h', Option.toList_none, List.nil_append]
  reused _ := rfl
  made _ _ h _ _ := by rw [errors_append, h, errors_attempted, errors_nil, List.append_nil]
  failed _ _ h cause late _ hlate _ := by
    rw [errors_append, errors_append, h]
    rcases hlate with ⟨hcause, rfl⟩ | ⟨hcause, rfl⟩
    · rw [hcause]
      rfl
    · rw [hcause]
      rfl

/-! ## After an error -/

/-- What happens in one computation or another happens in the first, and all of the second comes
later, or it happens in the second. -/
theorem split_append {first second earlier later : List Incident} {incident : Incident}
    (h : first ++ second = earlier ++ incident :: later) :
    (∃ rest, first = earlier ++ incident :: rest ∧ later = rest ++ second) ∨
      ∃ front, second = front ++ incident :: later := by
  rcases List.append_eq_append_iff.mp h with ⟨front, -, hsecond⟩ | ⟨within, hfirst, htail⟩
  · exact .inr ⟨front, hsecond⟩
  · cases within with
    | nil => exact .inr ⟨[], htail.symm⟩
    | cons head rest =>
      obtain ⟨rfl, rfl⟩ := List.cons.inj htail
      exact .inl ⟨rest, hfirst, rfl⟩

/-- The only thing that happens is the first thing that does. -/
theorem split_singleton {only incident : Incident} {earlier later : List Incident}
    (h : [only] = earlier ++ incident :: later) : incident = only ∧ later = [] := by
  rcases List.append_eq_singleton_iff.mp h.symm with ⟨-, hcons⟩ | ⟨-, hnil⟩
  · exact List.cons.inj hcons
  · cases hnil

/-- After an error, whether it is raised or an attempt ends with it, all that happens is that the
attempts fail that are in progress. -/
theorem law_unwinds : Law fun _ cause? after incidents =>
    ∀ earlier incident later cause, incidents = earlier ++ incident :: later →
      incident.cause? = some cause → cause? = some cause ∧
        ∃ around : List Attempt, later = around.map .attempted ∧
          incident.Unwinds cause around after where
  quiet _ earlier _ _ _ hsplit := absurd hsplit.symm (List.append_ne_nil_of_right_ne_nil earlier
    (List.cons_ne_nil _ _))
  raised _ _ _ incident later cause hsplit hcause := by
    obtain ⟨rfl, rfl⟩ := split_singleton hsplit
    exact ⟨hcause, [], rfl, .raised (List.forall_mem_nil _)⟩
  bind h h' earlier incident later cause hsplit hcause := by
    rcases split_append hsplit with ⟨rest, hfirst, -⟩ | ⟨front, hsecond⟩
    · cases (h earlier incident rest cause hfirst hcause).1
    · exact h' front incident later cause hsecond hcause
  reused _ earlier incident later cause hsplit hcause := by
    obtain ⟨rfl, -⟩ := split_singleton hsplit
    cases hcause
  made _ _ h _ _ earlier incident later cause hsplit hcause := by
    rcases split_append hsplit with ⟨rest, hinner, -⟩ | ⟨front, hlast⟩
    · cases (h earlier incident rest cause hinner hcause).1
    · obtain ⟨rfl, -⟩ := split_singleton hlast
      cases hcause
  failed _ _ h _ _ _ hlate hafter earlier incident later cause hsplit hcause := by
    rcases split_append hsplit with ⟨rest, hinner, rfl⟩ | ⟨front, hclosing⟩
    · -- the function of the lazy parser has ended with the error, and so has the attempt
      obtain ⟨hended, around, rfl, hunwinds⟩ := h earlier incident rest cause hinner hcause
      rcases hlate with ⟨hsome, rfl⟩ | ⟨hnone, -⟩
      · obtain rfl := Option.some.inj (hsome.symm.trans hended)
        refine ⟨rfl, around ++ [_], by rw [List.nil_append, List.map_append]; rfl,
          hunwinds.concat rfl (fun attempt hattempt => ?_) hafter⟩
        rw [hinner, hattempt]
        simp [asked]
      · rw [hnone] at hended
        cases hended
    · rcases split_append hclosing with ⟨rest, hraised, rfl⟩ | ⟨front', hlast⟩
      · -- the function has ended with what is no parser, and the error is raised late
        rcases hlate with ⟨-, rfl⟩ | ⟨-, rfl⟩
        · exact absurd hraised.symm (List.append_ne_nil_of_right_ne_nil front
            (List.cons_ne_nil _ _))
        · obtain ⟨rfl, rfl⟩ := split_singleton hraised
          refine ⟨hcause, [_], rfl, .raised (List.forall_mem_singleton.mpr ?_)⟩
          exact congrArg Except.error (Option.some.inj hcause)
      · obtain ⟨rfl, rfl⟩ := split_singleton hlast
        exact ⟨hcause, [], rfl, .last cause _⟩

/-! ## Attempts -/

section Attempts

variable {property : Attempt → Prop}

/-- Where nothing happens, or where an error is raised, there is no attempt. -/
theorem forall_attempts_nil : ∀ attempt ∈ attempts [], property attempt :=
  fun _ h => absurd h List.not_mem_nil

theorem forall_attempts_raised (cause : Raised) :
    ∀ attempt ∈ attempts [.raised cause], property attempt := fun _ h => absurd h List.not_mem_nil

/-- The attempts in one computation and those in the next. -/
theorem forall_attempts_append {first second : List Incident} :
    (∀ attempt ∈ attempts (first ++ second), property attempt) ↔
      (∀ attempt ∈ attempts first, property attempt) ∧
        ∀ attempt ∈ attempts second, property attempt := by
  rw [attempts_append, List.forall_mem_append]

/-- An error that is raised late is no attempt. -/
theorem attempts_late {cause? : Option Raised} {cause : Raised} {late : List Incident}
    (h : cause? = some cause ∧ late = [] ∨ cause? = none ∧ late = [.raised cause]) :
    attempts late = [] := by
  rcases h with ⟨-, rfl⟩ | ⟨-, rfl⟩
  · rfl
  · rfl

/-- An attempt comes after those that are made while it is in progress. -/
theorem attempts_closed {inner late : List Incident} (hlate : attempts late = [])
    (attempt : Attempt) :
    attempts (inner ++ (late ++ [.attempted attempt])) = attempts inner ++ [attempt] := by
  rw [attempts_append, attempts_append, hlate]
  rfl

theorem forall_attempts_closed {inner late : List Incident} {attempt : Attempt}
    (hlate : attempts late = []) :
    (∀ other ∈ attempts (inner ++ (late ++ [.attempted attempt])), property other) ↔
      (∀ other ∈ attempts inner, property other) ∧ property attempt := by
  rw [attempts_closed hlate, List.forall_mem_append, List.forall_mem_singleton]

end Attempts

/-! ## Functions -/

section Functions

variable {store middle after : Store} {cell : CellId} {name : String} {state : RuleState}
  {attempt : Attempt}

/-- Nothing goes away when the function of a lazy parser begins. -/
theorem grows_begun (store : Store) (cell : CellId) (name : String) (state : RuleState) :
    Store.Grows Cell.Still store (store.begun cell name state) :=
  Store.Grows.still_trans (.of_adds Cell.Still.refl (Store.adds_log store _))
    (Store.grows_modifyCell _ cell _ Cell.Still.refl fun _ => ⟨rfl, rfl⟩)

/-- Nor does anything when it has ended with a parser. -/
theorem grows_made {parser : Parser}
    (hafter : after = (middle.setParser cell parser).log (.ready name)) :
    Store.Grows Cell.Still middle after := by
  rw [hafter]
  have hset : Store.Grows Cell.Still middle (middle.setParser cell parser) :=
    Store.grows_modifyCell middle cell _ Cell.Still.refl fun _ => ⟨rfl, rfl⟩
  exact hset.still_trans (.of_adds Cell.Still.refl (Store.adds_log _ _))

/-- Nor when it has ended without one. -/
theorem grows_failed (hafter : after = middle.setState cell .unbuilt) :
    Store.Grows Cell.Still middle after := by
  rw [hafter]
  exact Store.grows_modifyCell middle cell _ Cell.Still.refl fun _ => ⟨rfl, rfl⟩

/-- The function of the lazy parser is still the one that was called in an attempt. -/
def SameFunction (after : Store) (attempt : Attempt) : Prop :=
  ∃ found found', attempt.before.cell? attempt.cell = some found ∧
    after.cell? attempt.cell = some found' ∧ found'.make = found.make

/-- It is so in later stores. -/
theorem SameFunction.of_grows (h : SameFunction middle attempt)
    (hgrows : Store.Grows Cell.Still middle after) : SameFunction after attempt := by
  obtain ⟨found, found', hbefore, hmiddle, hmake⟩ := h
  obtain ⟨later, hlater, hstill⟩ := hgrows.cell _ _ hmiddle
  exact ⟨found, later, hbefore, hlater, hstill.make.trans hmake⟩

/-- It is so in the first place. -/
theorem sameFunction_of_cell? {found : Cell}
    (hcell : attempt.before.cell? attempt.cell = some found)
    (hgrows : Store.Grows Cell.Still attempt.before after) : SameFunction after attempt := by
  obtain ⟨later, hlater, hstill⟩ := hgrows.cell _ _ hcell
  exact ⟨found, later, hcell, hlater, hstill.make⟩

end Functions

/-- The function of a lazy parser never changes. -/
theorem law_makes : Law fun store _ after incidents => Store.Grows Cell.Still store after ∧
    ∀ attempt ∈ attempts incidents, SameFunction after attempt where
  quiet h := ⟨.of_adds Cell.Still.refl h.adds, forall_attempts_nil⟩
  raised h cause := ⟨.of_adds Cell.Still.refl h.adds, forall_attempts_raised cause⟩
  bind h h' := ⟨h.1.still_trans h'.1, forall_attempts_append.mpr
    ⟨fun attempt hattempt => (h.2 attempt hattempt).of_grows h'.1, h'.2⟩⟩
  reused {store cell parser} hstored := by
    refine ⟨.refl Cell.Still.refl store, List.forall_mem_singleton.mpr ?_⟩
    obtain ⟨found, hfound, -⟩ := Option.bind_eq_some_iff.mp hstored
    exact sameFunction_of_cell? hfound (.refl Cell.Still.refl store)
  made hcell _ h _ hafter := by
    have hgrows := ((grows_begun _ _ _ _).still_trans h.1).still_trans (grows_made hafter)
    exact ⟨hgrows, (forall_attempts_closed attempts_nil).mpr
      ⟨fun attempt hattempt => (h.2 attempt hattempt).of_grows (grows_made hafter),
        sameFunction_of_cell? hcell hgrows⟩⟩
  failed hcell _ h _ _ _ hlate hafter := by
    have hgrows := ((grows_begun _ _ _ _).still_trans h.1).still_trans (grows_failed hafter)
    exact ⟨hgrows, (forall_attempts_closed (attempts_late hlate)).mpr
      ⟨fun attempt hattempt => (h.2 attempt hattempt).of_grows (grows_failed hafter),
        sameFunction_of_cell? hcell hgrows⟩⟩

end Account

end Descent
