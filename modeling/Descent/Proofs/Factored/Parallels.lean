import Descent.Proofs.Choices.Foremost
import Descent.Proofs.Endings.Beside

/-! # Courses that run in parallel

A choice is made by the results of its alternatives alone. So two choices can be compared one
alternative at a time, even if the alternatives of the one start elsewhere, and on other stores,
than those of the other.

* **`Course.Parallels`** — where one course ends, another one ends with what is related.
* **`Selects`** — a relation of ends by which a choice can be made on either side.
* **`Course.Parallels.altOf`** — main statement: choices run in parallel if their alternatives do.
* **`Parser.Repeats`**, **`Parser.Repeats.altOf`** — a choice whose alternatives all end in one way
  ends in that way. -/

namespace Descent

/-- How something that is done on a store may end. -/
abbrev Course := Store → Except Raised Result → Store → Prop

/-- Wherever one course ends, starting from a store of one sort, another one ends with what is
related, starting from a store of another sort, and the stores that are left are of these sorts. -/
def Course.Parallels (left right : Store → Prop)
    (related : Except Raised Result → Except Raised Result → Prop) (course course' : Course) :
    Prop :=
  ∀ store store' ended after, left store → right store' → course store ended after →
    left after ∧ ∃ ended' after', course' store' ended' after' ∧ right after' ∧ related ended ended'

/-- Of related ends, both or neither is a given failure, and they stay related when they are
reported for a choice. -/
structure Selects (related : Except Raised Result → Except Raised Result → Prop) : Prop where
  /-- Both or neither is a given failure. -/
  failed : ∀ {ended ended'}, related ended ended' → ∀ failure,
    ended = .ok (.failed failure) ↔ ended' = .ok (.failed failure)
  /-- They stay related after a failure of an alternative before. -/
  orResult : ∀ {ended ended'}, related ended ended' → ∀ failure : Failure,
    related (ended.map failure.orResult) (ended'.map failure.orResult)

/-- The first has the value that a function gives for the value of the second. -/
def Revalued (fn : Value → Value) (ended ended' : Except Raised Result) : Prop :=
  Outcomes .caching Eq ended (ended'.map (·.mapValue fn))

variable {left right : Store → Prop} {related : Except Raised Result → Except Raised Result → Prop}
  {ended ended' : Except Raised Result} {source : Source} {place stop : Position}
  {store after : Store} {first second first' second' : Parser} {others : List Parser}

/-! ## Relations of ends -/

/-- It does not matter which side is which. -/
theorem Selects.flip (h : Selects related) : Selects fun ended ended' => related ended' ended where
  failed hrelated failure := (h.failed hrelated failure).symm
  orResult hrelated failure := h.orResult hrelated failure

/-- Neither of two related ends is a failure if the other one is not. -/
theorem Selects.unfailed (h : Selects related) (hrelated : related ended ended')
    (hended : Unfailed ended) : Unfailed ended' :=
  fun failure heq => hended failure ((h.failed hrelated failure).mpr heq)

/-- The value of a match has no say in a choice. -/
theorem selects_revalued (fn : Value → Value) : Selects (Revalued fn) where
  failed := by
    intro ended ended' hrelated failure
    unfold Revalued at hrelated
    -- the function leaves errors and failures as they are
    rcases ended' with cause | ⟨stop, value⟩ | other
    · cases hrelated with
      | error _ => exact ⟨nofun, nofun⟩
    · cases hrelated with
      | ok heq =>
        subst heq
        exact ⟨nofun, nofun⟩
    · cases hrelated with
      | ok heq =>
        subst heq
        exact Iff.rfl
  orResult := by
    intro ended ended' hrelated failure
    have hcommute : (ended'.map (·.mapValue fn)).map failure.orResult
        = (ended'.map failure.orResult).map (·.mapValue fn) := by
      rcases ended' with cause | ⟨stop, value⟩ | other <;> rfl
    rw [Revalued, ← hcommute]
    exact hrelated.map failure.orResult

/-! ## Choices in parallel -/

namespace Course.Parallels

/-- Two alternatives run in parallel to two others if each of them does. -/
theorem or (hselects : Selects related)
    (hfirst : Parallels left right related (first.Ends source place) (first'.Ends source stop))
    (hsecond : Parallels left right related (second.Ends source place)
      (second'.Ends source stop)) :
    Parallels left right related ((Parser.or first second).Ends source place)
      ((Parser.or first' second').Ends source stop) := by
  intro store store' ended after hleft hright hends
  rcases Parser.ends_or_iff.mp hends with
    ⟨hdecided, hended⟩ | ⟨failure, middle, hfailed, other, hother, rfl⟩
  · obtain ⟨hafter, ended', after', hends', hafter', hrelated⟩ :=
      hfirst _ _ _ _ hleft hright hdecided
    exact ⟨hafter, ended', after',
      Parser.ends_or_iff.mpr (.inl ⟨hends', hselects.unfailed hrelated hended⟩), hafter', hrelated⟩
  · obtain ⟨hmiddle, ended', middle', hfailed', hmiddle', hrelated⟩ :=
      hfirst _ _ _ _ hleft hright hfailed
    -- the other first alternative has failed as well, so the second ones are run on both sides
    obtain rfl := (hselects.failed hrelated failure).mp rfl
    obtain ⟨hafter, other', after', hother', hafter', hrelated'⟩ :=
      hsecond _ _ _ _ hmiddle hmiddle' hother
    exact ⟨hafter, _, after',
      Parser.ends_or_iff.mpr (.inr ⟨failure, middle', hfailed', other', hother', rfl⟩), hafter',
      hselects.orResult hrelated' failure⟩

/-- A choice runs in parallel to another one if its alternatives do. -/
theorem altOf (hselects : Selects related) (change change' : Parser → Parser)
    (hfirst : Parallels left right related (first.Ends source place) (first'.Ends source stop))
    (hothers : ∀ q ∈ others, Parallels left right related ((change q).Ends source place)
      ((change' q).Ends source stop)) :
    Parallels left right related ((Parser.altOf first (others.map change)).Ends source place)
      ((Parser.altOf first' (others.map change')).Ends source stop) := by
  induction others generalizing first first' with
  | nil => exact hfirst
  | cons q others ih =>
    exact ih (hfirst.or hselects (hothers q List.mem_cons_self))
      fun r hr => hothers r (List.mem_cons_of_mem _ hr)

end Course.Parallels

/-! ## One end for all alternatives -/

/-- From stores of one sort, which it leaves again, a parser ends in a given way. -/
def Parser.Repeats (left : Store → Prop) (source : Source) (place : Position)
    (ended : Except Raised Result) (p : Parser) : Prop :=
  ∀ store, left store → ∃ ended' after, p.Ends source place store ended' after ∧ left after ∧
    Outcomes .caching Eq ended' ended

/-- What is reported for the same ends of two alternatives is that end. -/
def Steady (ended : Except Raised Result) : Prop :=
  ∀ failure, ended = .ok (.failed failure) → failure.merge failure = failure

namespace Parser.Repeats

/-- Two alternatives that end in one way do so together. -/
theorem or (hsteady : Steady ended) (hfirst : first.Repeats left source place ended)
    (hsecond : second.Repeats left source place ended) :
    (Parser.or first second).Repeats left source place ended := by
  intro store hstore
  obtain ⟨ended', middle, hends, hmiddle, hsame⟩ := hfirst store hstore
  -- only if the first alternative fails is the second one run, and then the failure is merged
  rcases failed_or_unfailed ended' with ⟨failure, rfl⟩ | hended
  · obtain ⟨other, after, hends', hafter, hsame'⟩ := hsecond middle hmiddle
    cases hsame with
    | ok heq =>
      cases hsame' with
      | ok heq' =>
        subst heq heq'
        refine ⟨_, after, ends_or_iff.mpr (.inr ⟨failure, middle, hends, _, hends', rfl⟩), hafter,
          ?_⟩
        exact .ok (congrArg Result.failed (hsteady failure rfl))
  · exact ⟨ended', middle, ends_or_iff.mpr (.inl ⟨hends, hended⟩), hmiddle, hsame⟩

/-- Alternatives that all end in one way do so together. -/
theorem altOf (hsteady : Steady ended) (hfirst : first.Repeats left source place ended)
    (hothers : ∀ q ∈ others, Parser.Repeats left source place ended q) :
    (Parser.altOf first others).Repeats left source place ended := by
  induction others generalizing first with
  | nil => exact hfirst
  | cons q others ih =>
    exact ih (hfirst.or hsteady (hothers q List.mem_cons_self))
      fun r hr => hothers r (List.mem_cons_of_mem _ hr)

end Parser.Repeats

/-- If a choice ends, its first alternative does. -/
theorem Parser.Ends.first_of_altOf
    (h : (Parser.altOf first others).Ends source place store ended after) :
    ∃ ended' after', first.Ends source place store ended' after' := by
  induction others generalizing first ended after with
  | nil => exact ⟨ended, after, h⟩
  | cons q others ih =>
    obtain ⟨ended', after', h'⟩ := ih h
    rcases ends_or_iff.mp h' with ⟨hfirst, -⟩ | ⟨failure, middle, hfirst, -⟩
    · exact ⟨_, _, hfirst⟩
    · exact ⟨_, _, hfirst⟩

end Descent
