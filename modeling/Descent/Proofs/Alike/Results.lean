import Descent.Engine
import Descent.Proofs.Alike.Answers

/-! # What is made alike

What comes of scripts, of merging and relabelling, and of lazy parsers, if they are alike.

* **`Yield.Alike`** — what scripts that are alike may end with.
* **`Engine.parserOf`** — the parser of a lazy parser, by what its script made.
* **`Engine.parserOf_alike`** — main statement: lazy parsers whose scripts have ended alike have
  parsers that are alike, or errors that are. -/

namespace Descent

/-! ## Scripts -/

/-- What two scripts may end with if they are alike. -/
def Yield.Alike (leeway : Leeway) (pairs : Pairing) (yield yield' : Yield) : Prop :=
  Action.Alike leeway pairs (.done yield) (.done yield')

namespace Yield.Alike

variable {leeway : Leeway} {pairs : Pairing}

/-- Values that are alike are the same. -/
theorem value {v v' : Value}
    (h : Yield.Alike leeway pairs (.object (.value v)) (.object (.value v'))) : v = v' := by
  cases h with
  | nonParser hobject => exact Eq.symm hobject

/-- What is like a parser is a parser. -/
theorem of_object {p : Parser} {yield : Yield}
    (h : Yield.Alike leeway pairs (.object (.parser p)) yield) :
    ∃ p', yield = .object (.parser p') ∧ Parser.Alike leeway pairs p p' := by
  cases h with
  | parser hp => exact ⟨_, rfl, hp⟩
  | nonParser hobject =>
    rcases hobject.eq_or with ⟨p, p', -, -, hp⟩ | ⟨hne, -⟩
    · exact hp.elim
    · exact absurd rfl (hne p)

/-- Results that are alike as the ends of scripts are alike. -/
theorem result {result result' : Result}
    (h : Yield.Alike leeway pairs (.result result) (.result result')) :
    Result.Alike leeway result result' := by
  cases h with
  | result hresult => exact hresult

/-- Objects that are alike are parsers that are alike, or no parsers. -/
theorem object {object object' : Object Parser}
    (h : Yield.Alike leeway pairs (.object object) (.object object')) :
    object.Pairs pairs (Parser.Alike leeway pairs) object' := by
  cases h with
  | parser hp => exact hp
  | nonParser hobject => exact hobject.mono .rfl fun _ _ => False.elim

end Yield.Alike

/-! ## Failures -/

namespace Result.Alike

variable {leeway : Leeway} {result result' : Result}

/-- A result is like itself. -/
theorem refl (result : Result) : Result.Alike leeway result result := by
  cases result with
  | matched stop value => exact .matched stop value
  | failed failure => exact .failed (.inl rfl)

/-- Failures that are alike are so when merged with others that are. -/
theorem merge {place place₁ : Position} {expected expected' others others' : List Value}
    (h : expected' = expected ∨ leeway.labels) (h₁ : others' = others ∨ leeway.labels) :
    Result.Alike leeway (.failed (Failure.merge ⟨place, expected⟩ ⟨place₁, others⟩))
      (.failed (Failure.merge ⟨place, expected'⟩ ⟨place₁, others'⟩)) := by
  unfold Failure.merge
  simp only
  split
  · exact .failed h
  · split
    · exact .failed h₁
    · refine .failed ?_
      rcases h with rfl | hlabels
      · exact h₁.imp_left (congrArg _)
      · exact .inr hlabels

/-- Results that are alike are so when both are relabelled. -/
theorem relabel {labels labels' : Labels} {start : Position}
    (hlabels : labels' = labels ∨ leeway.labels) (h : Result.Alike leeway result result') :
    Result.Alike leeway (Engine.relabel labels start result)
      (Engine.relabel labels' start result') := by
  cases h with
  | matched stop value => exact .matched stop value
  | failed h =>
    unfold Engine.relabel
    simp only
    split
    · exact .failed (hlabels.imp_left (congrArg Labels.toList))
    · exact .failed h

/-- With leeway in labels, they are so when only one of them is relabelled. -/
theorem relabel_left {labels : Labels} {start : Position} (hlabels : leeway.labels)
    (h : Result.Alike leeway result result') :
    Result.Alike leeway (Engine.relabel labels start result) result' := by
  cases h with
  | matched stop value => exact .matched stop value
  | failed h =>
    unfold Engine.relabel
    simp only
    split
    · exact .failed (.inr hlabels)
    · exact .failed h

end Result.Alike

/-! ## Lazy parsers -/

namespace Engine

/-- The parser of a lazy parser, by the object that its script made. What is no parser is shown in
an error. -/
def parserOf (name : String) (store : Store) : Except Raised (Object Parser) → Except Raised Parser
  | .ok (.parser parser) => .ok parser
  | .ok other => (store.shownObject other).bind fun shown => .error (.builtNonParser name shown)
  | .error cause => .error cause

/-- What is no parser ends in an error. -/
theorem parserOf_nonParser (name : String) (store : Store) {object : Object Parser}
    (h : ∀ p, object ≠ .parser p) : parserOf name store (.ok object)
      = (store.shownObject object).bind fun shown => .error (.builtNonParser name shown) := by
  cases object with
  | parser p => exact absurd rfl (h p)
  | value | table | other => rfl

/-- Only a parser that was made is a parser. -/
theorem parserOf_eq_ok {name : String} {store : Store} {ended : Except Raised (Object Parser)}
    {p : Parser} (h : parserOf name store ended = .ok p) : ended = .ok (.parser p) := by
  rcases ended with cause | object
  · cases h
  · by_cases hne : ∀ p, object ≠ .parser p
    · rw [parserOf_nonParser name store hne] at h
      cases hshown : store.shownObject object with
      | ok shown =>
        rw [hshown] at h
        cases h
      | error cause =>
        rw [hshown] at h
        cases h
    · obtain ⟨p', rfl⟩ := not_forall_not.mp hne
      cases h
      rfl

/-- What is no parser ends the making of a lazy parser with an error that shows it. -/
theorem settle_nonParser (cell : CellId) (name : String) {object : Object Parser}
    (h : ∀ p, object ≠ .parser p) (store : Store) :
    settle cell name (.ok object, store)
      = (((store.setState cell .unbuilt).shownObject object).bind fun shown =>
          .error (.builtNonParser name shown), store.setState cell .unbuilt) := by
  cases object with
  | parser p => exact absurd rfl (h p)
  | value | table | other =>
    unfold settle
    simp only
    split
    · rename_i shown hshown
      rw [hshown]
      rfl
    · rename_i cause hshown
      rw [hshown]
      rfl

/-- What becomes of a lazy parser when its script has ended. -/
theorem settle_fst (cell : CellId) (name : String) (ended : Except Raised (Object Parser))
    (after : Store) :
    (settle cell name (ended, after)).1
      = parserOf name (settle cell name (ended, after)).2 ended := by
  rcases ended with cause | object
  · rfl
  · by_cases hne : ∀ p, object ≠ .parser p
    · rw [settle_nonParser cell name hne, parserOf_nonParser name _ hne]
    · obtain ⟨p, rfl⟩ := not_forall_not.mp hne
      rfl

/-- If its script has not made a parser, a lazy parser is only unbuilt again. -/
theorem settle_snd (cell : CellId) (name : String) {ended : Except Raised (Object Parser)}
    (h : ∀ p, ended ≠ .ok (.parser p)) (after : Store) :
    (settle cell name (ended, after)).2 = after.setState cell .unbuilt := by
  obtain ⟨cause, hsettle⟩ := settle_of_ne cell name h after
  rw [hsettle]

/-- What comes of two lazy parsers of the same name when their scripts have ended alike. -/
theorem parserOf_alike {leeway : Leeway} {pairs : Pairing} (name : String)
    {ended ended' : Except Raised (Object Parser)} {store store' : Store}
    (h : store.Alike leeway pairs store')
    (hstate : ¬ leeway.stages → ∀ id id', id.Pairs pairs id' →
      (store'.cellAt id').state = (store.cellAt id).state)
    (hended : Outcomes leeway (Object.Pairs pairs (Parser.Alike leeway pairs)) ended ended') :
    Outcomes leeway (Parser.Alike leeway pairs) (parserOf name store ended)
      (parserOf name store' ended') := by
  cases hended with
  | error hcause => exact .error hcause
  | ok hobject =>
    rcases hobject.eq_or with ⟨p, p', rfl, rfl, hp⟩ | ⟨hne, hne', hobject⟩
    · exact .ok hp
    · rw [parserOf_nonParser name store hne, parserOf_nonParser name store' hne']
      exact (h.shownObject hstate hobject).bind fun _ _ hshown => .error (.built hshown)

end Engine

end Descent
