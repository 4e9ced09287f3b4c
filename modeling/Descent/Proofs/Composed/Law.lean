import Descent.Proofs.Composed.Keeps

/-! # Laws of composed parsers

A **law** says something about the source, the place where a parser starts and its result. If the
primitives obey it, and the ways in which results come from other results keep it, then every
composed parser obeys it.

* **`Law`** — what has to be shown of a law.
* **`Engine.Keeps`** — an engine that keeps what is known, and whose composed parsers obey a law.
* **`Engine.Keeps.perform_any`**, **`Engine.Keeps.perform_composed`** — what such an engine does
  with any script, and with scripts that make composed parsers.

That every engine is of this sort is shown in `Descent.Proofs.Composed.Obeys`. -/

namespace Descent

/-- Something about results that the primitives obey and that all combinators keep. -/
structure Law (law : Source → Position → Result → Prop) : Prop where
  /-- A text obeys it. -/
  text : ∀ literal source place, law source place (Engine.textResult literal source place)
  /-- A regular expression obeys it. -/
  pattern : ∀ regex source place result, Engine.patternResult regex source place = .ok result →
    law source place result
  /-- A failure at the place obeys it. -/
  fail : ∀ (labels : Labels) source place, law source place (.failed ⟨place, labels.toList⟩)
  /-- The end of the source obeys it. -/
  eof : ∀ source place, law source place (Engine.eofResult source place)
  /-- Matching nothing obeys it. -/
  stay : ∀ source place value, law source place (.matched place value)
  /-- It does not look at the value. -/
  revalue : ∀ source place stop value value', law source place (.matched stop value) →
    law source place (.matched stop value')
  /-- It goes from a match on to what starts where that stopped. -/
  after : ∀ source place stop value result, law source place (.matched stop value) →
    law source stop result → law source place result
  /-- It goes from two failures to the one reported for both. -/
  merge : ∀ source place (first second : Failure), law source place (.failed first) →
    law source place (.failed second) → law source place (.failed (first.merge second))
  /-- It goes from a failure at the place to the one with other labels. -/
  relabel : ∀ source place (failure : Failure) (labels : Labels),
    law source place (.failed failure) → failure.place.index = place.index →
    law source place (.failed ⟨failure.place, labels.toList⟩)

namespace Law

variable {law : Source → Position → Result → Prop} {source : Source} {place stop : Position}

/-- The value of a result may be changed. -/
theorem mapValue (hlaw : Law law) {result : Result} (h : law source place result)
    (fn : Value → Value) : law source place (result.mapValue fn) := by
  cases result with
  | matched stop value => exact hlaw.revalue source place stop value (fn value) h
  | failed failure => exact h

/-- The labels of a failure at the place may be replaced. -/
theorem relabelled (hlaw : Law law) {result : Result} (h : law source place result)
    (labels : Labels) : law source place (Engine.relabel labels place result) := by
  cases result with
  | matched stop value => exact h
  | failed failure =>
    rw [Engine.relabel]
    by_cases there : failure.place.index = place.index
    · rw [if_pos there]
      exact hlaw.relabel source place failure labels h there
    · rw [if_neg there]
      exact h

end Law

/-- An engine keeps what is known, composed parsers obey a law, and known lazy parsers make composed
parsers. -/
structure Engine.Keeps (engine : Engine Eval) (law : Source → Position → Result → Prop) :
    Prop where
  /-- Running parsers. -/
  run : ∀ known parser source place, (engine.run parser source place).Keeps known
    fun _ result => parser.Composed known → law source place result
  /-- Having lazy parsers made. -/
  build : ∀ known cell, (engine.build cell).Keeps known
    fun larger parser => Reference.cell cell ∈ known → parser.Composed larger

namespace Engine.Keeps

variable {engine : Engine Eval} {law : Source → Position → Result → Prop} {known : Known}

/-- Running a composed parser obeys the law. -/
theorem run_composed (h : engine.Keeps law) {parser : Parser} (hparser : parser.Composed known)
    (source : Source) (place : Position) :
    (engine.run parser source place).Keeps known fun _ result => law source place result :=
  (h.run known parser source place).imp fun _ _ hresult => hresult hparser

/-- Such an engine upholds the family of composed parsers. -/
theorem upholds (h : engine.Keeps law) : engine.Upholds Parser.Composed where
  run known parser source place :=
    Eval.keeps_iff.mp ((h.run known parser source place).imp fun _ _ _ => trivial)
  build known cell := Eval.keeps_iff.mp (h.build known cell)

/-- Every script keeps what is known. -/
theorem perform_any (h : engine.Keeps law) {α : Type} (action : Action α) (known : Known) :
    (engine.perform action).Keeps known fun _ _ => True :=
  Eval.keeps_iff.mpr (h.upholds.perform_any action known)

/-- A script that makes composed parsers only makes a composed parser, if any. -/
theorem perform_composed (h : engine.Keeps law) (action : Action (Object Parser)) (known : Known)
    (haction : Action.Composed known action) :
    (engine.perform action).Keeps known fun larger object => object.Composed larger :=
  Eval.keeps_iff.mpr
    (h.upholds.perform_makes Parser.monotone_composed action known haction.makes)

end Engine.Keeps

end Descent
