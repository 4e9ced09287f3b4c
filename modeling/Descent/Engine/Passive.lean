import Descent.Engine.Related

/-! # Scripts for which no engine is needed

A script that neither runs parsers nor has them made asks an engine for nothing. So it does not
matter with which engine it is performed, in whichever monad.

* **`Script.Passive`** — such a script.
* **`Engine.Composable.perform_passive`** — main statement: all engines do related things with it.
* **`Engine.perform_eq_of_passive`** — they do the same with it. -/

namespace Descent

/-- A script that neither runs a parser nor has one made. -/
def Script.Passive {P M α : Type} : Script P M α → Prop
  | .done _ => True
  | .raise _ => True
  | .note _ next => next.Passive
  | .run _ _ _ _ => False
  | .build _ _ => False
  | .defer _ _ _ next => ∀ cell, (next cell).Passive
  | .inspect _ next => ∀ state shown, (next state shown).Passive
  | .lookUp _ _ next => ∀ found, (next found).Passive
  | .rule _ _ next => ∀ cell, (next cell).Passive
  | .create _ _ _ next => ∀ language, (next language).Passive
  | .fetch _ next => ∀ found, (next found).Passive
  | .count _ next => ∀ before, (next before).Passive

namespace Engine

variable {m n : Type → Type} [Monad m] [MonadLiftT Eval m] [Monad n] [MonadLiftT Eval n]
  {R : (α : Type) → m α → n α → Prop}

/-- Any two engines do related things with a script that neither runs nor makes parsers. -/
theorem Composable.perform_passive (hR : Composable R) (first : Engine m) (second : Engine n)
    {α : Type} {action : Action α} (h : action.Passive) :
    R α (first.perform action) (second.perform action) := by
  induction action with
  | done result => exact hR.pure result
  | raise cause => exact hR.inner (.raise cause)
  | note event next ih => exact hR.bind (hR.inner (.note event)) fun _ => ih h
  | run | build => exact h.elim
  | inspect cell next ih =>
    exact hR.bind (hR.inner (.read _))
      fun found => ih found.state found.shown (h found.state found.shown)
  | defer language name make next ih =>
    exact hR.bind (hR.inner (.addCell language name make)) fun answer => ih answer (h answer)
  | create className arguments rules next ih =>
    exact hR.bind (hR.inner (.create className arguments rules)) fun answer => ih answer (h answer)
  | count counter next ih =>
    exact hR.bind (hR.inner (.count counter)) fun answer => ih answer (h answer)
  | lookUp _ _ next ih | rule _ _ next ih | fetch _ next ih =>
    exact hR.bind (hR.inner (.consult _)) fun answer => ih answer (h answer)

/-- To be the same can be kept up from one computation to the next. -/
theorem composable_eq : Composable fun α (first second : m α) => first = second where
  pure _ := rfl
  inner _ := rfl
  bind h hnext := by rw [h, funext hnext]

/-- Every engine does the same with such a script. -/
theorem perform_eq_of_passive (first second : Engine m) {α : Type} {action : Action α}
    (h : action.Passive) : first.perform action = second.perform action :=
  composable_eq.perform_passive first second h

end Engine

end Descent
