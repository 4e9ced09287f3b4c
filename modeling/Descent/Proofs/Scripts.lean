import Descent.Engine

/-! # Performing scripts

* **`Engine.perform_bind_of`** — performing one script and then another, in any monad in which
  nothing follows an error.
* **`Engine.perform_bind`** — the same for plain computations.
* **`Engine.perform_bind_ok`** — the second script goes on where the first one ended. -/

namespace Descent.Engine

variable {α β γ : Type}

section Monads

variable {m : Type → Type} [Monad m] [LawfulMonad m] [MonadLiftT Eval m] (engine : Engine m)

/-- What a script asks for comes first, however the rest of it is put together. -/
theorem bind_perform_bind {rest : γ → Action α} {next : α → Action β}
    (hrest : ∀ answer, engine.perform ((rest answer).bind next)
      = engine.perform (rest answer) >>= fun result => engine.perform (next result))
    (first : m γ) :
    (first >>= fun answer => engine.perform ((rest answer).bind next))
      = (first >>= fun answer => engine.perform (rest answer))
        >>= fun result => engine.perform (next result) := by
  rw [bind_assoc]
  congr 1
  funext answer
  exact hrest answer

/-- Where nothing follows an error, scripts put one after another are performed one after
another. -/
theorem perform_bind_of
    (hraise : ∀ {α β : Type} (cause : Raised) (next : α → m β),
      (liftM (Eval.raise cause : Eval α) : m α) >>= next = liftM (Eval.raise cause : Eval β))
    (script : Action α) (next : α → Action β) :
    engine.perform (script.bind next)
      = engine.perform script >>= fun result => engine.perform (next result) := by
  induction script with
  | done result => exact (pure_bind result fun result => engine.perform (next result)).symm
  | raise cause => exact (hraise cause _).symm
  | note event rest ih => exact engine.bind_perform_bind (fun _ => ih) _
  | run parser source start rest ih =>
    exact engine.bind_perform_bind ih (engine.run parser source start)
  | build cell rest ih => exact engine.bind_perform_bind (fun _ => ih) (engine.build cell)
  | inspect cell rest ih =>
    exact engine.bind_perform_bind (fun found : Cell => ih found.state found.shown) _
  | defer language name make rest ih => exact engine.bind_perform_bind ih _
  | lookUp language name rest ih => exact engine.bind_perform_bind ih _
  | rule language name rest ih => exact engine.bind_perform_bind ih _
  | create className arguments rules rest ih => exact engine.bind_perform_bind ih _
  | fetch name rest ih => exact engine.bind_perform_bind ih _
  | count counter rest ih => exact engine.bind_perform_bind ih _

end Monads

variable (engine : Engine Eval)

/-- Scripts put one after another are performed one after another. -/
theorem perform_bind (script : Action α) (next : α → Action β) :
    engine.perform (script.bind next)
      = engine.perform script >>= fun result => engine.perform (next result) :=
  engine.perform_bind_of Eval.raise_bind script next

variable {engine}

/-- After a script that ended well, what follows goes on in the store that was left. -/
theorem perform_bind_ok {script : Action α} {store after : Store} {result : α}
    (h : (engine.perform script).on store = some (.ok result, after)) (next : α → Action β) :
    (engine.perform (script >>= next)).on store = (engine.perform (next result)).on after := by
  rw [Script.bind_eq, perform_bind, Eval.bind_ok h]

end Descent.Engine
