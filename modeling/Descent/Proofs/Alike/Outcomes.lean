import Descent.Proofs.Alike.Flip
import Descent.Store

/-! # Ends that are alike

What two computations on stores that are alike end with.

* **`Answers`** — what is read off two stores: both have related answers, or the same error.
* **`Raised.Alike`** — errors that are alike. An error may show a table of lazy parsers, and in it
  their stages.
* **`Outcomes`** — what two computations end with: related results, or errors that are alike. -/

namespace Descent

/-! ## Answers -/

/-- Related answers, or the same error. -/
inductive Answers {α β : Type} (R : α → β → Prop) : Except Raised α → Except Raised β → Prop where
  /-- Both have answers. -/
  | ok {answer : α} {answer' : β} (h : R answer answer') : Answers R (.ok answer) (.ok answer')
  /-- Both have the same error. -/
  | error (cause : Raised) : Answers R (.error cause) (.error cause)

namespace Answers

variable {α β : Type} {R : α → β → Prop} {answer : Except Raised α} {answer' : Except Raised β}

/-- Of answers that are related, both are there, or both are the same error. -/
theorem eq_or (h : Answers R answer answer') :
    (∃ found found', answer = .ok found ∧ answer' = .ok found' ∧ R found found') ∨
      ∃ cause, answer = .error cause ∧ answer' = .error cause := by
  cases h with
  | ok h => exact .inl ⟨_, _, rfl, rfl, h⟩
  | error cause => exact .inr ⟨cause, rfl, rfl⟩

/-- Answers that are there are related. -/
theorem of_ok (h : Answers R answer answer') {found : α} {found' : β} (hfound : answer = .ok found)
    (hfound' : answer' = .ok found') : R found found' := by
  subst hfound hfound'
  cases h with
  | ok h => exact h

/-- If one answer is there, so is the other. -/
theorem exists_ok (h : Answers R answer answer') {found : α} (hfound : answer = .ok found) :
    ∃ found', answer' = .ok found' ∧ R found found' := by
  subst hfound
  cases h with
  | ok h => exact ⟨_, rfl, h⟩

/-- Answers that are related in one way may be related in another. -/
theorem imp {R' : α → β → Prop} (hR : ∀ a b, R a b → R' a b) (h : Answers R answer answer') :
    Answers R' answer answer' := by
  cases h with
  | ok h => exact .ok (hR _ _ h)
  | error cause => exact .error cause

/-- Answers that are related are so the other way round. -/
theorem flip {R' : β → α → Prop} (hR : ∀ a b, R a b → R' b a) (h : Answers R answer answer') :
    Answers R' answer' answer := by
  cases h with
  | ok h => exact .ok (hR _ _ h)
  | error cause => exact .error cause

end Answers

/-! ## Errors -/

/-- The text of a table of lazy parsers: the name, and for the lazy parser its own name and its
stage. -/
def tableText (entries : List (String × String × RuleState)) : String :=
  let shown := entries.map fun entry =>
    Text.Quoted.quote entry.1 ++ ": " ++ (Cell.mk entry.2.1 entry.2.2 default none).shown
  "\x7b" ++ ", ".intercalate shown ++ "\x7d"

/-- Texts that are the same, or that show tables of the same lazy parsers in other stages. -/
inductive SameText (leeway : Leeway) : String → String → Prop where
  /-- The same text. -/
  | same (shown : String) : SameText leeway shown shown
  /-- Lazy parsers of the same names in other stages. -/
  | table (hstages : leeway.stages) {entries entries' : List (String × String × RuleState)}
      (h : (entries'.map fun entry => (entry.1, entry.2.1))
        = entries.map fun entry => (entry.1, entry.2.1)) :
      SameText leeway (tableText entries) (tableText entries')

/-- Errors that are the same, but for the stages shown in them. -/
inductive Raised.Alike (leeway : Leeway) : Raised → Raised → Prop where
  /-- The same error. -/
  | same (cause : Raised) : Raised.Alike leeway cause cause
  /-- A chain function made something that is no parser. -/
  | chained {shown shown' : String} (h : SameText leeway shown shown') :
      Raised.Alike leeway (.chainedNonParser shown) (.chainedNonParser shown')
  /-- A rule made something that is no parser. -/
  | built {rule shown shown' : String} (h : SameText leeway shown shown') :
      Raised.Alike leeway (.builtNonParser rule shown) (.builtNonParser rule shown')

/-- What two computations end with: related results, or errors that are alike. -/
inductive Outcomes (leeway : Leeway) {α β : Type} (R : α → β → Prop) :
    Except Raised α → Except Raised β → Prop where
  /-- Both end with results. -/
  | ok {result : α} {result' : β} (h : R result result') :
      Outcomes leeway R (.ok result) (.ok result')
  /-- Both end with errors. -/
  | error {cause cause' : Raised} (h : Raised.Alike leeway cause cause') :
      Outcomes leeway R (.error cause) (.error cause')

section Outcomes

variable {leeway : Leeway} {α β : Type}

/-- Computations may end with what they read. -/
theorem Answers.outcomes {R : α → β → Prop} {answer : Except Raised α}
    {answer' : Except Raised β} (h : Answers R answer answer') :
    Outcomes leeway R answer answer' := by
  cases h with
  | ok h => exact .ok h
  | error cause => exact .error (.same cause)

/-- A computation ends with what is related to what it ends with. -/
theorem Outcomes.refl {R : α → α → Prop} (hR : ∀ result, R result result)
    (outcome : Except Raised α) : Outcomes leeway R outcome outcome := by
  cases outcome with
  | ok result => exact .ok (hR result)
  | error cause => exact .error (.same cause)

/-- What is done with related results leads to what is related. -/
theorem Outcomes.bind {γ δ : Type} {R : α → β → Prop} {R' : γ → δ → Prop}
    {outcome : Except Raised α} {outcome' : Except Raised β} {f : α → Except Raised γ}
    {f' : β → Except Raised δ} (h : Outcomes leeway R outcome outcome')
    (hf : ∀ a b, R a b → Outcomes leeway R' (f a) (f' b)) :
    Outcomes leeway R' (outcome.bind f) (outcome'.bind f') := by
  cases h with
  | ok h => exact hf _ _ h
  | error h => exact .error h

/-- Without leeway in labels, results that are alike are the same. -/
theorem Result.Alike.eq {result result' : Result}
    (h : Result.Alike leeway result result') (hlabels : ¬ leeway.labels) : result = result' := by
  cases h with
  | matched place value => rfl
  | failed hexpected => rw [hexpected.resolve_right hlabels]

/-- Without leeway in stages, texts that show the same are the same. -/
theorem SameText.eq {shown shown' : String} (h : SameText leeway shown shown')
    (hstages : ¬ leeway.stages) : shown' = shown := by
  cases h with
  | same shown => rfl
  | table h => exact absurd h hstages

/-- Without leeway in stages, errors that are alike are the same. -/
theorem Raised.Alike.eq {cause cause' : Raised} (h : Raised.Alike leeway cause cause')
    (hstages : ¬ leeway.stages) : cause' = cause := by
  cases h with
  | same cause => rfl
  | chained h => rw [h.eq hstages]
  | built h => rw [h.eq hstages]

/-- Related results may be related in another way. -/
theorem Outcomes.imp {R R' : α → β → Prop} {outcome : Except Raised α}
    {outcome' : Except Raised β} (hR : ∀ a b, R a b → R' a b)
    (h : Outcomes leeway R outcome outcome') : Outcomes leeway R' outcome outcome' := by
  cases h with
  | ok h => exact .ok (hR _ _ h)
  | error h => exact .error h

/-- Texts that show the same do so the other way round. -/
theorem SameText.flip {shown shown' : String} (h : SameText leeway shown shown') :
    SameText leeway shown' shown := by
  cases h with
  | same shown => exact .same shown
  | table hstages h => exact .table hstages h.symm

/-- Errors that are alike are so the other way round. -/
theorem Raised.Alike.flip {cause cause' : Raised} (h : Raised.Alike leeway cause cause') :
    Raised.Alike leeway cause' cause := by
  cases h with
  | same cause => exact .same cause
  | chained h => exact .chained h.flip
  | built h => exact .built h.flip

/-- What is related to what a computation ends with is so the other way round. -/
theorem Outcomes.flip {R : α → β → Prop} {R' : β → α → Prop} {outcome : Except Raised α}
    {outcome' : Except Raised β} (hR : ∀ a b, R a b → R' b a)
    (h : Outcomes leeway R outcome outcome') : Outcomes leeway R' outcome' outcome := by
  cases h with
  | ok h => exact .ok (hR _ _ h)
  | error h => exact .error h.flip

/-- The same may be done with the same results. -/
theorem Outcomes.map {outcome outcome' : Except Raised α} (h : Outcomes leeway Eq outcome outcome')
    (f : α → β) : Outcomes leeway Eq (outcome.map f) (outcome'.map f) := by
  cases h with
  | ok h => exact .ok (congrArg f h)
  | error h => exact .error h

end Outcomes

end Descent
