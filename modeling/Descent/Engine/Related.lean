import Descent.Parse

/-! # Related engines

What an engine does with scripts and with parsers does not depend on the monad in which it works. So
two engines that are related, in whichever way can be kept up from one computation to the next, do
related things.

* **`Eval.Inner`**, **`Eval.Basic`** — what an engine does by itself, without running a parser: in
  the midst of a run, and altogether.
* **`Engine.Composable`**, **`Engine.Compatible`** — a relation between computations that can be
  kept up through a run, and through all that an engine is used for.
* **`Engine.Related`** — engines whose answers are related.
* **`Engine.Composable.step`**, **`Engine.Related.step`** — main statement: related engines do
  related things with a parser. -/

namespace Descent

/-- What an engine does by itself in the midst of a run. It makes no entry in the log. -/
inductive Eval.Inner : {α : Type} → Eval α → Prop where
  /-- An error. -/
  | raise {α : Type} (cause : Raised) : Eval.Inner (Eval.raise cause : Eval α)
  /-- A note. -/
  | note (event : Event) : Eval.Inner (Eval.update (·.note event))
  /-- A new lazy parser. -/
  | addCell (language : InstanceId) (name : String) (make : Maker) :
      Eval.Inner (Eval.draw (·.addCell language name make))
  /-- A look at the store. -/
  | read {α : Type} (view : Store → α) : Eval.Inner (Eval.read view)
  /-- A question to the store. -/
  | consult {α : Type} (view : Store → Except Raised α) : Eval.Inner (Eval.consult view)
  /-- A new language. -/
  | create (className : String) (arguments : Table Value) (rules : Table (Owner → Maker)) :
      Eval.Inner (Eval.attempt (·.create className arguments rules))
  /-- A counter. -/
  | count (counter : Nat) : Eval.Inner (Eval.draw (·.count counter))

/-- What an engine does by itself: computations in which no parser is run or made. -/
inductive Eval.Basic : {α : Type} → Eval α → Prop where
  /-- An error. -/
  | raise {α : Type} (cause : Raised) : Eval.Basic (Eval.raise cause : Eval α)
  /-- A note. -/
  | note (event : Event) : Eval.Basic (Eval.update (·.note event))
  /-- A new lazy parser. -/
  | addCell (language : InstanceId) (name : String) (make : Maker) :
      Eval.Basic (Eval.draw (·.addCell language name make))
  /-- A look at the store. -/
  | read {α : Type} (view : Store → α) : Eval.Basic (Eval.read view)
  /-- A question to the store. -/
  | consult {α : Type} (view : Store → Except Raised α) : Eval.Basic (Eval.consult view)
  /-- A new language. -/
  | create (className : String) (arguments : Table Value) (rules : Table (Owner → Maker)) :
      Eval.Basic (Eval.attempt (·.create className arguments rules))
  /-- A counter. -/
  | count (counter : Nat) : Eval.Basic (Eval.draw (·.count counter))
  /-- An entry of the log. -/
  | logResult (source : Source) (result : Result) :
      Eval.Basic (Eval.attempt (·.logResult source result))

theorem Eval.Inner.basic {α : Type} {computation : Eval α} (h : computation.Inner) :
    computation.Basic := by
  cases h with
  | raise cause => exact .raise cause
  | note event => exact .note event
  | addCell language name make => exact .addCell language name make
  | read view => exact .read view
  | consult view => exact .consult view
  | create className arguments rules => exact .create className arguments rules
  | count counter => exact .count counter

namespace Engine

variable {m n : Type → Type} [Monad m] [MonadLiftT Eval m] [Monad n] [MonadLiftT Eval n]

/-- A relation between the computations of two monads that putting computations together keeps up,
and in which what an engine does by itself in a run is related to the same in the other monad. -/
structure Composable (R : (α : Type) → m α → n α → Prop) : Prop where
  /-- Ending with a result. -/
  pure : ∀ {α : Type} (result : α), R α (Pure.pure result : m α) (Pure.pure result : n α)
  /-- What an engine does by itself in a run. -/
  inner : ∀ {α : Type} {computation : Eval α}, computation.Inner →
    R α (liftM computation : m α) (liftM computation : n α)
  /-- One computation after another. -/
  bind : ∀ {α β : Type} {first : m α} {first' : n α} {next : α → m β} {next' : α → n β},
    R α first first' → (∀ result, R β (next result) (next' result)) →
      R β (first >>= next) (first' >>= next')

/-- Such a relation in which all that an engine does by itself is related to the same in the other
monad. -/
structure Compatible (R : (α : Type) → m α → n α → Prop) : Prop where
  /-- Ending with a result. -/
  pure : ∀ {α : Type} (result : α), R α (Pure.pure result : m α) (Pure.pure result : n α)
  /-- What an engine does by itself. -/
  basic : ∀ {α : Type} {computation : Eval α}, computation.Basic →
    R α (liftM computation : m α) (liftM computation : n α)
  /-- One computation after another. -/
  bind : ∀ {α β : Type} {first : m α} {first' : n α} {next : α → m β} {next' : α → n β},
    R α first first' → (∀ result, R β (next result) (next' result)) →
      R β (first >>= next) (first' >>= next')

theorem Compatible.composable {R : (α : Type) → m α → n α → Prop} (h : Compatible R) :
    Composable R := ⟨h.pure, fun hinner => h.basic hinner.basic, h.bind⟩

/-- Two engines whose answers are related. -/
structure Related (R : (α : Type) → m α → n α → Prop) (first : Engine m) (second : Engine n) :
    Prop where
  /-- The results of parsers. -/
  run : ∀ parser source place, R _ (first.run parser source place) (second.run parser source place)
  /-- The parsers of lazy parsers. -/
  build : ∀ cell, R _ (first.build cell) (second.build cell)

namespace Composable

variable {R : (α : Type) → m α → n α → Prop} {first : Engine m} {second : Engine n}

/-- Related engines do related things with a script. -/
theorem perform (hR : Composable R) (h : Related R first second) {α : Type} (action : Action α) :
    R α (first.perform action) (second.perform action) := by
  induction action with
  | done result => exact hR.pure result
  | raise cause => exact hR.inner (.raise cause)
  | note event next ih => exact hR.bind (hR.inner (.note event)) fun _ => ih
  | run parser source start next ih => exact hR.bind (h.run parser source start) ih
  | build cell next ih => exact hR.bind (h.build cell) fun _ => ih
  | defer language name make next ih =>
    exact hR.bind (hR.inner (.addCell language name make)) ih
  | inspect cell next ih =>
    exact hR.bind (hR.inner (.read _)) fun found => ih found.state found.shown
  | lookUp language name next ih => exact hR.bind (hR.inner (.consult _)) ih
  | rule language name next ih => exact hR.bind (hR.inner (.consult _)) ih
  | create className arguments rules next ih =>
    exact hR.bind (hR.inner (.create className arguments rules)) ih
  | fetch name next ih => exact hR.bind (hR.inner (.consult _)) ih
  | count counter next ih => exact hR.bind (hR.inner (.count counter)) ih

/-- Related engines do related things with parsers one after another. -/
theorem sequence (hR : Composable R) (h : Related R first second) (source : Source)
    (parsers : List Parser) (values : List Value) (place : Position) :
    R _ (first.sequence source parsers values place)
      (second.sequence source parsers values place) := by
  induction parsers generalizing values place with
  | nil => exact hR.pure _
  | cons parser parsers ih =>
    refine hR.bind (h.run parser source place) fun result => ?_
    cases result with
    | matched stop value => exact ih (value :: values) stop
    | failed failure => exact hR.pure _

/-- Related engines do related things with a parser. -/
theorem step (hR : Composable R) (h : Related R first second) (parser : Parser) (source : Source)
    (place : Position) :
    R _ (first.step parser source place) (second.step parser source place) := by
  cases parser with
  | text | ok | fail | eof | location => exact hR.pure _
  | pattern regex => exact hR.inner (.consult _)
  | seq parsers => exact hR.sequence h source parsers [] place
  | or left right =>
    refine hR.bind (h.run left source place) fun result => ?_
    cases result with
    | matched stop value => exact hR.pure _
    | failed failure =>
      refine hR.bind (h.run right source place) fun other => ?_
      cases other with
      | matched stop value => exact hR.pure _
      | failed failure => exact hR.pure _
  | map of fn =>
    refine hR.bind (h.run of source place) fun result => ?_
    cases result with
    | matched stop value => exact hR.bind (hR.perform h _) fun _ => hR.pure _
    | failed failure => exact hR.pure _
  | chain of fn =>
    refine hR.bind (h.run of source place) fun result => ?_
    cases result with
    | failed failure => exact hR.pure _
    | matched stop value =>
      refine hR.bind (hR.perform h _) fun object => ?_
      -- only a parser goes on; what is none is shown in an error
      cases object with
      | parser p => exact h.run p source stop
      | value | table | other =>
        exact hR.bind (hR.inner (.consult _)) fun _ => hR.inner (.raise _)
  | many0 of =>
    refine hR.bind (h.run of source place) fun result => ?_
    cases result with
    | failed failure => exact hR.pure _
    | matched stop value =>
      by_cases still : stop.index = place.index
      · simp only [still, if_true]
        exact hR.pure _
      · simp only [still, if_false]
        exact hR.bind (h.run (.many0 of) source stop) fun _ => hR.pure _
  | desc of labels => exact hR.bind (h.run of source place) fun _ => hR.pure _
  | lazy cell => exact hR.bind (h.build cell) fun p => h.run p source place
  | kept number => exact hR.bind (hR.inner (.read _)) fun p => h.run p source place
  | custom action => exact hR.perform h _

end Composable

namespace Related

variable {R : (α : Type) → m α → n α → Prop} {first : Engine m} {second : Engine n}

/-- Related engines do related things with a script. -/
theorem perform (hR : Compatible R) (h : Related R first second) {α : Type} (action : Action α) :
    R α (first.perform action) (second.perform action) := hR.composable.perform h action

/-- Related engines do related things with a parser. -/
theorem step (hR : Compatible R) (h : Related R first second) (parser : Parser) (source : Source)
    (place : Position) :
    R _ (first.step parser source place) (second.step parser source place) :=
  hR.composable.step h parser source place

/-- Related engines do related things with a source. -/
theorem parse (hR : Compatible R) (h : Related R first second) (root : Parser) (source : Source) :
    R _ (first.parse root source) (second.parse root source) :=
  hR.bind (h.run root source .start) fun result =>
    hR.bind (hR.basic (.logResult source result)) fun _ => hR.pure result

/-- Related engines do related things with a source that has to be matched in full. -/
theorem tryParse (hR : Compatible R) (h : Related R first second) (root : Parser)
    (source : Source) : R _ (first.tryParse root source) (second.tryParse root source) := by
  refine hR.bind (parse hR h _ source) fun result => ?_
  cases result with
  | matched stop value => exact hR.pure value
  | failed failure => exact hR.basic (.raise _)

end Related

end Engine

end Descent
