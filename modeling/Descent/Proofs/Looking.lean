import Descent.Engine.Passive
import Descent.Proofs.Store.Opens
import Descent.Session

/-! # Looking at languages

Most of what can be done with a language has nothing to do with running its rules: it is made, its
attributes and rules are got, their names and stages are asked for, they are shown, compared and put
together to larger parsers. For none of this an engine is needed, so no lazy parser is made.

* **`Engine.Idle`** — what can be done without an engine, and without changing a lazy parser.
* **`Engine.Idle.perform`** — performing a script that neither runs nor makes parsers.
* **`Session.Step.Looks`** — steps of a session that look at languages only.
* **`Session.Step.Looks.idle`** — main statement: they are done without an engine. -/

namespace Descent

/-- Something is done without an engine: with whichever engine, it ends in the same way, and every
lazy parser is as it was. -/
def Engine.Idle {α : Type} (use : Engine Eval → Eval α) : Prop :=
  ∀ store : Store, ∃ ended after, store.Spares after ∧
    ∀ engine, (use engine).on store = some (ended, after)

/-- A computation ends and leaves every lazy parser as it is. -/
def Eval.Idle {α : Type} (computation : Eval α) : Prop :=
  ∀ store, ∃ ended after, store.Spares after ∧ computation.on store = some (ended, after)

namespace Eval.Idle

variable {α β : Type}

/-- What ends in some way, whatever it is, and leaves every lazy parser as it is. -/
theorem of_spares {computation : Eval α} (hends : ∀ store, (computation.on store).isSome)
    (h : ∀ store ended after, computation.on store = some (ended, after) → store.Spares after) :
    computation.Idle := by
  intro store
  obtain ⟨⟨ended, after⟩, hon⟩ := Option.isSome_iff_exists.mp (hends store)
  exact ⟨ended, after, h store ended after hon, hon⟩

theorem pure (result : α) : (Pure.pure result : Eval α).Idle :=
  fun store => ⟨.ok result, store, .refl store, rfl⟩

theorem raise (cause : Raised) : (Eval.raise cause : Eval α).Idle :=
  fun store => ⟨.error cause, store, .refl store, rfl⟩

/-- A question to the store changes nothing. -/
theorem consult (view : Store → Except Raised α) : (Eval.consult view).Idle :=
  fun store => ⟨view store, store, .refl store, rfl⟩

theorem read (view : Store → α) : (Eval.read view).Idle :=
  fun store => ⟨.ok (view store), store, .refl store, rfl⟩

/-- A change of the store that may fail always ends. -/
theorem isSome_attempt_on (change : Store → Except Raised (α × Store)) (store : Store) :
    ((Eval.attempt change).on store).isSome := by
  unfold Eval.attempt
  cases h : change store with
  | ok made => simp only [h, Option.isSome_some]
  | error cause => simp only [h, Option.isSome_some]

/-- What an engine does by itself in a run always ends. -/
theorem inner {computation : Eval α} (h : computation.Inner) : computation.Idle := by
  refine .of_spares (fun store => ?_) fun store ended after hon => (h.basic.opens hon).spares
  cases h with
  | raise | note | addCell | read | consult | count => rfl
  | create => exact isSome_attempt_on _ store

theorem bind {first : Eval α} {next : α → Eval β} (h : first.Idle)
    (hnext : ∀ result, (next result).Idle) : (first >>= next).Idle := by
  intro store
  obtain ⟨ended, middle, hspares, hfirst⟩ := h store
  cases ended with
  | error cause => exact ⟨.error cause, middle, hspares, Eval.bind_error hfirst⟩
  | ok result =>
    obtain ⟨ended, after, hspares', hsecond⟩ := hnext result middle
    exact ⟨ended, after, hspares.trans hspares', (Eval.bind_ok hfirst).trans hsecond⟩

/-- Putting computations together keeps this up. -/
theorem composable : Engine.Composable fun α (first _ : Eval α) => first.Idle where
  pure := .pure
  inner := .inner
  bind := .bind

end Eval.Idle

namespace Engine.Idle

variable {α β : Type}

/-- Something that is no matter of engines. -/
theorem const {computation : Eval α} (h : computation.Idle) : Idle fun _ => computation := by
  intro store
  obtain ⟨ended, after, hspares, hon⟩ := h store
  exact ⟨ended, after, hspares, fun _ => hon⟩

/-- One thing after another. -/
theorem bind {first : Engine Eval → Eval α} {next : Engine Eval → α → Eval β} (h : Idle first)
    (hnext : ∀ result, Idle fun engine => next engine result) :
    Idle fun engine => first engine >>= next engine := by
  intro store
  obtain ⟨ended, middle, hspares, hfirst⟩ := h store
  cases ended with
  | error cause =>
    exact ⟨.error cause, middle, hspares, fun engine => Eval.bind_error (hfirst engine)⟩
  | ok result =>
    obtain ⟨ended, after, hspares', hsecond⟩ := hnext result middle
    refine ⟨ended, after, hspares.trans hspares', fun engine => ?_⟩
    rw [Eval.bind_ok (hfirst engine), hsecond engine]

/-- What comes first may be no matter of engines. -/
theorem bind_const {first : Eval α} {next : Engine Eval → α → Eval β} (h : first.Idle)
    (hnext : ∀ result, Idle fun engine => next engine result) :
    Idle fun engine => first >>= next engine := (const h).bind hnext

/-- Scripts that neither run parsers nor have them made are performed without an engine. -/
theorem perform {action : Action α} (h : action.Passive) :
    Idle fun engine => engine.perform action := by
  intro store
  obtain ⟨ended, after, hspares, hon⟩ :=
    Eval.Idle.composable.perform_passive silent silent h store
  refine ⟨ended, after, hspares, fun engine => ?_⟩
  show (engine.perform action).on store = _
  rw [perform_eq_of_passive engine silent h, hon]

end Engine.Idle

/-! ## Steps of a session -/

namespace Session

variable {session : Session}

/-- To find a target, no parser has to be run or made. -/
def Target.Looks (session : Session) : Target → Prop
  | .grammar description => (description.build ⟨session.outside, []⟩).Passive
  | _ => True

/-- A step only looks at languages, or makes new ones or larger parsers: it neither runs parsers nor
has them made. -/
def Step.Looks (session : Session) : Step → Prop
  | .run .. => False
  | .parse .. => False
  | .tryParse .. => False
  | .build _ => False
  | .define _ grammar => (Target.grammar grammar).Looks session
  | .inspect target => target.Looks session
  | .same a b => a.Looks session ∧ b.Looks session
  | _ => True

open Engine

/-- A target is found without an engine. -/
theorem Target.Looks.idle {target : Target} (h : target.Looks session) :
    Idle fun engine => target.resolve engine session := by
  cases target with
  | grammar description => exact .perform h
  | ref name => exact .const ((Eval.Idle.consult _).bind fun _ => .pure _)
  | rule language name direct =>
    refine .bind_const (.consult _) fun _ => ?_
    cases direct with
    | true => exact .const ((Eval.Idle.consult _).bind fun _ => .pure _)
    | false => exact .const ((Eval.Idle.consult _).bind fun _ => .pure _)

/-- A lazy parser is looked at without an engine. -/
theorem idle_inspectTarget {target : Target} (h : target.Looks session) :
    Idle fun engine => inspectTarget engine session target := by
  refine h.idle.bind fun object => ?_
  cases object with
  | value value => exact .const (.pure _)
  | table | other => exact .const (.raise _)
  | parser p =>
    cases p with
    | lazy cell => exact .const ((Eval.Idle.read _).bind fun _ => .pure _)
    | _ => exact .const (.raise _)

/-- Such a step is answered without an engine. -/
theorem Step.Looks.idle_answer {step : Step} (h : step.Looks session) :
    Idle fun engine => step.answer engine session := by
  cases step with
  | run | parse | tryParse | build => exact h.elim
  | inspect target => exact idle_inspectTarget h
  | makeLanguage => exact .const (.pure _)
  | define name grammar =>
    have hfound : (Target.grammar grammar).Looks session := h
    refine hfound.idle.bind fun object => .const ?_
    refine .bind (fun store => ?_) fun _ => .pure _
    exact ⟨_, _, Store.spares_shelve store name object, rfl⟩
  | defineClass name bases initialises members =>
    refine .const (.bind ?_ fun _ => .pure _)
    refine .of_spares (Eval.Idle.isSome_attempt_on _) fun store ended after hon => ?_
    rcases Store.defineClass_or_eq hon with hdefine | rfl
    · exact Store.spares_defineClass hdefine
    · exact .refl _
  | same a b =>
    refine h.1.idle.bind fun _ => h.2.idle.bind fun _ => .const ?_
    exact (Eval.Idle.read _).bind fun _ => .pure _
  | names language | state language rule | shown language =>
    exact .const ((Eval.Idle.consult _).bind fun _ => (Eval.Idle.consult _).bind fun _ => .pure _)
  | definition functionName arguments =>
    exact .const ((Eval.Idle.consult _).bind fun _ => .pure _)
  | classRule className rule =>
    exact .const ((Eval.Idle.consult _).bind fun _ => (Eval.Idle.consult _).bind fun _ => .pure _)

/-- So it is if it makes a language. -/
theorem Step.Looks.idle_execute {step : Step} (h : step.Looks session) :
    Idle fun engine => step.execute engine session := by
  cases step with
  | build => exact h.elim
  | makeLanguage name className arguments rules =>
    exact .const ((Eval.Idle.consult _).bind fun _ =>
      (Eval.Idle.inner (.create className _ _)).bind fun _ => .pure _)
  | run | parse | tryParse | inspect | define | defineClass | same | names | state | shown
  | definition | classRule => exact h.idle_answer.bind fun _ => .const (.pure _)

/-- Such a step is done without an engine, and leaves every lazy parser as it was. -/
theorem Step.Looks.idle {step : Step} (h : step.Looks session) :
    Idle fun engine => step.perform engine session := by
  refine h.idle_execute.bind fun done => .const ?_
  obtain ⟨answer, later⟩ := done
  cases hwritable : answer.isWritable with
  | true => simpa only [hwritable, if_true] using .pure _
  | false => simpa only [hwritable] using .raise _

end Session

end Descent
