import Descent.Engine.Depth
import Descent.Proofs.Scripts
import Descent.Proofs.Triples

/-! # How runs end

What a run ends with does not depend on the depth at which that shows. So it can be said what a
parser ends with by what the parsers end with that it is made of, each on the store that the one
before left, and without a word on depths.

* **`Eval.Rising`** — a family of computations that give more and more answers.
* **`Eval.eventually_bind_iff`** — one computation after another, taken apart.
* **`Parser.Ends`**, **`Action.Ends`** — what a parser and a script end with.
* **`Action.ends_bind_iff`** — one script after another.
* **`Parser.ends_or_iff`**, **`Parser.ends_many0_iff`**, **`Parser.ends_into_iff`** … — one rule for
  each combinator. -/

namespace Descent

namespace Eval

variable {α β : Type}

/-- The members of a family give more and more answers. -/
def Rising (family : Nat → Eval α) : Prop :=
  ∀ ⦃depth deeper⦄, depth ≤ deeper → (family depth).Below (family deeper)

namespace Rising

/-- A family whose members are all the same. -/
theorem const (computation : Eval α) : Rising fun _ => computation := fun _ _ _ => .refl _

/-- Rising families, one after another. -/
theorem bind {first : Nat → Eval α} {next : Nat → α → Eval β} (h : Rising first)
    (hnext : ∀ result, Rising fun depth => next depth result) :
    Rising fun depth => first depth >>= next depth :=
  fun _ _ hle => .bind (h hle) fun result => hnext result hle

/-- What one member ends with, the deeper ones end with. -/
theorem eventually {family : Nat → Eval α} (h : Rising family) {depth : Nat} {store : Store}
    {ended : Except Raised α × Store} (hon : (family depth).on store = some ended) :
    Eventually family store ended :=
  ⟨depth, fun _ hle => h hle store ended hon⟩

end Rising

variable {store after : Store}

/-- Some member ends with what the members of a family eventually end with. -/
theorem Eventually.exists_on {family : Nat → Eval α} {ended : Except Raised α × Store}
    (h : Eventually family store ended) : ∃ depth, (family depth).on store = some ended := by
  obtain ⟨depth, hdepth⟩ := h
  exact ⟨depth, hdepth depth (Nat.le_refl _)⟩

/-- A family ends in one way at most. -/
theorem Eventually.unique {family : Nat → Eval α} {ended ended' : Except Raised α × Store}
    (h : Eventually family store ended) (h' : Eventually family store ended') :
    ended = ended' := by
  obtain ⟨depth, hdepth⟩ := h
  obtain ⟨depth', hdepth'⟩ := h'
  have left := hdepth (max depth depth') (Nat.le_max_left _ _)
  have right := hdepth' (max depth depth') (Nat.le_max_right _ _)
  exact Option.some.inj (left.symm.trans right)

/-- What is the same at all depths ends as it does. -/
theorem eventually_const_iff {computation : Eval α} {ended : Except Raised α × Store} :
    Eventually (fun _ => computation) store ended ↔ computation.on store = some ended :=
  ⟨fun h => h.exists_on.choose_spec, fun h => ⟨0, fun _ _ => h⟩⟩

/-- A result is ended with at once. -/
@[simp] theorem eventually_pure_iff {result : α} {ended : Except Raised α} :
    Eventually (fun _ => (Pure.pure result : Eval α)) store (ended, after)
      ↔ ended = .ok result ∧ after = store := by
  rw [eventually_const_iff, pure_on, Option.some.injEq, Prod.mk.injEq]
  exact and_congr eq_comm eq_comm

/-- One computation after another ends with the error of the first, or as the second does. -/
theorem eventually_bind_iff {first : Nat → Eval α} {next : Nat → α → Eval β} (h : Rising first)
    (hnext : ∀ result, Rising fun depth => next depth result) {ended : Except Raised β} :
    Eventually (fun depth => first depth >>= next depth) store (ended, after) ↔
      (∃ cause, Eventually first store (.error cause, after) ∧ ended = .error cause) ∨
        ∃ result middle, Eventually first store (.ok result, middle) ∧
          Eventually (fun depth => next depth result) middle (ended, after) := by
  constructor
  · intro heventually
    obtain ⟨depth, hon⟩ := heventually.exists_on
    rcases bind_eq_some hon with ⟨cause, hfirst, rfl⟩ | ⟨result, middle, hfirst, hrest⟩
    · exact .inl ⟨cause, h.eventually hfirst, rfl⟩
    · exact .inr ⟨result, middle, h.eventually hfirst, (hnext result).eventually hrest⟩
  · rintro (⟨cause, ⟨depth, hdepth⟩, rfl⟩ | ⟨result, middle, hfirst, hrest⟩)
    · exact ⟨depth, fun deeper hle => bind_error (hdepth deeper hle)⟩
    · exact hfirst.bind hrest

/-- What is done with the result of a computation does not change what it leaves. -/
theorem eventually_map_iff {first : Nat → Eval α} {f : α → β} (h : Rising first)
    {ended : Except Raised β} :
    Eventually (fun depth => first depth >>= fun result => Pure.pure (f result)) store
        (ended, after) ↔
      ∃ inner, Eventually first store (inner, after) ∧ ended = inner.map f := by
  have hnext : ∀ result, Rising fun _ => (Pure.pure (f result) : Eval β) := fun _ => .const _
  rw [eventually_bind_iff h hnext]
  constructor
  · rintro (⟨cause, hfirst, rfl⟩ | ⟨result, middle, hfirst, hrest⟩)
    · exact ⟨_, hfirst, rfl⟩
    · obtain ⟨rfl, rfl⟩ := eventually_pure_iff.mp hrest
      exact ⟨_, hfirst, rfl⟩
  · rintro ⟨cause | result, hfirst, rfl⟩
    · exact .inl ⟨cause, hfirst, rfl⟩
    · exact .inr ⟨result, after, hfirst, eventually_pure_iff.mpr ⟨rfl, rfl⟩⟩

end Eval

namespace Engine

/-- Deeper engines give more and more results of parsers. -/
theorem rising_run (parser : Parser) (source : Source) (place : Position) :
    Eval.Rising fun depth => (upTo depth).run parser source place :=
  fun _ _ hle => (below_upTo hle).run parser source place

/-- Deeper engines give more and more results of steps. -/
theorem rising_step (parser : Parser) (source : Source) (place : Position) :
    Eval.Rising fun depth => (upTo depth).step parser source place :=
  fun _ _ hle => step_below (below_upTo hle) parser source place

/-- Deeper engines get further and further with a script. -/
theorem rising_perform {α : Type} (action : Action α) :
    Eval.Rising fun depth => (upTo depth).perform action :=
  fun _ _ hle => perform_below (below_upTo hle) action

end Engine

/-! ## Results -/

/-- The result of a choice whose first parser has failed, by that of the second. -/
def Failure.orResult (failure : Failure) : Result → Result
  | .matched stop value => .matched stop value
  | .failed other => .failed (failure.merge other)

/-- What a run ends with is no match. -/
def Unmatched (ended : Except Raised Result) : Prop :=
  ∀ stop value, ended ≠ .ok (.matched stop value)

/-- What a run ends with is no failure. -/
def Unfailed (ended : Except Raised Result) : Prop := ∀ failure, ended ≠ .ok (.failed failure)

/-- A result from a place is no match that goes on from there. -/
def Result.Rests (place : Position) (result : Result) : Prop :=
  ∀ stop value, result = .matched stop value → stop.index = place.index

/-- A result that goes on is a match that has moved. -/
theorem exists_of_not_rests {place : Position} {result : Result} (h : ¬ result.Rests place) :
    ∃ stop value, result = .matched stop value ∧ stop.index ≠ place.index := by
  cases result with
  | matched stop value =>
    refine ⟨stop, value, rfl, fun hstill => h ?_⟩
    rintro _ _ ⟨⟩
    exact hstill
  | failed failure => exact absurd nofun h

theorem unmatched_error (cause : Raised) : Unmatched (.error cause) := nofun

theorem unmatched_failed (failure : Failure) : Unmatched (.ok (.failed failure)) := nofun

theorem unfailed_error (cause : Raised) : Unfailed (.error cause) := nofun

theorem unfailed_matched (stop : Position) (value : Value) :
    Unfailed (.ok (.matched stop value)) := nofun

/-- A run that ends ends with a match, or not. -/
theorem matched_or_unmatched (ended : Except Raised Result) :
    (∃ stop value, ended = .ok (.matched stop value)) ∨ Unmatched ended := by
  rcases ended with cause | stop | failure
  · exact .inr (unmatched_error cause)
  · exact .inl ⟨_, _, rfl⟩
  · exact .inr (unmatched_failed _)

/-- A run that ends ends with a failure, or not. -/
theorem failed_or_unfailed (ended : Except Raised Result) :
    (∃ failure, ended = .ok (.failed failure)) ∨ Unfailed ended := by
  rcases ended with cause | stop | failure
  · exact .inr (unfailed_error cause)
  · exact .inr (unfailed_matched _ _)
  · exact .inl ⟨_, rfl⟩

/-- What is no failure is what the choice ends with. -/
theorem Unfailed.map_orResult {ended : Except Raised Result} (h : Unfailed ended)
    (failure : Failure) : ended.map failure.orResult = ended := by
  rcases ended with cause | ⟨stop, value⟩ | other
  · rfl
  · rfl
  · exact absurd rfl (h other)

/-- What is no match has no value to change. -/
theorem Unmatched.map_mapValue {ended : Except Raised Result} (h : Unmatched ended)
    (fn : Value → Value) : ended.map (·.mapValue fn) = ended := by
  rcases ended with cause | ⟨stop, value⟩ | failure
  · rfl
  · exact absurd rfl (h stop value)
  · rfl

/-! ## Parsers and scripts -/

/-- A parser, run on a source from a place in a store, ends so. -/
def Parser.Ends (parser : Parser) (source : Source) (place : Position) (store : Store)
    (ended : Except Raised Result) (after : Store) : Prop :=
  Eval.Eventually (fun depth => (Engine.upTo depth).run parser source place) store (ended, after)

/-- A script, performed in a store, ends so. -/
def Action.Ends {α : Type} (action : Action α) (store : Store) (ended : Except Raised α)
    (after : Store) : Prop :=
  Eval.Eventually (fun depth => (Engine.upTo depth).perform action) store (ended, after)

/-- A script that makes a parser, as one that makes an object. -/
def Action.object (action : Action Parser) : Action (Object Parser) :=
  action.bind fun parser => .done (.parser parser)

/-- A parser, then the one that a script makes for its value. -/
def Parser.into (of : Parser) (make : Value → Action Parser) : Parser :=
  .chain of fun value => (make value).object

/-! ## Going on from a result -/

namespace Engine

variable {m : Type → Type} [Monad m]

/-- From a match, go on; a failure is passed on. -/
def goOn (next : Position → Value → m Result) : Result → m Result
  | .matched stop value => next stop value
  | .failed failure => pure (.failed failure)

/-- From a failure, go on; a match is passed on. -/
def goElse (next : Failure → m Result) : Result → m Result
  | .matched stop value => pure (.matched stop value)
  | .failed failure => next failure

/-- From a match that moved, go on, and put its value first; else there is no value. -/
def goAgain (place : Position) (next : Position → m Result) : Result → m Result
  | .matched stop value =>
      if stop.index = place.index then pure (.matched place (.list []))
      else next stop >>= fun rest => pure (rest.mapValue (Value.consTo value))
  | .failed _ => pure (.matched place (.list []))

/-- What goes on from a match depends on matches only. -/
theorem goOn_congr (first : m Result) {next next' : Position → Value → m Result}
    (h : ∀ stop value, next stop value = next' stop value) :
    first >>= goOn next = first >>= goOn next' := by
  rw [funext fun stop => funext (h stop)]

/-- Going on from a match twice is going on from it once, with more to do. -/
theorem goOn_assoc [LawfulMonad m] (first : m Result) (next last : Position → Value → m Result) :
    (first >>= goOn next) >>= goOn last
      = first >>= goOn fun stop value => next stop value >>= goOn last := by
  rw [bind_assoc]
  refine bind_congr fun result => ?_
  cases result with
  | matched stop value => rfl
  | failed failure => exact pure_bind _ _

/-- After a result that does not move, there is no value. -/
theorem goAgain_of_rests {place : Position} {result : Result} (h : result.Rests place)
    (next : Position → m Result) :
    goAgain place next result = pure (.matched place (.list [])) := by
  cases result with
  | matched stop value => exact if_pos (h stop value rfl)
  | failed failure => rfl

variable [MonadLiftT Eval m] {engine : Engine m} {source : Source} {place : Position}
  {p first second : Parser}

theorem step_or : engine.step (.or first second) source place
    = engine.run first source place >>= goElse fun failure =>
        engine.run second source place >>= fun other => pure (failure.orResult other) := by
  refine bind_congr fun result => ?_
  cases result with
  | matched stop value => rfl
  | failed failure => exact bind_congr fun result => by cases result <;> rfl

theorem step_many0 : engine.step (.many0 p) source place
    = engine.run p source place >>= goAgain place fun stop => engine.run (.many0 p) source stop :=
  bind_congr fun result => by cases result <;> rfl

theorem step_andThen {engine : Engine Eval} {fn : Value → Parser} :
    engine.step (p.andThen fn) source place
      = engine.run p source place >>= goOn fun stop value => engine.run (fn value) source stop :=
  bind_congr fun result => by cases result <;> rfl

theorem step_into {engine : Engine Eval} {make : Value → Action Parser} :
    engine.step (p.into make) source place = engine.run p source place >>=
      goOn fun stop value => engine.perform (make value) >>= fun q => engine.run q source stop := by
  refine bind_congr fun result => ?_
  cases result with
  | failed failure => rfl
  | matched stop value =>
    simp only [goOn, Action.object, perform_bind, bind_assoc]
    rfl

theorem step_mapValue {engine : Engine Eval} (fn : Value → Value) :
    engine.step (p.mapValue fn) source place
      = engine.run p source place >>= goOn fun stop value => pure (.matched stop (fn value)) :=
  bind_congr fun result => by cases result <;> rfl

theorem step_map {engine : Engine Eval} {fn : Value → Action Value} :
    engine.step (.map p fn) source place = engine.run p source place >>=
      goOn fun stop value => engine.perform (fn value) >>= fun made => pure (.matched stop made) :=
  bind_congr fun result => by cases result <;> rfl

theorem step_and {engine : Engine Eval} : engine.step (first.and second) source place
    = engine.run first source place >>= goOn fun stop value =>
        engine.run second source stop >>= goOn fun stop' value' =>
          pure (.matched stop' (.tuple [value, value'])) := by
  refine bind_congr fun result => ?_
  cases result with
  | failed failure => rfl
  | matched stop value => exact bind_congr fun result => by cases result <;> rfl

end Engine

namespace Eval

variable {store after : Store} {ended : Except Raised Result} {first : Nat → Eval Result}

/-- What only goes on from a match ends without one, or goes on. -/
theorem eventually_goOn_iff {next : Nat → Position → Value → Eval Result} (h : Rising first)
    (hnext : ∀ stop value, Rising fun depth => next depth stop value) :
    Eventually (fun depth => first depth >>= Engine.goOn (next depth)) store (ended, after) ↔
      (Eventually first store (ended, after) ∧ Unmatched ended) ∨
        ∃ stop value middle, Eventually first store (.ok (.matched stop value), middle) ∧
          Eventually (fun depth => next depth stop value) middle (ended, after) := by
  have hrising : ∀ result, Rising fun depth => Engine.goOn (next depth) result := by
    rintro (⟨stop, value⟩ | failure)
    · exact hnext stop value
    · exact .const _
  rw [eventually_bind_iff h hrising]
  constructor
  · rintro (⟨cause, hfirst, rfl⟩ | ⟨⟨stop, value⟩ | failure, middle, hfirst, hrest⟩)
    · exact .inl ⟨hfirst, unmatched_error cause⟩
    · exact .inr ⟨stop, value, middle, hfirst, hrest⟩
    · obtain ⟨rfl, rfl⟩ := eventually_pure_iff.mp hrest
      exact .inl ⟨hfirst, unmatched_failed failure⟩
  · rintro (⟨hfirst, hended⟩ | ⟨stop, value, middle, hfirst, hrest⟩)
    · rcases ended with cause | ⟨stop, value⟩ | failure
      · exact .inl ⟨cause, hfirst, rfl⟩
      · exact absurd rfl (hended stop value)
      · exact .inr ⟨_, after, hfirst, eventually_pure_iff.mpr ⟨rfl, rfl⟩⟩
    · exact .inr ⟨_, middle, hfirst, hrest⟩

/-- What applies a function to the value of a match. -/
theorem eventually_goOn_value_iff (h : Rising first) (fn : Value → Value) :
    Eventually (fun depth => first depth >>=
        Engine.goOn fun stop value => Pure.pure (.matched stop (fn value))) store (ended, after) ↔
      ∃ inner, Eventually first store (inner, after) ∧ ended = inner.map (·.mapValue fn) := by
  have hmap : (Engine.goOn fun stop value => Pure.pure (.matched stop (fn value)))
      = fun result => (Pure.pure (result.mapValue fn) : Eval Result) := by
    funext result
    cases result with
    | matched stop value => rfl
    | failed failure => rfl
  rw [hmap]
  exact eventually_map_iff h

end Eval

/-! ## Rules -/

namespace Action

open Eval Engine

variable {α β : Type} {store after : Store}

/-- A script ends in one way at most. -/
theorem Ends.unique {action : Action α} {ended ended' : Except Raised α} {after' : Store}
    (h : action.Ends store ended after) (h' : action.Ends store ended' after') :
    ended = ended' ∧ after = after' :=
  Prod.mk.inj (Eventually.unique h h')

/-- A script that is done has ended. -/
theorem ends_done_iff {result : α} {ended : Except Raised α} :
    Action.Ends (.done result) store ended after ↔ ended = .ok result ∧ after = store :=
  eventually_pure_iff

/-- Of two scripts, the second is performed where the first has ended. -/
theorem ends_bind_iff {action : Action α} {next : α → Action β} {ended : Except Raised β} :
    Action.Ends (action.bind next) store ended after ↔
      (∃ cause, action.Ends store (.error cause) after ∧ ended = .error cause) ∨
        ∃ result middle, action.Ends store (.ok result) middle ∧
          (next result).Ends middle ended after := by
  unfold Ends
  simp only [perform_bind]
  exact eventually_bind_iff (rising_perform action) fun result => rising_perform (next result)

/-- What a script that makes a parser ends with as one that makes an object. -/
theorem ends_object_iff {action : Action Parser} {ended : Except Raised (Object Parser)} :
    action.object.Ends store ended after ↔
      ∃ inner, action.Ends store inner after ∧ ended = inner.map .parser := by
  refine ends_bind_iff.trans ⟨?_, ?_⟩
  · rintro (⟨cause, hends, rfl⟩ | ⟨q, middle, hends, hdone⟩)
    · exact ⟨_, hends, rfl⟩
    · obtain ⟨rfl, rfl⟩ := ends_done_iff.mp hdone
      exact ⟨_, hends, rfl⟩
  · rintro ⟨cause | q, hends, rfl⟩
    · exact .inl ⟨cause, hends, rfl⟩
    · exact .inr ⟨q, after, hends, ends_done_iff.mpr ⟨rfl, rfl⟩⟩

end Action

namespace Parser

open Eval Engine

variable {source : Source} {place : Position} {store after : Store}
  {ended : Except Raised Result} {p first second : Parser}

/-- A parser ends so if it does at some depth. -/
theorem ends_iff_exists : p.Ends source place store ended after ↔
    ∃ depth, ((upTo depth).run p source place).on store = some (ended, after) :=
  ⟨Eventually.exists_on, fun ⟨_, hon⟩ => (rising_run p source place).eventually hon⟩

/-- A parser ends in one way at most. -/
theorem Ends.unique (h : p.Ends source place store ended after) {ended' : Except Raised Result}
    {after' : Store} (h' : p.Ends source place store ended' after') :
    ended = ended' ∧ after = after' :=
  Prod.mk.inj (Eventually.unique h h')

/-- A parser ends as its step does. -/
theorem ends_iff_of_step {family : Nat → Eval Result}
    (hstep : ∀ depth, (upTo depth).step p source place = family depth) :
    p.Ends source place store ended after ↔ Eventually family store (ended, after) := by
  obtain rfl : (fun depth => (upTo depth).step p source place) = family := funext hstep
  refine ⟨fun h => ?_, fun h => Eventually.succ h⟩
  obtain ⟨depth, hon⟩ := h.exists_on
  -- a run at some depth is a step one level further down, and at depth zero there is none
  cases depth with
  | zero => cases hon
  | succ depth => exact (rising_step p source place).eventually hon

/-- What only goes on from a match of another parser ends without one, or goes on. -/
theorem ends_iff_goOn {next : Nat → Position → Value → Eval Result}
    (hstep : ∀ depth, (upTo depth).step p source place
      = (upTo depth).run first source place >>= goOn (next depth))
    (hnext : ∀ stop value, Rising fun depth => next depth stop value) :
    p.Ends source place store ended after ↔
      (first.Ends source place store ended after ∧ Unmatched ended) ∨
        ∃ stop value middle, first.Ends source place store (.ok (.matched stop value)) middle ∧
          Eventually (fun depth => next depth stop value) middle (ended, after) :=
  (ends_iff_of_step hstep).trans (eventually_goOn_iff (rising_run first source place) hnext)

/-- A value is given at once. -/
theorem ends_ok_iff {value : Value} : (Parser.ok value).Ends source place store ended after ↔
    ended = .ok (.matched place value) ∧ after = store :=
  (ends_iff_of_step fun _ => rfl).trans eventually_pure_iff

/-- A plain function is applied to the value of a match. -/
theorem ends_mapValue_iff (fn : Value → Value) :
    (p.mapValue fn).Ends source place store ended after ↔
      ∃ inner, p.Ends source place store inner after ∧ ended = inner.map (·.mapValue fn) :=
  (ends_iff_of_step fun _ => step_mapValue fn).trans
    (eventually_goOn_value_iff (rising_run p source place) fn)

/-- A function is applied to the value of a match, in the store that the match left. -/
theorem ends_map_iff {fn : Value → Action Value} :
    (Parser.map p fn).Ends source place store ended after ↔
      (p.Ends source place store ended after ∧ Unmatched ended) ∨
        ∃ stop value middle, p.Ends source place store (.ok (.matched stop value)) middle ∧
          ∃ made, (fn value).Ends middle made after ∧ ended = made.map (.matched stop) := by
  rw [ends_iff_goOn (fun _ => step_map) fun stop value =>
    (rising_perform (fn value)).bind fun _ => .const _]
  refine or_congr_right <| exists_congr fun stop => exists_congr fun value =>
    exists_congr fun middle => and_congr_right fun _ => ?_
  exact eventually_map_iff (rising_perform (fn value))

/-- Of two parsers in sequence, the second starts where the first has stopped. -/
theorem ends_and_iff : (first.and second).Ends source place store ended after ↔
    (first.Ends source place store ended after ∧ Unmatched ended) ∨
      ∃ stop value middle, first.Ends source place store (.ok (.matched stop value)) middle ∧
        ∃ other, second.Ends source stop middle other after ∧
          ended = other.map (·.mapValue fun value' => .tuple [value, value']) := by
  rw [ends_iff_goOn (fun _ => step_and) fun stop value =>
    (rising_run second source stop).bind fun _ => .const _]
  refine or_congr_right <| exists_congr fun stop => exists_congr fun value =>
    exists_congr fun middle => and_congr_right fun _ => ?_
  exact eventually_goOn_value_iff (rising_run second source stop) _

/-- Of two parsers in sequence, the second may be the only one whose value is kept. -/
theorem ends_next_iff : (first.next second).Ends source place store ended after ↔
    (first.Ends source place store ended after ∧ Unmatched ended) ∨
      ∃ stop value middle, first.Ends source place store (.ok (.matched stop value)) middle ∧
        second.Ends source stop middle ended after := by
  have hitem : ∀ (value : Value) (other : Except Raised Result),
      (other.map (·.mapValue fun value' => .tuple [value, value'])).map
        (·.mapValue (Value.item 1)) = other := by
    rintro value (cause | ⟨stop, value'⟩ | failure)
    · rfl
    · rfl
    · rfl
  refine (ends_mapValue_iff _).trans ⟨?_, ?_⟩
  · rintro ⟨inner, hinner, rfl⟩
    rcases ends_and_iff.mp hinner with
      ⟨hfirst, hended⟩ | ⟨stop, value, middle, hfirst, other, hsecond, rfl⟩
    · rw [hended.map_mapValue]
      exact .inl ⟨hfirst, hended⟩
    · rw [hitem]
      exact .inr ⟨stop, value, middle, hfirst, hsecond⟩
  · rintro (⟨hfirst, hended⟩ | ⟨stop, value, middle, hfirst, hsecond⟩)
    · exact ⟨ended, ends_and_iff.mpr (.inl ⟨hfirst, hended⟩), (hended.map_mapValue _).symm⟩
    · exact ⟨_, ends_and_iff.mpr (.inr ⟨stop, value, middle, hfirst, ended, hsecond, rfl⟩),
        (hitem value ended).symm⟩

/-- A parser is run, then the one that a plain function gives for its value. -/
theorem ends_andThen_iff {fn : Value → Parser} :
    (p.andThen fn).Ends source place store ended after ↔
      (p.Ends source place store ended after ∧ Unmatched ended) ∨
        ∃ stop value middle, p.Ends source place store (.ok (.matched stop value)) middle ∧
          (fn value).Ends source stop middle ended after :=
  ends_iff_goOn (fun _ => step_andThen) fun stop value => rising_run (fn value) source stop

/-- A parser is run, then the one that a script makes for its value. -/
theorem ends_into_iff {make : Value → Action Parser} :
    (p.into make).Ends source place store ended after ↔
      (p.Ends source place store ended after ∧ Unmatched ended) ∨
        ∃ stop value middle, p.Ends source place store (.ok (.matched stop value)) middle ∧
          ((∃ cause, (make value).Ends middle (.error cause) after ∧ ended = .error cause) ∨
            ∃ q made, (make value).Ends middle (.ok q) made ∧
              q.Ends source stop made ended after) := by
  rw [ends_iff_goOn (fun _ => step_into) fun stop value =>
    (rising_perform (make value)).bind fun q => rising_run q source stop]
  refine or_congr_right <| exists_congr fun stop => exists_congr fun value =>
    exists_congr fun middle => and_congr_right fun _ => ?_
  exact eventually_bind_iff (rising_perform (make value)) fun q => rising_run q source stop

/-- The value of a parser stands before the values of the list that comes after it. -/
theorem ends_consFrom_iff : (first.consFrom second).Ends source place store ended after ↔
    (first.Ends source place store ended after ∧ Unmatched ended) ∨
      ∃ stop value middle, first.Ends source place store (.ok (.matched stop value)) middle ∧
        ∃ rest, second.Ends source stop middle rest after ∧
          ended = rest.map (·.mapValue (Value.consTo value)) := by
  refine ends_andThen_iff.trans <| or_congr_right <| exists_congr fun stop =>
    exists_congr fun value => exists_congr fun middle => and_congr_right fun _ => ?_
  exact ends_mapValue_iff _

/-- Of two alternatives, the second is run where the first has failed, from the same place. -/
theorem ends_or_iff : (Parser.or first second).Ends source place store ended after ↔
    (first.Ends source place store ended after ∧ Unfailed ended) ∨
      ∃ failure middle, first.Ends source place store (.ok (.failed failure)) middle ∧
        ∃ other, second.Ends source place middle other after ∧
          ended = other.map failure.orResult := by
  rw [ends_iff_of_step fun _ => step_or, eventually_bind_iff (rising_run first source place)]
  · constructor
    · rintro (⟨cause, hfirst, rfl⟩ | ⟨⟨stop, value⟩ | failure, middle, hfirst, hrest⟩)
      · exact .inl ⟨hfirst, unfailed_error cause⟩
      · obtain ⟨rfl, rfl⟩ := eventually_pure_iff.mp hrest
        exact .inl ⟨hfirst, unfailed_matched stop value⟩
      · exact .inr ⟨failure, middle, hfirst,
          (eventually_map_iff (rising_run second source place)).mp hrest⟩
    · rintro (⟨hfirst, hended⟩ | ⟨failure, middle, hfirst, hrest⟩)
      · rcases ended with cause | ⟨stop, value⟩ | failure
        · exact .inl ⟨cause, hfirst, rfl⟩
        · exact .inr ⟨_, after, hfirst, eventually_pure_iff.mpr ⟨rfl, rfl⟩⟩
        · exact absurd rfl (hended failure)
      · exact .inr ⟨_, middle, hfirst,
          (eventually_map_iff (rising_run second source place)).mpr hrest⟩
  · rintro (⟨stop, value⟩ | failure)
    · exact .const _
    · exact (rising_run second source place).bind fun _ => .const _

/-- A parser is repeated from where it has stopped, until it fails or matches without moving. -/
theorem ends_many0_iff : (Parser.many0 p).Ends source place store ended after ↔
    (∃ cause, p.Ends source place store (.error cause) after ∧ ended = .error cause) ∨
    (∃ result, p.Ends source place store (.ok result) after ∧ result.Rests place ∧
      ended = .ok (.matched place (.list []))) ∨
    ∃ stop value middle, p.Ends source place store (.ok (.matched stop value)) middle ∧
      stop.index ≠ place.index ∧
      ∃ rest, (Parser.many0 p).Ends source stop middle rest after ∧
        ended = rest.map (·.mapValue (Value.consTo value)) := by
  rw [ends_iff_of_step fun _ => step_many0, eventually_bind_iff (rising_run p source place)]
  · refine or_congr_right ⟨?_, ?_⟩
    · rintro ⟨result, middle, hfirst, hrest⟩
      -- a failure and a match that has not moved both end it
      by_cases hstill : result.Rests place
      · simp only [goAgain_of_rests hstill, eventually_pure_iff] at hrest
        obtain ⟨rfl, rfl⟩ := hrest
        exact .inl ⟨result, hfirst, hstill, rfl⟩
      · obtain ⟨stop, value, rfl, hmoved⟩ := exists_of_not_rests hstill
        simp only [goAgain, if_neg hmoved] at hrest
        exact .inr ⟨stop, value, middle, hfirst, hmoved,
          (eventually_map_iff (rising_run _ source stop)).mp hrest⟩
    · rintro (⟨result, hfirst, hstill, rfl⟩ | ⟨stop, value, middle, hfirst, hmoved, hrest⟩)
      · refine ⟨result, after, hfirst, ?_⟩
        simp only [goAgain_of_rests hstill, eventually_pure_iff, and_self]
      · refine ⟨_, middle, hfirst, ?_⟩
        simp only [goAgain, if_neg hmoved]
        exact (eventually_map_iff (rising_run _ source stop)).mpr hrest
  · intro result
    by_cases hstill : result.Rests place
    · simp only [goAgain_of_rests hstill]
      exact .const _
    · obtain ⟨stop, value, rfl, hmoved⟩ := exists_of_not_rests hstill
      simp only [goAgain, if_neg hmoved]
      exact (rising_run _ source stop).bind fun _ => .const _

end Parser

end Descent
