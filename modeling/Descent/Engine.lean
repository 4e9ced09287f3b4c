import Descent.Eval
import Descent.Parser.Combinators

/-! # Running parsers

* **`Engine`** — a way to run parsers and to have lazy parsers made.
* **`Engine.perform`** — a script, performed with an engine for the parsers that it runs.
* **`Engine.step`** — a parser, run with an engine for the parsers that it is made of.
* **`Engine.assemble`** — a lazy parser, made with an engine for what its script asks for.
* **`Engine.upTo`** — the engine that may go so many levels deep, and gives no answer beyond.

A parser has a result in a store if an engine of some depth gives it; deeper engines then give the
same. A lazy parser that is made while it is being made is made twice, and the outer one is kept. -/

namespace Descent

/-- A way to run parsers and to have lazy parsers made, in a monad `m`. -/
structure Engine (m : Type → Type) where
  /-- The result of a parser on a source from a place. -/
  run : Parser → Source → Position → m Result
  /-- The parser of a lazy parser. -/
  build : CellId → m Parser

namespace Engine

section Steps

-- what an engine does by itself are computations on the store, whatever else `m` keeps track of
variable {m : Type → Type} [Monad m] [MonadLiftT Eval m]

/-! ## Scripts -/

/-- Perform a script. -/
@[specialize] def perform {α : Type} (engine : Engine m) : Action α → m α
  | .done result => pure result
  | .raise cause => liftM (Eval.raise cause : Eval α)
  | .note event next => do
      Eval.update (·.note event)
      perform engine next
  | .run parser source start next => do
      let result ← engine.run parser source start
      perform engine (next result)
  | .build cell next => do
      let _ ← engine.build cell
      perform engine next
  | .defer language name make next => do
      let cell ← Eval.draw (·.addCell language name make)
      perform engine (next cell)
  | .inspect cell next => do
      let found ← Eval.read (·.cellAt cell)
      perform engine (next found.state found.shown)
  | .lookUp language name next => do
      let found ← Eval.consult (·.lookUp language name)
      perform engine (next found)
  | .rule language name next => do
      let cell ← Eval.consult (·.getRule language name)
      perform engine (next cell)
  | .create className arguments rules next => do
      let language ← Eval.attempt (·.create className arguments rules)
      perform engine (next language)
  | .fetch name next => do
      let found ← Eval.consult (·.fetch name)
      perform engine (next found)
  | .count counter next => do
      let before ← Eval.draw (·.count counter)
      perform engine (next before)

/-! ## Primitives -/

/-- The result of looking for a text. -/
def textResult (literal : String) (source : Source) (place : Position) : Result :=
  if source.standsAt literal.toList place.index then
    .matched (place.advance literal.toList) (.str literal)
  else .failed ⟨place, [.str literal]⟩

/-- One more than the greatest number that an index can be. -/
def indexBound : Int := 9223372036854775808

/-- Whether a regular expression can be matched at an index: it lies in the source, or at least
within the numbers that an index can be. -/
def isAddressable (source : Source) (index : Int) : Bool :=
  (0 ≤ index && index ≤ source.length) || (-indexBound ≤ index && index < indexBound)

/-- Every index in a source can be matched at. -/
theorem isAddressable_of_le {source : Source} {index : Nat} (h : index ≤ source.length) :
    isAddressable source index = true := by
  simp [isAddressable, h]

/-- The result of matching a regular expression. -/
def patternResult (regex : Regex) (source : Source) (place : Position) : Except Raised Result :=
  if isAddressable source place.index then
    match regex.matchAt? source place.index with
    | some found => .ok (.matched (place.advance found) (.str (String.ofList found)))
    | none => .ok (.failed ⟨place, [.str regex.label]⟩)
  else .error .placeTooLarge

/-- The label of the end of the source. -/
def endLabel : Value := .str "end of input"

/-- The result of looking for the end of the source. -/
def eofResult (source : Source) (place : Position) : Result :=
  if source.length ≤ place.index then .matched place .nothing else .failed ⟨place, [endLabel]⟩

/-! ## Combinators -/

/-- Run each of some parsers where the one before stopped. `values` are the values so far, the last
one first. -/
@[specialize] def sequence (engine : Engine m) (source : Source) :
    List Parser → List Value → Position → m Result
  | [], values, place => pure (.matched place (.tuple values.reverse))
  | parser :: parsers, values, place => do
      match (← engine.run parser source place) with
      | .failed failure => return .failed failure
      | .matched stop value => sequence engine source parsers (value :: values) stop

omit [MonadLiftT Eval m] in
@[simp] theorem sequence_nil (engine : Engine m) (source : Source) (values : List Value)
    (place : Position) :
    sequence engine source [] values place = pure (.matched place (.tuple values.reverse)) := rfl

/-- A result with its labels replaced if it is a failure at the place where the parser started. -/
def relabel (labels : Labels) (start : Position) : Result → Result
  | .matched stop value => .matched stop value
  | .failed failure =>
      if failure.place.index = start.index then .failed ⟨failure.place, labels.toList⟩
      else .failed failure

/-- Run a parser, with the engine for the parsers that it is made of. -/
@[specialize] def step (engine : Engine m) : Parser → Source → Position → m Result
  | .text literal, source, place => pure (textResult literal source place)
  | .pattern regex, source, place => liftM (Eval.consult fun _ => patternResult regex source place)
  | .ok value, _, place => pure (.matched place value)
  | .fail labels, _, place => pure (.failed ⟨place, labels.toList⟩)
  | .eof, source, place => pure (eofResult source place)
  | .location, _, place => pure (.matched place (.position place))
  | .seq parsers, source, place => sequence engine source parsers [] place
  | .or first second, source, place => do
      match (← engine.run first source place) with
      | .matched stop value => return .matched stop value
      | .failed failure =>
          -- the second alternative starts where the first one did, not where that got stuck
          match (← engine.run second source place) with
          | .matched stop value => return .matched stop value
          | .failed other => return .failed (failure.merge other)
  | .map of fn, source, place => do
      match (← engine.run of source place) with
      | .failed failure => return .failed failure
      | .matched stop value => return .matched stop (← engine.perform (fn value))
  | .chain of fn, source, place => do
      match (← engine.run of source place) with
      | .failed failure => return .failed failure
      | .matched stop value =>
          match (← engine.perform (fn value)) with
          | .parser parser => engine.run parser source stop
          | other => do
              let shown ← Eval.consult (·.shownObject other)
              liftM (Eval.raise (.chainedNonParser shown) : Eval Result)
  | .many0 of, source, place => do
      match (← engine.run of source place) with
      | .failed _ => return .matched place (.list [])
      | .matched stop value =>
          -- a match that moves nothing would come again for ever; its value is dropped
          if stop.index = place.index then return .matched place (.list [])
          else return (← engine.run (.many0 of) source stop).mapValue (Value.consTo value)
  | .desc of labels, source, place => do
      return relabel labels place (← engine.run of source place)
  | .lazy cell, source, place => do
      let parser ← engine.build cell
      engine.run parser source place
  | .kept number, source, place => do
      let parser ← Eval.read (·.kept.getD number default)
      engine.run parser source place
  | .custom action, source, place => engine.perform (action source place)

end Steps

/-! ## Lazy parsers -/

/-- What becomes of a lazy parser when its script has ended. -/
def settle (cell : CellId) (name : String) : Except Raised (Object Parser) × Store →
    Except Raised Parser × Store
  | (.ok (.parser parser), store) =>
      (.ok parser, (store.setParser cell parser).log (.ready name))
  | (.ok other, store) =>
      -- a table in the message shows this lazy parser as unbuilt again
      let store := store.setState cell .unbuilt
      match store.shownObject other with
      | .ok shown => (.error (.builtNonParser name shown), store)
      | .error cause => (.error cause, store)
  | (.error cause, store) => (.error cause, store.setState cell .unbuilt)

@[simp] theorem settle_made (cell : CellId) (name : String) (parser : Parser) (store : Store) :
    settle cell name (.ok (.parser parser), store)
      = (.ok parser, (store.setParser cell parser).log (.ready name)) := rfl

/-- Without a parser, a lazy parser is unbuilt again. -/
theorem settle_of_ne (cell : CellId) (name : String) {ended : Except Raised (Object Parser)}
    (h : ∀ parser, ended ≠ .ok (.parser parser)) (store : Store) :
    ∃ cause, settle cell name (ended, store) = (.error cause, store.setState cell .unbuilt) := by
  rcases ended with cause | object
  · exact ⟨cause, rfl⟩
  · cases object with
    | parser p => exact absurd rfl (h p)
    | value | table | other =>
      unfold settle
      simp only
      split
      · exact ⟨_, rfl⟩
      · exact ⟨_, rfl⟩

/-- The parser of a lazy parser: the one that is there, or else the one that its script makes. -/
def assemble (engine : Engine Eval) (cell : CellId) : Eval Parser :=
  ⟨fun store =>
    match store.cell? cell with
    | none => none
    -- made before, and never made again
    | some ⟨_, _, _, some parser⟩ => some (.ok parser, store)
    -- the stage is `building` already if the script of this lazy parser runs the lazy parser itself
    | some ⟨name, state, make, none⟩ =>
        let started := (store.log (.building name state)).setState cell .building
        ((engine.perform make.action).on started).map (settle cell name)⟩

section Assemble

variable {engine : Engine Eval} {cell : CellId} {store : Store} {name : String} {state : RuleState}
  {make : Maker}

/-- What is no lazy parser is not made. -/
theorem assemble_of_none (h : store.cell? cell = none) :
    (engine.assemble cell).on store = none := by
  simp only [assemble, h]

/-- A lazy parser that has been made is not made again. -/
theorem assemble_of_made {parser : Parser}
    (h : store.cell? cell = some ⟨name, state, make, some parser⟩) :
    (engine.assemble cell).on store = some (.ok parser, store) := by
  simp only [assemble, h]

/-- Any other lazy parser is what becomes of its script. -/
theorem assemble_of_unmade (h : store.cell? cell = some ⟨name, state, make, none⟩) :
    (engine.assemble cell).on store = ((engine.perform make.action).on
      ((store.log (.building name state)).setState cell .building)).map (settle cell name) := by
  simp only [assemble, h]

end Assemble

/-! ## Depth -/

/-- The engine that gives no answers. -/
def silent : Engine Eval := ⟨fun _ _ _ => Eval.diverge, fun _ => Eval.diverge⟩

/-- The engine that may go so many levels deep. -/
def upTo : Nat → Engine Eval
  | 0 => silent
  | depth + 1 =>
      ⟨fun parser source place => (upTo depth).step parser source place,
        fun cell => (upTo depth).assemble cell⟩

/-- The depth at which a run is given up; no stack holds that many levels. -/
def deepest : Nat := 1000000000

/-- The engine for all runs that end in practice. -/
def deep : Engine Eval := upTo deepest

@[simp] theorem upTo_zero : upTo 0 = silent := rfl

@[simp] theorem upTo_succ_run (depth : Nat) : (upTo (depth + 1)).run = (upTo depth).step := rfl

@[simp] theorem upTo_succ_build (depth : Nat) :
    (upTo (depth + 1)).build = (upTo depth).assemble := rfl

end Engine

end Descent
