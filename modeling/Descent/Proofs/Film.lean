import Descent.Hierarchy
import Descent.Proofs.Journal

/-! # Films of runs

A computation passes through many stores before it ends, and the functions of a grammar can look at
any of them. The film of a computation shows them all, one after another, together with every parser
that is run and with every entry of the journal.

* **`Scene`** — something that happened, and the store that it left.
* **`Film`** — computations of which a film is made, also of those that give no answer.
* **`Film.upTo`** — the engines that make films.
* **`Deed`** — what can be done in a session.
* **`Film.ofSession`** — the film of a session, from its first store on. -/

namespace Descent

/-- What can happen in a run. -/
inductive Happening : Type where
  /-- Something in which no parser is run or made. -/
  | quiet
  /-- Something that happens to a lazy parser. -/
  | entry (entry : Entry)
  /-- A parser has been run on a source from a place, with this result. -/
  | ran (parser : Parser) (source : Source) (start : Position) (result : Result)

/-- Something that happened, and the store that it left. -/
structure Scene where
  /-- What happened. -/
  happening : Happening
  /-- The store afterwards. -/
  store : Store

namespace Scene

/-- What happened to a lazy parser in a scene. -/
def recorded? (scene : Scene) : Option Entry :=
  match scene.happening with
  | .entry entry => some entry
  | _ => none

/-- The journal of some scenes. -/
def journal (scenes : List Scene) : List Entry := scenes.filterMap recorded?

@[simp] theorem journal_nil : journal [] = [] := rfl

theorem journal_cons (scene : Scene) (rest : List Scene) :
    journal (scene :: rest) = scene.recorded?.toList ++ journal rest := by
  unfold journal
  cases h : scene.recorded? with
  | none => exact List.filterMap_cons_none h
  | some entry => exact List.filterMap_cons_some h

@[simp] theorem journal_append (first second : List Scene) :
    journal (first ++ second) = journal first ++ journal second := List.filterMap_append

end Scene

/-- A computation on a store of which a film is made. -/
structure Film (α : Type) where
  /-- What the computation ends with, if it gives an answer, and the scenes up to there. -/
  on : Store → Option (Except Raised α × Store) × List Scene

namespace Film

variable {α β : Type}

/-- End with a result; nothing happens. -/
def pure (result : α) : Film α := ⟨fun store => (some (.ok result, store), [])⟩

/-- One computation, then another that depends on the result. -/
def bind (first : Film α) (next : α → Film β) : Film β :=
  ⟨fun store =>
    match first.on store with
    | (none, scenes) => (none, scenes)
    | (some (.ok result, store), scenes) =>
        let rest := (next result).on store
        (rest.1, scenes ++ rest.2)
    | (some (.error cause, store), scenes) => (some (.error cause, store), scenes)⟩

instance : Monad Film where
  pure := pure
  bind := bind

/-- The scene of a computation in which no parser is run or made. -/
def still (ended : Option (Except Raised α × Store)) : List Scene :=
  match ended with
  | none => []
  | some (_, after) => [⟨.quiet, after⟩]

/-- A computation in which no parser is run or made. -/
def quiet (computation : Eval α) : Film α :=
  ⟨fun store => (computation.on store, still (computation.on store))⟩

instance : MonadLift Eval Film := ⟨quiet⟩

@[simp] theorem pure_on (result : α) (store : Store) :
    (Pure.pure result : Film α).on store = (some (.ok result, store), []) := rfl

@[simp] theorem quiet_on (computation : Eval α) (store : Store) :
    (liftM computation : Film α).on store = (computation.on store, still (computation.on store)) :=
  rfl

theorem bind_on (first : Film α) (next : α → Film β) (store : Store) :
    (first >>= next).on store =
      match first.on store with
      | (none, scenes) => (none, scenes)
      | (some (.ok result, store), scenes) =>
          (((next result).on store).1, scenes ++ ((next result).on store).2)
      | (some (.error cause, store), scenes) => (some (.error cause, store), scenes) := rfl

/-! ## Engines -/

/-- The entry for the end of a lazy parser's function. -/
def ending (cell : CellId) : Except Raised (Object Parser) → Entry
  | .ok (.parser parser) => .made cell parser
  | _ => .failed cell

@[simp] theorem cell_ending (cell : CellId) (ended : Except Raised (Object Parser)) :
    (ending cell ended).cell = cell := by
  rcases ended with cause | object
  · rfl
  · cases object with
    | parser | value | table | other => rfl

/-- Without a parser, the call has failed. -/
theorem ending_of_ne (cell : CellId) {ended : Except Raised (Object Parser)}
    (h : ∀ parser, ended ≠ .ok (.parser parser)) : ending cell ended = .failed cell := by
  rcases ended with cause | object
  · rfl
  · cases object with
    | parser p => exact absurd rfl (h p)
    | value | table | other => rfl

/-- The scene of the end of a lazy parser's function, if it ends. -/
def endings (cell : CellId) (name : String) :
    Option (Except Raised (Object Parser) × Store) → List Scene
  | none => []
  | some (ended, store) =>
      [⟨.entry (ending cell ended), (Engine.settle cell name (ended, store)).2⟩]

/-- The parser of a lazy parser, with the scenes of how it is made. -/
def assemble (engine : Engine Film) (cell : CellId) : Film Parser :=
  ⟨fun store =>
    match store.cell? cell with
    | none => (none, [])
    | some ⟨_, _, _, some parser⟩ =>
        (some (.ok parser, store), [⟨.entry (.reused cell parser), store⟩])
    | some ⟨name, state, make, none⟩ =>
        let started := (store.log (.building name state)).setState cell .building
        let made := (engine.perform make.action).on started
        (made.1.map (Engine.settle cell name),
          ⟨.entry (.called cell), started⟩ :: (made.2 ++ endings cell name made.1))⟩

section Assemble

variable {engine : Engine Film} {cell : CellId} {store : Store} {name : String}
  {state : RuleState} {make : Maker}

/-- To what is no lazy parser, nothing happens. -/
theorem assemble_of_none (h : store.cell? cell = none) :
    (assemble engine cell).on store = (none, []) := by
  simp only [assemble, h]

/-- The parser of a lazy parser that has been made is used again. -/
theorem assemble_of_made {parser : Parser}
    (h : store.cell? cell = some ⟨name, state, make, some parser⟩) :
    (assemble engine cell).on store
      = (some (.ok parser, store), [⟨.entry (.reused cell parser), store⟩]) := by
  simp only [assemble, h]

/-- The function of any other lazy parser is called, and ends or does not end. -/
theorem assemble_of_unmade (h : store.cell? cell = some ⟨name, state, make, none⟩) :
    (assemble engine cell).on store =
      let started := (store.log (.building name state)).setState cell .building
      let made := (engine.perform make.action).on started
      (made.1.map (Engine.settle cell name),
        ⟨.entry (.called cell), started⟩ :: (made.2 ++ endings cell name made.1)) := by
  simp only [assemble, h]

end Assemble

/-- The scene of the end of a parser's run, if it ends with a result. -/
def arrival (parser : Parser) (source : Source) (start : Position) :
    Option (Except Raised Result × Store) → List Scene
  | some (.ok result, after) => [⟨.ran parser source start result, after⟩]
  | _ => []

/-- A computation that is the run of a parser. -/
def asRun (parser : Parser) (source : Source) (start : Position) (computation : Film Result) :
    Film Result :=
  ⟨fun store =>
    let done := computation.on store
    (done.1, done.2 ++ arrival parser source start done.1)⟩

/-- The scene of a parser's own run comes last. -/
theorem asRun_on (parser : Parser) (source : Source) (start : Position)
    (computation : Film Result) (store : Store) :
    (asRun parser source start computation).on store
      = ((computation.on store).1,
          (computation.on store).2 ++ arrival parser source start (computation.on store).1) := rfl

/-- What is so of all that a computation did is so of it as the run of a parser, if the scene of a
result may be added. -/
theorem asRun_of {P : Option (Except Raised Result × Store) × List Scene → Prop} {parser : Parser}
    {source : Source} {start : Position} {computation : Film Result} {store : Store}
    (h : P (computation.on store))
    (hran : ∀ result after scenes, P (some (.ok result, after), scenes) →
      P (some (.ok result, after), scenes ++ [⟨.ran parser source start result, after⟩])) :
    P ((asRun parser source start computation).on store) := by
  rw [asRun_on]
  generalize computation.on store = done at h ⊢
  rcases done with ⟨_ | ⟨cause | result, after⟩, scenes⟩
  · simpa only [arrival, List.append_nil] using h
  · simpa only [arrival, List.append_nil] using h
  · exact hran result after scenes h

/-- The engine that may go so many levels deep and makes a film. -/
def upTo : Nat → Engine Film
  | 0 => ⟨fun _ _ _ => quiet Eval.diverge, fun _ => quiet Eval.diverge⟩
  | depth + 1 =>
      ⟨fun parser source place => asRun parser source place ((upTo depth).step parser source place),
        assemble (upTo depth)⟩

@[simp] theorem upTo_succ_run (depth : Nat) (parser : Parser) (source : Source)
    (place : Position) :
    (upTo (depth + 1)).run parser source place
      = asRun parser source place ((upTo depth).step parser source place) := rfl

@[simp] theorem upTo_succ_build (depth : Nat) :
    (upTo (depth + 1)).build = assemble (upTo depth) := rfl

end Film

/-! ## Sessions -/

/-- What can be done in a session. New languages and new lazy parsers are got by scripts. -/
inductive Deed : Type where
  /-- Something done with parsers. -/
  | operate (operation : Operation)
  /-- An object is put aside under a name. -/
  | shelve (name : String) (object : Object Parser)
  /-- A class is defined. -/
  | defineClass (name : String) (bases : List String) (initialises : Bool) (members : List Member)

/-- Do it, and forget what it ends with. -/
def Deed.apply {m : Type → Type} [Monad m] [MonadLiftT Eval m] (engine : Engine m) : Deed → m Unit
  | .operate operation => operation.apply engine
  | .shelve name object => liftM (Eval.update (·.shelve name object))
  | .defineClass name bases initialises members =>
      liftM <| Eval.attempt fun store =>
        (store.defineClass name bases initialises members).map fun after => ((), after)

namespace Film

/-- The scenes of deeds one after another. One that ends with an error leaves what it did so far,
and the next one goes on from there; one that gives no answer is the last. -/
def ofDeeds (engine : Engine Film) : List Deed → Store → List Scene
  | [], _ => []
  | deed :: rest, store =>
      let done := (deed.apply engine).on store
      match done.1 with
      | none => done.2
      | some (_, after) => done.2 ++ ofDeeds engine rest after

/-- The film of a session, with or without a log. -/
def ofSession (depth : Nat) (logging : Bool) (deeds : List Deed) : List Scene :=
  ⟨.quiet, Store.initial logging⟩ :: ofDeeds (upTo depth) deeds (Store.initial logging)

end Film

end Descent
