import Descent.Parse

/-! # The journal of lazy parsers

The store shows what a lazy parser holds, but not how it came to hold it. A watched computation does
the same as a computation on the store and keeps a journal besides, in which every call of a lazy
parser's function and every ending of `build` is written down, the innermost first.

* **`Entry`** — what happens to a lazy parser.
* **`Watch`** — computations of which a journal is kept, also of those that give no answer.
* **`Watch.assemble`** — making a lazy parser, with the entries for it.
* **`Operation`** — what can be done with parsers from outside: run them, have them made, perform a
  script.
* **`history`** — the journal of operations one after another.
* **`WriteOnce`** — a journal in which a lazy parser is written once and never made again. -/

namespace Descent

/-- What happens to a lazy parser. -/
inductive Entry : Type where
  /-- Its function is called. -/
  | called (cell : CellId)
  /-- Its function has ended with a parser, which is stored and returned. -/
  | made (cell : CellId) (parser : Parser)
  /-- Its function has ended with an error, or with what is no parser. -/
  | failed (cell : CellId)
  /-- It was to be made, and the parser that is stored was returned. -/
  | reused (cell : CellId) (parser : Parser)

namespace Entry

/-- The lazy parser of an entry. -/
def cell : Entry → CellId
  | .called cell => cell
  | .made cell _ => cell
  | .failed cell => cell
  | .reused cell _ => cell

/-- A call of `build` returns a parser. -/
inductive Returns (cell : CellId) (parser : Parser) : Entry → Prop where
  /-- The parser has just been made. -/
  | made : Returns cell parser (.made cell parser)
  /-- The parser was there. -/
  | reused : Returns cell parser (.reused cell parser)

/-- Whether the function of a lazy parser is called. -/
def isCall (cell : CellId) : Entry → Bool
  | .called other => other = cell
  | _ => false

/-- Whether a call of the function of a lazy parser has ended with a parser. -/
def isMade (cell : CellId) : Entry → Bool
  | .made other _ => other = cell
  | _ => false

/-- Whether a call of the function of a lazy parser has ended, in whatever way. -/
def isEnd (cell : CellId) : Entry → Bool
  | .made other _ => other = cell
  | .failed other => other = cell
  | _ => false

end Entry

/-- How many calls of the function of a lazy parser are in progress when a journal has got so
far. -/
def callsIn (cell : CellId) (journal : List Entry) : Nat :=
  journal.countP (Entry.isCall cell) - journal.countP (Entry.isEnd cell)

/-- Once `build` of a lazy parser has returned a parser, it returns the same one ever after, and the
function of the lazy parser is not called again. Two parsers that are put together in the same way
need not be one object: when a function ends with a parser, `same` says whether that is the object
that was returned before. -/
def WriteOnce (same : Parser → Parser → Prop) (cell : CellId) (journal : List Entry) : Prop :=
  ∀ first entry rest parser, journal = first ++ entry :: rest → entry.Returns cell parser →
    .called cell ∉ rest ∧
      (∀ other, .made cell other ∈ rest → other = parser ∧ same other parser) ∧
      ∀ other, .reused cell other ∈ rest → other = parser

/-! ## Watched computations -/

/-- A computation on a store of which a journal is kept. -/
structure Watch (α : Type) : Type where
  /-- What the computation ends with, if it gives an answer, and what happened up to there. -/
  on : Store → Option (Except Raised α × Store) × List Entry

namespace Watch

variable {α β : Type}

/-- End with a result; nothing happens. -/
def pure (result : α) : Watch α := ⟨fun store => (some (.ok result, store), [])⟩

/-- One computation, then another that depends on the result. -/
def bind (first : Watch α) (next : α → Watch β) : Watch β :=
  ⟨fun store =>
    match first.on store with
    | (none, journal) => (none, journal)
    | (some (.ok result, store), journal) =>
        let rest := (next result).on store
        (rest.1, journal ++ rest.2)
    | (some (.error cause, store), journal) => (some (.error cause, store), journal)⟩

instance : Monad Watch where
  pure := pure
  bind := bind

/-- A computation in which nothing happens to a lazy parser. -/
def quiet (computation : Eval α) : Watch α := ⟨fun store => (computation.on store, [])⟩

instance : MonadLift Eval Watch := ⟨quiet⟩

@[simp] theorem pure_on (result : α) (store : Store) :
    (Pure.pure result : Watch α).on store = (some (.ok result, store), []) := rfl

@[simp] theorem quiet_on (computation : Eval α) (store : Store) :
    (liftM computation : Watch α).on store = (computation.on store, []) := rfl

theorem bind_on (first : Watch α) (next : α → Watch β) (store : Store) :
    (first >>= next).on store =
      match first.on store with
      | (none, journal) => (none, journal)
      | (some (.ok result, store), journal) =>
          (((next result).on store).1, journal ++ ((next result).on store).2)
      | (some (.error cause, store), journal) => (some (.error cause, store), journal) := rfl

/-! ## Engines -/

/-- The entry for the end of a lazy parser's function, if it ends. -/
def ending (cell : CellId) : Option (Except Raised (Object Parser) × Store) → List Entry
  | none => []
  | some (.ok (.parser parser), _) => [.made cell parser]
  | some _ => [.failed cell]

/-- The parser of a lazy parser, with the entries for what happens to it. -/
def assemble (engine : Engine Watch) (cell : CellId) : Watch Parser :=
  ⟨fun store =>
    match store.cell? cell with
    | none => (none, [])
    | some ⟨_, _, _, some parser⟩ => (some (.ok parser, store), [.reused cell parser])
    | some ⟨name, state, make, none⟩ =>
        let started := (store.log (.building name state)).setState cell .building
        let made := (engine.perform make.action).on started
        (made.1.map (Engine.settle cell name), .called cell :: (made.2 ++ ending cell made.1))⟩

section Assemble

variable {engine : Engine Watch} {cell : CellId} {store : Store} {name : String}
  {state : RuleState} {make : Maker}

/-- To what is no lazy parser, nothing happens. -/
theorem assemble_of_none (h : store.cell? cell = none) :
    (assemble engine cell).on store = (none, []) := by
  simp only [assemble, h]

/-- The parser of a lazy parser that has been made is used again. -/
theorem assemble_of_made {parser : Parser}
    (h : store.cell? cell = some ⟨name, state, make, some parser⟩) :
    (assemble engine cell).on store = (some (.ok parser, store), [.reused cell parser]) := by
  simp only [assemble, h]

/-- The function of any other lazy parser is called, and ends or does not end. -/
theorem assemble_of_unmade (h : store.cell? cell = some ⟨name, state, make, none⟩) :
    (assemble engine cell).on store =
      let made := (engine.perform make.action).on
        ((store.log (.building name state)).setState cell .building)
      (made.1.map (Engine.settle cell name), .called cell :: (made.2 ++ ending cell made.1)) := by
  simp only [assemble, h]

end Assemble

/-- The engine that may go so many levels deep and keeps a journal. -/
def upTo : Nat → Engine Watch
  | 0 => ⟨fun _ _ _ => quiet Eval.diverge, fun _ => quiet Eval.diverge⟩
  | depth + 1 => ⟨(upTo depth).step, assemble (upTo depth)⟩

@[simp] theorem upTo_succ_run (depth : Nat) : (upTo (depth + 1)).run = (upTo depth).step := rfl

@[simp] theorem upTo_succ_build (depth : Nat) :
    (upTo (depth + 1)).build = assemble (upTo depth) := rfl

end Watch

/-! ## Operations -/

/-- What can be done with parsers from outside. -/
inductive Operation : Type where
  /-- Run a parser on a source from a place. -/
  | run (parser : Parser) (source : Source) (start : Position)
  /-- Run a parser on a source from its start. -/
  | parse (root : Parser) (source : Source)
  /-- Parse all of a source. -/
  | tryParse (root : Parser) (source : Source)
  /-- Have a lazy parser made. -/
  | build (cell : CellId)
  /-- Perform a script, which may do any of this and more. -/
  | perform (action : Action (Object Parser))

/-- Do something and forget what it ends with. -/
def Operation.apply {m : Type → Type} [Monad m] [MonadLiftT Eval m] (engine : Engine m) :
    Operation → m Unit
  | .run parser source start => do let _ ← engine.run parser source start
  | .parse root source => do let _ ← engine.parse root source
  | .tryParse root source => do let _ ← engine.tryParse root source
  | .build cell => do let _ ← engine.build cell
  | .perform action => do let _ ← engine.perform action

/-- The journal of operations one after another. One that ends with an error leaves what it did so
far, and the next one goes on from there; one that gives no answer is the last. -/
def history (engine : Engine Watch) : List Operation → Store → List Entry
  | [], _ => []
  | operation :: rest, store =>
      let done := (operation.apply engine).on store
      match done.1 with
      | none => done.2
      | some (_, after) => done.2 ++ history engine rest after

end Descent
