import Descent.Linearization
import Descent.Parser.Combinators
import Descent.Table
import Descent.Value.Arithmetic

/-! # The store

Parsers themselves hold no state. What changes while grammars run is kept in a store:

* **`Cell`** — a lazy parser: its name, its stage, how to make its parser, and the parser once made.
* **`Definition`**, **`Attribute`**, **`Class`** — what language classes are made of.
* **`Instance`** — a language: its class, its arguments, its rules by name, and the lazy parsers
  that belong to it.
* **`Record`** — an entry of the log.
* **`Store`** — all of these, the events of the run, the parsers put aside, and the counters.

Entries are only ever added or changed, so that their numbers stay valid. -/

namespace Descent

/-- The number of a rule definition in the store. -/
abbrev DefinitionId := Nat

/-- The number of a class in the store. -/
abbrev ClassId := Nat

/-- A lazy parser. -/
structure Cell where
  /-- What it is called. -/
  name : String
  /-- The stage it is in. -/
  state : RuleState
  /-- How to make its parser. -/
  make : Maker
  /-- Its parser, once made. -/
  parser : Option Parser
  deriving Inhabited

/-- The text of a lazy parser. -/
def Cell.shown (cell : Cell) : String := s!"<LazyParser {cell.name} ({cell.state.name})>"

/-- A lazy parser that has not been run. -/
def Cell.unbuilt (name : String) (make : Maker) : Cell := ⟨name, .unbuilt, make, none⟩

/-- How the functions of a grammar make a rule's parser for a language. -/
abbrev RuleBody := Owner → Action (Object Parser)

/-- A rule of a class. -/
structure Definition where
  /-- The name it was given last. -/
  name : String
  /-- What it is called in error messages. -/
  errorName : Option Value
  /-- How its parser is made for a language. -/
  body : RuleBody
  deriving Inhabited

/-- A parser with its failures at the starting place relabelled, and anything else as it is. -/
def Object.described (errorName : Option Value) : Object Parser → Object Parser
  | .parser p =>
      match errorName with
      | some label => .parser (p.described ⟨label, []⟩)
      | none => .parser p
  | object => object

/-- The script that makes a rule's parser for a language. -/
def Definition.action (definition : Definition) (owner : Owner) : Action (Object Parser) :=
  (definition.body owner).bind fun object => .done (object.described definition.errorName)

/-- Where a value was first made an attribute: the class and the name. -/
structure Origin where
  /-- The class. -/
  cls : ClassId
  /-- The name. -/
  name : String
  deriving DecidableEq, Inhabited, Repr

/-- What a name of a class stands for. -/
inductive Attribute : Type where
  /-- A rule. -/
  | rule (definition : DefinitionId)
  /-- A value, which is no rule. -/
  | value (value : Value) (origin : Origin)
  deriving Inhabited

/-- The definition that an attribute stands for, if it is a rule. -/
def Attribute.definition? : Attribute → Option DefinitionId
  | .rule definition => some definition
  | .value .. => none

/-- A language class. -/
structure Class where
  /-- What it is called. -/
  name : String
  /-- The class itself and its ancestors, the most derived first. -/
  lineage : List ClassId
  /-- Its own attributes. -/
  attributes : Table Attribute
  /-- Whether making a language of the class makes its rules. -/
  initialises : Bool
  deriving Inhabited

/-- A language. -/
structure Instance where
  /-- Its class. -/
  cls : ClassId
  /-- The arguments it was made with. -/
  arguments : Table Value
  /-- Its rules by name, unless it was never initialised. -/
  rules : Option (Table CellId)
  /-- The lazy parsers that belong to it: those of its rules first. -/
  cells : Array Cell
  deriving Inhabited

/-- An entry of the log. -/
inductive Record : Type where
  /-- The parser of a lazy parser is being made; given is the stage before. -/
  | building (name : String) (before : RuleState)
  /-- The parser of a lazy parser has been made. -/
  | ready (name : String)
  /-- A source of the given length was parsed up to a place. -/
  | matched (stop : Position) (length : Nat)
  /-- A source was parsed up to a place, where something else was expected. -/
  | failed (place : Position) (wording : String)
  deriving DecidableEq, Inhabited, Repr

/-- The words of an entry of the log. -/
def Record.message : Record → String
  | .building name before => s!"{name}: {before.title} -> {RuleState.building.title}"
  | .ready name => s!"{name}: {RuleState.building.title} -> {RuleState.ready.title}"
  | .matched stop length =>
      s!"matched {stop.index} of {length} characters, ending at {stop.line}:{stop.column}"
  | .failed place wording => s!"failed at {place.line}:{place.column}: {wording}"

/-- Everything that changes while grammars run. -/
structure Store where
  /-- The rules of classes. -/
  definitions : Array Definition
  /-- The classes. -/
  classes : Array Class
  /-- The classes by name. -/
  classNames : Table ClassId
  /-- The languages. -/
  instances : Array Instance
  /-- The parsers put aside. -/
  kept : Array Parser
  /-- What was put aside by name. -/
  shelf : Table (Object Handle)
  /-- How often each counter was asked. -/
  counters : List (Nat × Nat)
  /-- Whether a log is kept. -/
  logging : Bool
  /-- The notes that grammars left. -/
  events : Array Event
  /-- The log. -/
  records : Array Record
  deriving Inhabited

namespace Store

/-- The number of the class from which all others descend. -/
def base : ClassId := 0

/-- The name of the class from which all others descend. -/
def baseName : String := "Language"

/-- The store at the beginning: one class, without rules. -/
def initial (logging : Bool) : Store where
  definitions := #[]
  classes := #[⟨baseName, [base], [], true⟩]
  classNames := [(baseName, base)]
  instances := #[]
  kept := #[]
  shelf := []
  counters := []
  logging := logging
  events := #[]
  records := #[]

/-- The store with a note added. -/
def note (store : Store) (event : Event) : Store :=
  { store with events := store.events.push event }

/-- The store with an entry added to the log, if one is kept. -/
def log (store : Store) (record : Record) : Store :=
  if store.logging then { store with records := store.records.push record } else store

/-- The store without notes and with an empty log. -/
def cleared (store : Store) : Store := { store with events := #[], records := #[] }

/-! ## Lazy parsers -/

/-- The language with a given number. -/
def instanceAt (store : Store) (language : InstanceId) : Instance :=
  store.instances.getD language default

/-- The lazy parser with a given number. -/
def cell? (store : Store) (id : CellId) : Option Cell :=
  (store.instanceAt id.language).cells[id.index]?

/-- The store with another lazy parser that belongs to a language, and what it is known by. -/
def addCell (store : Store) (language : InstanceId) (name : String) (make : Maker) :
    CellId × Store :=
  (⟨language, (store.instanceAt language).cells.size⟩,
    { store with
      instances := store.instances.modify language fun old =>
        { old with cells := old.cells.push (.unbuilt name make) } })

/-- The store with a lazy parser changed. -/
def modifyCell (store : Store) (id : CellId) (change : Cell → Cell) : Store :=
  { store with
    instances := store.instances.modify id.language fun old =>
      { old with cells := old.cells.modify id.index change } }

/-- The store with a lazy parser in another stage. -/
def setState (store : Store) (id : CellId) (state : RuleState) : Store :=
  store.modifyCell id fun old => { old with state := state }

/-- The store with the parser of a lazy parser in place. -/
def setParser (store : Store) (id : CellId) (parser : Parser) : Store :=
  store.modifyCell id fun old => { old with state := .ready, parser := some parser }

/-- A lazy parser that is there, or an unbuilt one without a name. -/
def cellAt (store : Store) (id : CellId) : Cell := (store.cell? id).getD default

/-- The language at a number after a change to the language at another one. -/
theorem instanceAt_modify (store : Store) (language other : InstanceId)
    (change : Instance → Instance) (h : other < store.instances.size) :
    ({ store with instances := store.instances.modify language change } : Store).instanceAt other
      = if language = other then change (store.instanceAt other) else store.instanceAt other := by
  unfold instanceAt
  rw [Array.getD_eq_getD_getElem?, Array.getD_eq_getD_getElem?, Array.getElem?_modify]
  split
  · simp [Array.getElem?_eq_getElem h]
  · rfl

/-- A language that is not there has no lazy parsers. -/
theorem cell?_of_size_le (store : Store) {id : CellId} (h : store.instances.size ≤ id.language) :
    store.cell? id = none := by
  unfold cell? instanceAt
  rw [Array.getD_eq_getD_getElem?, Array.getElem?_eq_none h]
  rfl

/-- The lazy parsers after a change to one of them. -/
theorem cell?_modifyCell (store : Store) (id other : CellId) (change : Cell → Cell) :
    (store.modifyCell id change).cell? other
      = if id = other then (store.cell? other).map change else store.cell? other := by
  by_cases there : other.language < store.instances.size
  · unfold cell? modifyCell
    rw [instanceAt_modify _ _ _ _ there]
    obtain ⟨language, index⟩ := id
    obtain ⟨language', index'⟩ := other
    by_cases hl : language = language'
    · subst hl
      by_cases hi : index = index'
      · subst hi
        simp [Array.getElem?_modify]
      · simp [Array.getElem?_modify, hi]
    · simp [hl]
  · have gone := Nat.le_of_not_lt there
    rw [cell?_of_size_le store gone, cell?_of_size_le]
    · split <;> rfl
    · simpa [modifyCell] using gone

/-- The text of a lazy parser. -/
def shownCell (store : Store) (id : CellId) : String := (store.cellAt id).shown

/-- The text of a table of rules. -/
def shownTable (store : Store) (rules : Table CellId) : String :=
  let entries := rules.map fun (name, cell) =>
    Text.Quoted.quote name ++ ": " ++ store.shownCell cell
  "\x7b" ++ ", ".intercalate entries ++ "\x7d"

/-- The text of something that is no parser. -/
def shownObject (store : Store) : Object Parser → Except Raised String
  | .parser _ => .ok "a parser"
  | .value value => value.shown?
  | .table rules => .ok (store.shownTable rules)
  | .other _ shown => .ok shown

/-! ## Counters and parsers put aside -/

/-- How often a counter was asked. -/
def countOf (store : Store) (counter : Nat) : Nat :=
  ((store.counters.find? (·.1 == counter)).map (·.2)).getD 0

/-- How often a counter was asked, and the store in which it was asked once more. -/
def count (store : Store) (counter : Nat) : Nat × Store :=
  let before := store.countOf counter
  let others := store.counters.filter (·.1 != counter)
  (before, { store with counters := (counter, before + 1) :: others })

/-- What stands for an object that is put aside. A parser without a handle is kept by number. -/
def keep (store : Store) : Object Parser → Object Handle × Store
  | .parser parser =>
      match parser.handle? with
      | some handle => (.parser handle, store)
      | none =>
          (.parser (.kept store.kept.size), { store with kept := store.kept.push parser })
  | .value value => (.value value, store)
  | .table rules => (.table rules, store)
  | .other kind shown => (.other kind shown, store)

/-- The store with an object put aside under a name. -/
def shelve (store : Store) (name : String) (object : Object Parser) : Store :=
  let (kept, store) := store.keep object
  { store with shelf := store.shelf.put name kept }

/-- What was put aside under a name. -/
def fetch (store : Store) (name : String) : Except Raised (Object Handle) :=
  match store.shelf.get? name with
  | some found => .ok found
  | none => .error (.unknownName name)

end Store

end Descent
