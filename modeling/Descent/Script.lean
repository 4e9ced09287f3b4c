import Descent.Raised

/-! # Scripts

The functions of a grammar (what a map or chain function does with a value, how a rule makes its
parser, how a hand-written parser finds its result) may do more than compute: they may run other
parsers, make lazy ones and consult the language they belong to. A **script** is such a function's
work written out as data: either it is done, or it asks for one thing and goes on with the answer.
What the answers are is up to whoever performs the script, and a script that asks for nothing is an
ordinary value.

* **`Object`** — what a chain function or a rule can make: a parser, or something that is none.
* **`Event`** — a note that a grammar leaves about its own run.
* **`Script`** — the scripts, over a type of parsers, a type of makers (scripts to be performed
  later) and a type of results. -/

namespace Descent

/-- The number of a language in the store. -/
abbrev InstanceId := Nat

/-- What a lazy parser is known by: the language to which it belongs, and its number there. -/
structure CellId where
  /-- The language to which the lazy parser belongs. -/
  language : InstanceId
  /-- The number of the lazy parser within the language. -/
  index : Nat
  deriving DecidableEq, Inhabited, Repr

/-- A language as the functions of its rules see it. -/
structure Owner where
  /-- The number of the language. -/
  language : InstanceId
  /-- The arguments that the language was made with. -/
  arguments : List (String × Value)
  deriving Inhabited, Repr

/-- The stages of a lazy parser. -/
inductive RuleState : Type where
  /-- Its parser has not been made, or making it failed. -/
  | unbuilt
  /-- Its parser is being made. -/
  | building
  /-- Its parser is there. -/
  | ready
  deriving DecidableEq, Inhabited, Repr

/-- The name of a stage in small letters. -/
def RuleState.name : RuleState → String
  | .unbuilt => "unbuilt"
  | .building => "building"
  | .ready => "ready"

/-- The name of a stage in capital letters. -/
def RuleState.title : RuleState → String
  | .unbuilt => "UNBUILT"
  | .building => "BUILDING"
  | .ready => "READY"

/-- What a function or a rule can make. -/
inductive Object (P : Type) : Type where
  /-- A parser. -/
  | parser (parser : P)
  /-- A value, which is no parser. -/
  | value (value : Value)
  /-- The rules of a language by name, which are no parser either. -/
  | table (rules : List (String × CellId))
  /-- Something else, of which the name of its kind and its text are known. -/
  | other (kind shown : String)
  deriving Inhabited, Repr

/-- The object with its parser replaced. -/
def Object.map {P Q : Type} (f : P → Q) : Object P → Object Q
  | .parser p => .parser (f p)
  | .value v => .value v
  | .table rules => .table rules
  | .other kind shown => .other kind shown

/-- A note that a grammar leaves about its own run. -/
inductive Event : Type where
  /-- A chain function was called with a value. -/
  | chained (tag : Value) (value : Value)
  /-- The function of a lazy parser was called. -/
  | made (tag : Value)
  /-- A parser was run at a place. -/
  | started (tag : Value) (place : Position)
  /-- A map function was called with a value. -/
  | mapped (tag : Value) (value : Value)
  /-- A rule was looked at. -/
  | observed (state : RuleState) (shown : String)
  /-- A rule was run, with this result. -/
  | ran (rule : String) (result : Result)
  deriving DecidableEq, Inhabited, Repr

/-- A parser that can be recognised again: two with the same handle are one and the same. -/
inductive Handle : Type where
  /-- The parser for the end of the source. -/
  | eof
  /-- The parser that tells the place. -/
  | location
  /-- A lazy parser. -/
  | lazy (cell : CellId)
  /-- A parser that was put aside under a number. -/
  | kept (number : Nat)
  deriving DecidableEq, Inhabited, Repr

/-- Scripts: `P` are the parsers they run, `M` the scripts they leave for later, and `α` is what
they end with. -/
inductive Script (P M α : Type) : Type where
  /-- The script ends. -/
  | done (result : α)
  /-- The script ends with an error. -/
  | raise (cause : Raised)
  /-- Leave a note. -/
  | note (event : Event) (next : Script P M α)
  /-- Run a parser on a source from a place. -/
  | run (parser : P) (source : Source) (start : Position) (next : Result → Script P M α)
  /-- Have a lazy parser made. -/
  | build (cell : CellId) (next : Script P M α)
  /-- Get a new lazy parser of the given name that belongs to a language, to be made by `make`. -/
  | defer (language : InstanceId) (name : String) (make : M) (next : CellId → Script P M α)
  /-- Ask for the stage of a lazy parser and for its text. -/
  | inspect (cell : CellId) (next : RuleState → String → Script P M α)
  /-- Ask for an attribute of a language. -/
  | lookUp (language : InstanceId) (name : String) (next : Object CellId → Script P M α)
  /-- Ask for a rule of a language. -/
  | rule (language : InstanceId) (name : String) (next : CellId → Script P M α)
  /-- Get a new language of the named class, with these arguments and these further rules. -/
  | create (className : String) (arguments : List (String × Value))
      (rules : List (String × (Owner → M))) (next : InstanceId → Script P M α)
  /-- Ask for what was put aside under a name. -/
  | fetch (name : String) (next : Object Handle → Script P M α)
  /-- Ask how often this was asked before, with the same counter. -/
  | count (counter : Nat) (next : Nat → Script P M α)

namespace Script

variable {P M α β γ : Type}

/-- One script, then another that depends on what the first ends with. -/
def bind : Script P M α → (α → Script P M β) → Script P M β
  | .done result, f => f result
  | .raise cause, _ => .raise cause
  | .note event next, f => .note event (next.bind f)
  | .run parser source start next, f => .run parser source start fun r => (next r).bind f
  | .build cell next, f => .build cell (next.bind f)
  | .defer language name make next, f =>
      .defer language name make fun cell => (next cell).bind f
  | .inspect cell next, f => .inspect cell fun state shown => (next state shown).bind f
  | .lookUp language name next, f => .lookUp language name fun found => (next found).bind f
  | .rule language name next, f => .rule language name fun cell => (next cell).bind f
  | .create className arguments rules next, f =>
      .create className arguments rules fun language => (next language).bind f
  | .fetch name next, f => .fetch name fun found => (next found).bind f
  | .count counter next, f => .count counter fun before => (next before).bind f

instance : Monad (Script P M) where
  pure := .done
  bind := bind

@[simp] theorem pure_eq (result : α) : (pure result : Script P M α) = .done result := rfl

@[simp] theorem bind_eq (script : Script P M α) (f : α → Script P M β) :
    script >>= f = script.bind f := rfl

@[simp] theorem done_bind (result : α) (f : α → Script P M β) :
    (Script.done result : Script P M α).bind f = f result := rfl

@[simp] theorem raise_bind (cause : Raised) (f : α → Script P M β) :
    (Script.raise cause : Script P M α).bind f = .raise cause := rfl

/-- Ending with what a script ends with changes nothing. -/
@[simp] theorem bind_done (script : Script P M α) : script.bind .done = script := by
  induction script with
  | done | raise => rfl
  | note _ _ ih => simp [bind, ih]
  | run _ _ _ _ ih => simp [bind, ih]
  | build _ _ ih => simp [bind, ih]
  | defer _ _ _ _ ih => simp [bind, ih]
  | inspect _ _ ih => simp [bind, ih]
  | lookUp _ _ _ ih => simp [bind, ih]
  | rule _ _ _ ih => simp [bind, ih]
  | create _ _ _ _ ih => simp [bind, ih]
  | fetch _ _ ih => simp [bind, ih]
  | count _ _ ih => simp [bind, ih]

/-- Putting scripts one after another does not depend on the bracketing. -/
theorem bind_assoc (script : Script P M α) (f : α → Script P M β) (g : β → Script P M γ) :
    (script.bind f).bind g = script.bind fun result => (f result).bind g := by
  induction script with
  | done | raise => rfl
  | note _ _ ih => simp [bind, ih]
  | run _ _ _ _ ih => simp [bind, ih]
  | build _ _ ih => simp [bind, ih]
  | defer _ _ _ _ ih => simp [bind, ih]
  | inspect _ _ ih => simp [bind, ih]
  | lookUp _ _ _ ih => simp [bind, ih]
  | rule _ _ _ ih => simp [bind, ih]
  | create _ _ _ _ ih => simp [bind, ih]
  | fetch _ _ ih => simp [bind, ih]
  | count _ _ ih => simp [bind, ih]

instance : LawfulMonad (Script P M) :=
  LawfulMonad.mk' (Script P M) bind_done (fun _ _ => rfl) bind_assoc

/-- The script that ends with a value or with an error. -/
def ofExcept : Except Raised α → Script P M α
  | .ok result => .done result
  | .error cause => .raise cause

end Script

end Descent
