import Descent.Grammar.Build
import Descent.Parse
import Descent.Session.Step

/-! # Sessions

A session is a sequence of steps on one store: classes are defined, languages are made, parsers are
put aside, and all of them are run and looked at. A step that ends with an error leaves what it did
so far, and the next step goes on from there.

* **`Session`** — what a session knows apart from the store.
* **`Session.Step.perform`** — a step, performed with an engine.
* **`Session.Outcome`** — what became of a step, with the notes and the log of that step alone.
* **`Session.play`** — steps one after another. -/

namespace Descent

/-- The state of a session. -/
structure Session where
  /-- The languages by name. -/
  languages : Table InstanceId
  /-- The language of grammars that stand outside of every language. -/
  outside : Owner
  /-- What the last building of a target gave, by the text of what the target is called. -/
  built : Table (Handle ⊕ CellId)
  deriving Inhabited

namespace Session

/-! ## Targets -/

/-- The language of a given name. -/
def languageNamed (session : Session) (name : String) : Except Raised InstanceId :=
  match session.languages.get? name with
  | some language => .ok language
  | none => .error (.unknownName name)

/-- The object that a target refers to. -/
def Target.resolve (engine : Engine Eval) (session : Session) : Target → Eval (Object Parser)
  | .rule language name direct => do
      let language ← Eval.consult fun _ => session.languageNamed language
      if direct then
        return .parser (.lazy (← Eval.consult (·.getRule language name)))
      else
        return (← Eval.consult (·.lookUp language name)).map .lazy
  | .ref name => do return (← Eval.consult (·.fetch name)).map Handle.parser
  | .grammar description => engine.perform (description.build ⟨session.outside, []⟩)

/-- What a target is called: a rule by its language and its name, in whichever way it is found, and
what was put aside by its name. Grammars that are built for a step are all called nothing. -/
def Target.title : Target → Value
  | .rule language name _ => .tuple [.str language, .str name]
  | .ref name => .str name
  | .grammar _ => .nothing

/-- The parser that a target refers to, on which a method of the given name is called. -/
def Target.parser (engine : Engine Eval) (session : Session) (method : String) (target : Target) :
    Eval Parser := do
  let object ← target.resolve engine session
  Eval.consult fun _ => object.receiver method

/-- Where the value that a target refers to comes from, if it is an attribute of a class. -/
def Target.origin? (session : Session) (store : Store) : Target → Option Origin
  | .rule language name false => do
      let language ← session.languages.get? language
      store.originOf (store.classOf language).lineage name
  | _ => none

/-- Whether two targets refer to one thing, whatever it is. -/
def Target.meets (session : Session) (store : Store) (a b : Target) : Bool :=
  (a.title ≠ .nothing && a.title = b.title)
    || ((a.origin? session store).isSome && a.origin? session store == b.origin? session store)

/-- Whether two objects are one and the same. A parser can be recognised by itself; of values that
are alike, and of tables, it has to be known whether they come from the same target. -/
def sameObject (meet : Bool) : Object Parser → Object Parser → Bool
  | .parser p, .parser q => p.handle?.isSome && p.handle? == q.handle?
  | .value v, .value w => v = w && (meet || v.isUnique)
  | .table rules, .table others => rules == others && (meet || !rules.isEmpty)
  | _, _ => false

/-! ## Classes and languages -/

/-- A grammar as the body of a rule. -/
def bodyOf (grammar : Grammar) : RuleBody := fun owner => grammar.build ⟨owner, []⟩

/-- The name of a rule definition: the given one, unless that does not count as true. -/
def definitionName (functionName : String) (name : Value) : Value :=
  if name.isTrue then name else .str functionName

/-- The name and the error name of a rule definition made of a function of the given name and of no
more than two arguments. -/
def describeDefinition (functionName : String) (arguments : List Value) :
    Except Raised (Value × Value) :=
  if 2 < arguments.length then .error (.tooManyArguments arguments.length)
  else .ok (definitionName functionName (arguments.getD 0 .nothing), arguments.getD 1 .nothing)

/-- An attribute of a class with its grammar as the body of a rule. -/
def MemberStep.member (step : MemberStep) : Member where
  name := step.name
  late := step.late
  content :=
    match step.content with
    | .rule grammar functionName errorName =>
        .rule (functionName.getD step.name) errorName (bodyOf grammar)
    | .alias other => .alias other
    | .value value => .value value

/-- A mapping of grammars as the rules of a language. -/
def makersOf (rules : Table Grammar) : Table (Owner → Maker) :=
  rules.map fun (name, grammar) => (name, fun owner => .mk (bodyOf grammar owner))

/-! ## Steps -/

/-- The identity of the parser that a lazy parser holds. -/
def identityOf (cell : CellId) (parser : Parser) : Handle ⊕ CellId :=
  match parser.handle? with
  | some handle => .inl handle
  | none => .inr cell

/-- Have a lazy parser made, and say whether its parser is the one that the last building of a
target with the same title gave. -/
def buildTarget (engine : Engine Eval) (session : Session) (target : Target) :
    Eval (Answer × Session) := do
  match (← target.resolve engine session) with
  | .parser (.lazy cell) => do
      let identity := identityOf cell (← engine.build cell)
      let title := target.title.shown
      return (.built (session.built.get? title == some identity),
        { session with built := session.built.put title identity })
  | other => Eval.raise (.noMethod other.kind "build")

/-- Look at a lazy parser. -/
def inspectTarget (engine : Engine Eval) (session : Session) (target : Target) : Eval Answer := do
  match (← target.resolve engine session) with
  | .parser (.lazy cell) => do
      let found ← Eval.read (·.cellAt cell)
      return .lazy found.shown found.name found.state
  | .value value => return .value value
  | other => Eval.raise (.noMethod other.kind "state")

/-- A step that does not change what the session knows, apart from the store. -/
def Step.answer (engine : Engine Eval) (session : Session) : Step → Eval Answer
  | .run target source start => do
      let parser ← target.parser engine session "run"
      return .result (← engine.run parser source start)
  | .parse target source => do
      let parser ← target.parser engine session "run"
      return .result (← engine.parse parser source)
  | .tryParse target source => do
      let parser ← target.parser engine session "skip"
      return .parsed (← engine.tryParse parser source)
  | .define name grammar => do
      let object ← (Target.grammar grammar).resolve engine session
      Eval.update (·.shelve name object)
      return .nothing
  | .defineClass name bases initialises members => do
      let _ ← Eval.attempt fun store =>
        (store.defineClass name bases initialises (members.map MemberStep.member)).map
          fun store => ((), store)
      return .nothing
  | .inspect target => inspectTarget engine session target
  | .same a b => do
      let first ← a.resolve engine session
      let second ← b.resolve engine session
      let meet ← Eval.read fun store => a.meets session store b
      return .same (sameObject meet first second)
  | .names language => do
      let language ← Eval.consult fun _ => session.languageNamed language
      return .names (← Eval.consult (·.ruleNames language))
  | .state language rule => do
      let language ← Eval.consult fun _ => session.languageNamed language
      return .state (← Eval.consult (·.ruleState language rule))
  | .shown language => do
      let language ← Eval.consult fun _ => session.languageNamed language
      return .text (← Eval.consult (·.shownLanguage language))
  | .definition functionName arguments => do
      let (name, errorName) ← Eval.consult fun _ => describeDefinition functionName arguments
      return .definition name errorName
  | .classRule className rule => do
      let cls ← Eval.consult (·.classNamed className)
      let (found, own) ← Eval.consult (·.classRule cls rule)
      return .classRule found.name (found.errorName.getD .nothing) own
  | .makeLanguage .. => return .nothing
  | .build _ => return .nothing

/-- A step that may change what the session knows. -/
def Step.execute (engine : Engine Eval) (session : Session) : Step → Eval (Answer × Session)
  | .makeLanguage name className arguments rules => do
      let values ← Eval.consult fun _ =>
        Grammar.evalArguments ⟨session.outside, []⟩ arguments
      let language ← Eval.attempt (·.create className values (makersOf rules))
      return (.nothing, { session with languages := session.languages.put name language })
  | .build target => buildTarget engine session target
  | step => do return (← step.answer engine session, session)

/-- A step of a session. What it answers has to be writable. -/
def Step.perform (engine : Engine Eval) (session : Session) (step : Step) :
    Eval (Answer × Session) := do
  let (answer, session) ← step.execute engine session
  if answer.isWritable then return (answer, session) else Eval.raise .numberTooLong

/-- A session at its beginning: the outside language has no arguments and the given rules. -/
def opening (rules : Table Grammar) : Eval Session := do
  let language ← Eval.attempt (·.create Store.baseName [] (makersOf rules))
  return ⟨[], ⟨language, []⟩, []⟩

/-! ## Whole sessions -/

/-- What became of a step. -/
structure Outcome where
  /-- The answer, or the error that the step ended with. -/
  ended : Except Raised Answer
  /-- The notes that grammars left during the step. -/
  events : List Event
  /-- The log of the step. -/
  records : List Record
  deriving Inhabited

/-- The outcome of a step that left the given store. -/
def Outcome.of (ended : Except Raised Answer) (store : Store) : Outcome :=
  ⟨ended, store.events.toList, store.records.toList⟩

/-- The outcomes of steps one after another; no answer if one of them gives none. A step that ends
with an error leaves the session as it was, and the store as it is. -/
def play (engine : Engine Eval) (session : Session) (store : Store) :
    List Step → Option (List Outcome)
  | [] => some []
  | step :: rest =>
      match (step.perform engine session).on store.cleared with
      | none => none
      | some (.ok (answer, session), store) =>
          (play engine session store rest).map (.of (.ok answer) store :: ·)
      | some (.error cause, store) =>
          (play engine session store rest).map (.of (.error cause) store :: ·)

/-- The outcomes of the steps of a session, with or without a log. -/
def run (engine : Engine Eval) (logging : Bool) (steps : List Step) : Option (List Outcome) :=
  match (opening []).on (Store.initial logging) with
  | some (.ok session, store) => play engine session store steps
  | _ => none

/-- The outcome of a single step, where the outside language has the given rules. -/
def single (engine : Engine Eval) (logging : Bool) (rules : Table Grammar) (step : Step) :
    Option Outcome :=
  let whole : Eval Answer := do return (← step.perform engine (← opening rules)).1
  (whole.on (Store.initial logging)).map fun (ended, store) => .of ended store

end Session

end Descent
