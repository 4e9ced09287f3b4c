import Descent.Hierarchy

/-! # Languages

A language is an instance of a language class. When it is made, every rule of its class and every
rule of the mapping that it was given becomes a lazy parser of its own.

* **`Store.create`** — a new language.
* **`Store.getRule`** — the lazy parser of a rule, by the name in the language's own table.
* **`Store.lookUp`** — an attribute of a language. What the class says about the name comes first,
  and a rule found there is looked up by the name of its definition; the language's own table is the
  last resort, but not for names that begin with two underscores.
* **`Store.operation`** — whether the operations on a language are still there, for a class may have
  given their names to something else. -/

namespace Descent.Store

/-- The name of the attribute that holds a language's own table of rules. -/
def tableName : String := "_rules"

/-- What the lazy parser of a rule is called. -/
def lazyName (rule : String) : String := if rule = "" then "<lazy>" else rule

/-- The first of several names that is an attribute of a class already. -/
def firstTaken? (store : Store) (lineage : List ClassId) (names : List String) : Option String :=
  names.find? (store.hasAttribute lineage)

/-- How the parsers of a language's rules are made: the rules of its class, then those of a
mapping. -/
def makers (store : Store) (lineage : List ClassId) (owner : Owner)
    (rules : Table (Owner → Maker)) : Table Maker :=
  let inherited : Table Maker := (store.ruleTable lineage).map fun (name, definition) =>
    (name, .mk ((store.definitions.getD definition default).action owner))
  inherited.putAll (rules.map fun (name, maker) => (name, maker owner))

/-- The lazy parsers for several makers. -/
def cellsOf (makers : Table Maker) : List Cell :=
  makers.map fun (name, maker) => .unbuilt (lazyName name) maker

/-- The rules of a language by name, where `names` are the names of its first lazy parsers. -/
def numbered (language : InstanceId) (names : List String) : Table CellId :=
  names.zipIdx.map fun (name, index) => (name, ⟨language, index⟩)

/-- The store with a new language of the named class, and its number. -/
def create (store : Store) (className : String) (arguments : Table Value)
    (rules : Table (Owner → Maker)) : Except Raised (InstanceId × Store) := do
  let cls ← store.classNamed className
  let found := store.classAt cls
  let language := store.instances.size
  if found.initialises then
    -- checked for the whole mapping before any rule is made
    match store.firstTaken? found.lineage rules.names with
    | some name => .error (.nameTaken name found.name)
    | none =>
        let makers := store.makers found.lineage ⟨language, arguments⟩ rules
        let made : Instance :=
          ⟨cls, arguments, some (numbered language makers.names), (cellsOf makers).toArray⟩
        return (language, { store with instances := store.instances.push made })
  else
    -- without initialisation the mapping is not looked at
    let made : Instance := ⟨cls, arguments, none, #[]⟩
    return (language, { store with instances := store.instances.push made })

/-- The class of a language. -/
def classOf (store : Store) (language : InstanceId) : Class :=
  store.classAt (store.instanceAt language).cls

/-- The rules of a language by name. -/
def rulesOf (store : Store) (language : InstanceId) : Except Raised (Table CellId) :=
  match (store.instanceAt language).rules with
  | some rules => .ok rules
  | none => .error (.uninitialised (store.classOf language).name)

/-- Whether an operation on a language can be called: its class may have put something else in the
place of it. -/
def operation (store : Store) (language : InstanceId) (name : String) : Except Raised Unit :=
  match store.findAttribute (store.classOf language).lineage name with
  | none => .ok ()
  | some (.value value _) => .error (.notCallable value.kind)
  | some (.rule _) => do
      let _ ← store.rulesOf language
      throw (.notCallable "LazyParser")

/-- The lazy parser of a rule of a language. -/
def getRule (store : Store) (language : InstanceId) (name : String) : Except Raised CellId := do
  store.operation language Inbuilt.getRule
  match (← store.rulesOf language).get? name with
  | some cell => return cell
  | none => throw (.noRule name (store.classOf language).name)

/-- An attribute of a language that its class does not have. -/
def fallback (store : Store) (language : InstanceId) (name : String) :
    Except Raised (Object CellId) := do
  store.operation language Inbuilt.fallback
  if name.startsWith "__" then throw (.reservedName name)
  else return .parser (← store.getRule language name)

/-- The names of a language's rules, in order. -/
def ruleNames (store : Store) (language : InstanceId) : Except Raised (List String) := do
  store.operation language Inbuilt.ruleNames
  return (← store.rulesOf language).names

/-- The stage of a rule of a language. -/
def ruleState (store : Store) (language : InstanceId) (name : String) :
    Except Raised RuleState := do
  store.operation language Inbuilt.ruleState
  return (store.cellAt (← store.getRule language name)).state

/-- The text of a language: its class and the names of its rules. -/
def shownLanguage (store : Store) (language : InstanceId) : Except Raised String := do
  store.operation language Inbuilt.shown
  let names := (← store.ruleNames language).map Text.Quoted.quote
  return "<" ++ (store.classOf language).name ++ " rules=[" ++ ", ".intercalate names ++ "]>"

/-- An attribute that every language has, on a language. -/
def inbuilt (store : Store) (language : InstanceId) (name kind : String) : Object CellId :=
  if kind = "method" then
    let owner := (store.shownLanguage language).toOption.getD ""
    .other kind s!"<bound method {baseName}.{name} of {owner}>"
  else if kind = "NoneType" then .value .nothing
  else .other kind s!"<{kind}>"

/-- An attribute of a language that its class may have. -/
def lookUpOnClass (store : Store) (language : InstanceId) (name : String) :
    Except Raised (Object CellId) :=
  match store.findAttribute (store.classOf language).lineage name with
  | some (.rule definition) =>
      match store.getRule language (store.definitions.getD definition default).name with
      | .ok cell => .ok (.parser cell)
      -- a rule put on the class late may have the name of its function
      | .error (.noRule ..) => store.fallback language name
      | .error cause => .error cause
  | some (.value value _) => .ok (.value value)
  | none =>
      match (Inbuilt.find? name).bind Inbuilt.onLanguage with
      | some kind => .ok (store.inbuilt language name kind)
      | none => store.fallback language name

/-- An attribute of a language. -/
def lookUp (store : Store) (language : InstanceId) (name : String) :
    Except Raised (Object CellId) :=
  match (store.instanceAt language).rules with
  -- an attribute of the language itself hides what the class and the table say
  | some rules => if name = tableName then .ok (.table rules) else store.lookUpOnClass language name
  | none => store.lookUpOnClass language name

end Descent.Store
