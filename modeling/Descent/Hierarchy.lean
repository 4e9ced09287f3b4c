import Descent.Inbuilt
import Descent.Store

/-! # Language classes

* **`Member`** — an attribute of a class as its author writes it: a rule, another name for a rule,
  or a value. A late member is put on the class after it was made.
* **`Store.findAttribute`** — what a name stands for on a class: the attribute of the first class in
  its lineage that has one.
* **`Store.ruleTable`** — the rules that a language of a class gets: those of the most basic class
  first, where a rule that overrides another takes over its place.
* **`Store.defineClass`** — a new class.

A rule definition has a name of its own, which is the last attribute name that it was given while a
class was being made. It matters because an attribute of a language is looked up by that name. -/

namespace Descent

/-- What an attribute of a class is made of. -/
inductive Member.Content : Type where
  /-- A rule made from a function of the given name. -/
  | rule (functionName : String) (errorName : Option Value) (body : RuleBody)
  /-- What another attribute of the class, or of a base, stands for. -/
  | alias (other : String)
  /-- A value. -/
  | value (value : Value)

/-- An attribute of a class as its author writes it. -/
structure Member where
  /-- Its name. -/
  name : String
  /-- Whether it is put on the class after that was made. -/
  late : Bool
  /-- What it is made of. -/
  content : Member.Content

namespace Store

/-- The number of the class of a given name. -/
def classNamed (store : Store) (name : String) : Except Raised ClassId :=
  match store.classNames.get? name with
  | some cls => .ok cls
  | none => .error (.unknownName name)

/-- The class with a given number. -/
def classAt (store : Store) (cls : ClassId) : Class := store.classes.getD cls default

/-- The attribute of the first of several classes that has one of the given name. -/
def findAttribute (store : Store) (lineage : List ClassId) (name : String) : Option Attribute :=
  lineage.findSome? fun cls => (store.classAt cls).attributes.get? name

/-- Where the value that a name stands for on a class comes from. -/
def originOf (store : Store) (lineage : List ClassId) (name : String) : Option Origin :=
  match store.findAttribute lineage name with
  | some (.value _ origin) => some origin
  | _ => none

/-- The rules among some attributes. -/
def rulesAmong (attributes : Table Attribute) : Table DefinitionId :=
  attributes.filterMap fun (name, entry) => entry.definition?.map fun d => (name, d)

/-- The rules of classes given with the most derived first. -/
def ruleTable (store : Store) (lineage : List ClassId) : Table DefinitionId :=
  lineage.reverse.foldl
    (fun table cls => table.putAll (rulesAmong (store.classAt cls).attributes)) []

/-- Whether a name is an attribute of a class with the given lineage. -/
def hasAttribute (store : Store) (lineage : List ClassId) (name : String) : Bool :=
  (Inbuilt.find? name).isSome || (store.findAttribute lineage name).isSome

/-- The attributes of a class with one more member, and the store with what that needs. -/
def addMember (bases : List ClassId) (made : Store × Table Attribute) (member : Member) :
    Except Raised (Store × Table Attribute) :=
  let (store, attributes) := made
  match member.content with
  | .rule functionName errorName body =>
      let definition : Definition := ⟨functionName, errorName, body⟩
      .ok ({ store with definitions := store.definitions.push definition },
        attributes.put member.name (.rule store.definitions.size))
  | .alias other =>
      -- the body so far hides the bases
      match (attributes.get? other).or (store.findAttribute bases other) with
      | some entry => .ok (store, attributes.put member.name entry)
      | none => .error (.unknownName other)
  | .value value =>
      -- the class is not in the store yet, and will be the next one
      let origin : Origin := ⟨store.classes.size, member.name⟩
      .ok (store, attributes.put member.name (.value value origin))

/-- The store in which every rule among some attributes has the name of its last attribute. -/
def nameRules (store : Store) (attributes : Table Attribute) : Store :=
  (rulesAmong attributes).foldl
    (fun store (name, definition) =>
      { store with
        definitions := store.definitions.modify definition fun old => { old with name := name } })
    store

/-- The first entry of a list that stands in it once more. -/
def firstRepeated? (items : List ClassId) : Option ClassId :=
  match items with
  | [] => none
  | item :: rest => if rest.contains item then some item else firstRepeated? rest

/-- The ancestors of a class with the given bases, in the order of inheritance. -/
def ancestry (store : Store) (bases : List ClassId) : Except Raised (List ClassId) :=
  match firstRepeated? bases with
  | some repeated => .error (.repeatedBase (store.classAt repeated).name)
  | none =>
      let lineages := bases.map fun cls => (store.classAt cls).lineage
      match Linearization.merge? (lineages ++ [bases]) with
      | .ok ancestors => .ok ancestors
      | .error stuck =>
          .error (.inconsistentBases (stuck.map fun cls => (store.classAt cls).name))

/-- The store with a new class. -/
def defineClass (store : Store) (name : String) (bases : List String) (initialises : Bool)
    (members : List Member) : Except Raised Store := do
  let bases ← bases.mapM store.classNamed
  let inherited := bases.flatMap fun cls => (store.classAt cls).lineage
  let (early, late) := members.partition fun member => !member.late
  let (made, own) ← early.foldlM (addMember inherited) (store, [])
  -- the body of the class is complete before its bases are put in order
  let ancestors ← made.ancestry bases
  -- members that come late do not name the rules that they stand for
  let named := made.nameRules own
  let (finished, own) ← late.foldlM (addMember inherited) (named, own)
  let cls := finished.classes.size
  return { finished with
    classes := finished.classes.push ⟨name, cls :: ancestors, own, initialises⟩
    classNames := finished.classNames.put name cls }

/-- The definition that a rule's name stands for on a class, and whether it stands in the body of
that class. -/
def classRule (store : Store) (cls : ClassId) (name : String) :
    Except Raised (Definition × Bool) :=
  let found := store.classAt cls
  match store.findAttribute found.lineage name with
  | some (.rule definition) =>
      .ok (store.definitions.getD definition default, found.attributes.has name)
  | some (.value value _) => .error (.noMethod value.kind "name")
  | none =>
      match Inbuilt.find? name with
      | some inbuilt => .error (.noMethod inbuilt.onClass "name")
      | none => .error (.noClassAttribute found.name name)

end Store

end Descent
