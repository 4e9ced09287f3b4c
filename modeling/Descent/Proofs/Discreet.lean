import Descent.Proofs.Alike
import Descent.Proofs.Store.Opens

/-! # Parsers that ask only for what they may

A grammar's functions may ask languages for their rules and for other attributes. A parser is
**discreet** if none of its functions asks a language for an attribute that is not permitted. What
these functions do otherwise is free, but what they run, make or leave for later has to be discreet
too.

* **`Permit`** — which attributes languages may be asked for.
* **`Parser.Discreet`**, **`Action.Discreet`** — discreet parsers and scripts.
* **`Store.Discreet`** — a store in which every parser and every script is discreet.
* **`Store.Discreet.addCell`**, **`Store.Discreet.create`**, **`Store.Discreet.modifyCell`** — what
  scripts do to such a store.
* **`Store.Discreet.of_create`** — a store with a new language that is asked only for certain
  attributes. -/

namespace Descent

/-- Which attributes languages may be asked for. -/
abbrev Permit := InstanceId → String → Prop

/-- A language may be asked for anything. -/
def Permit.Free (permit : Permit) (language : InstanceId) : Prop := ∀ name, permit language name

/-- One language may be asked only for certain attributes, the others for anything. -/
def Permit.asking (language : InstanceId) (asked : String → Prop) : Permit :=
  fun other name => other = language → asked name

theorem Permit.asking_self (language : InstanceId) (asked : String → Prop) :
    Permit.asking language asked language = asked :=
  funext fun _ => propext ⟨fun h => h rfl, fun h _ => h⟩

mutual

/-- A parser asks languages only for what they may be asked for. -/
inductive Parser.Discreet (permit : Permit) : Parser → Prop where
  /-- A text. -/
  | text (literal : String) : Parser.Discreet permit (.text literal)
  /-- A regular expression. -/
  | pattern (regex : Regex) : Parser.Discreet permit (.pattern regex)
  /-- A value without consuming anything. -/
  | ok (value : Value) : Parser.Discreet permit (.ok value)
  /-- A failure. -/
  | fail (labels : Labels) : Parser.Discreet permit (.fail labels)
  /-- The end of the source. -/
  | eof : Parser.Discreet permit .eof
  /-- The place. -/
  | location : Parser.Discreet permit .location
  /-- A sequence of discreet parsers. -/
  | seq {parts : List Parser} (hparts : ∀ part ∈ parts, Parser.Discreet permit part) :
      Parser.Discreet permit (.seq parts)
  /-- A choice between discreet parsers. -/
  | or {first second : Parser} (hfirst : Parser.Discreet permit first)
      (hsecond : Parser.Discreet permit second) : Parser.Discreet permit (.or first second)
  /-- A function that is discreet, applied to the value of a discreet parser. -/
  | map {of : Parser} {fn : Value → Script Parser Maker Value} (hof : Parser.Discreet permit of)
      (hfn : ∀ value, Action.Discreet permit (fn value).values) :
      Parser.Discreet permit (.map of fn)
  /-- A discreet parser, then what a function makes that is discreet. -/
  | chain {of : Parser} {fn : Value → Script Parser Maker (Object Parser)}
      (hof : Parser.Discreet permit of) (hfn : ∀ value, Action.Discreet permit (fn value).objects) :
      Parser.Discreet permit (.chain of fn)
  /-- A repeated discreet parser. -/
  | many0 {of : Parser} (hof : Parser.Discreet permit of) : Parser.Discreet permit (.many0 of)
  /-- A relabelled discreet parser. -/
  | desc {of : Parser} (hof : Parser.Discreet permit of) (labels : Labels) :
      Parser.Discreet permit (.desc of labels)
  /-- A lazy parser. -/
  | lazy (cell : CellId) : Parser.Discreet permit (.lazy cell)
  /-- A parser that was put aside. -/
  | kept (number : Nat) : Parser.Discreet permit (.kept number)
  /-- A parser written by hand, with discreet actions. -/
  | custom {action : Source → Position → Script Parser Maker Result}
      (haction : ∀ source place, Action.Discreet permit (action source place).results) :
      Parser.Discreet permit (.custom action)

/-- A script asks languages only for what they may be asked for. -/
inductive Action.Discreet (permit : Permit) : Action Yield → Prop where
  /-- It ends with a discreet parser. -/
  | parser {p : Parser} (hp : Parser.Discreet permit p) :
      Action.Discreet permit (.done (.object (.parser p)))
  /-- It ends with something that is no parser. -/
  | nonParser {object : Object Parser} (h : ∀ p, object ≠ .parser p) :
      Action.Discreet permit (.done (.object object))
  /-- It ends with a result. -/
  | result (result : Result) : Action.Discreet permit (.done (.result result))
  /-- It ends with an error. -/
  | raise (cause : Raised) : Action.Discreet permit (.raise cause)
  /-- It leaves a note. -/
  | note {event : Event} {next : Action Yield} (hnext : Action.Discreet permit next) :
      Action.Discreet permit (.note event next)
  /-- It runs a discreet parser. -/
  | run {parser : Parser} {source : Source} {start : Position} {next : Result → Action Yield}
      (hparser : Parser.Discreet permit parser)
      (hnext : ∀ result, Action.Discreet permit (next result)) :
      Action.Discreet permit (.run parser source start next)
  /-- It has a lazy parser made. -/
  | build {cell : CellId} {next : Action Yield} (hnext : Action.Discreet permit next) :
      Action.Discreet permit (.build cell next)
  /-- It gets a new lazy parser, which is made discreetly. -/
  | defer {language : InstanceId} {name : String} {make : Maker} {next : CellId → Action Yield}
      (hmake : Action.Discreet permit make.action.objects)
      (hnext : ∀ cell, Action.Discreet permit (next cell)) :
      Action.Discreet permit (.defer language name make next)
  /-- It asks for the stage of a lazy parser. -/
  | inspect {cell : CellId} {next : RuleState → String → Action Yield}
      (hnext : ∀ state shown, Action.Discreet permit (next state shown)) :
      Action.Discreet permit (.inspect cell next)
  /-- It asks for an attribute that it may ask for. -/
  | lookUp {language : InstanceId} {name : String} {next : Object CellId → Action Yield}
      (hname : permit language name) (hnext : ∀ found, Action.Discreet permit (next found)) :
      Action.Discreet permit (.lookUp language name next)
  /-- It asks for any rule of any language. -/
  | rule {language : InstanceId} {name : String} {next : CellId → Action Yield}
      (hnext : ∀ cell, Action.Discreet permit (next cell)) :
      Action.Discreet permit (.rule language name next)
  /-- It gets a new language, of which anything may be asked. Its further rules are made
  discreetly. -/
  | create {className : String} {arguments : List (String × Value)}
      {rules : List (String × (Owner → Maker))} {next : InstanceId → Action Yield}
      (hrules : ∀ entry ∈ rules, ∀ owner, permit.Free owner.language →
        Action.Discreet permit (entry.2 owner).action.objects)
      (hnext : ∀ language, permit.Free language → Action.Discreet permit (next language)) :
      Action.Discreet permit (.create className arguments rules next)
  /-- It asks for what was put aside under a name. -/
  | fetch {name : String} {next : Object Handle → Action Yield}
      (hnext : ∀ found, Action.Discreet permit (next found)) :
      Action.Discreet permit (.fetch name next)
  /-- It asks how often this was asked before. -/
  | count {counter : Nat} {next : Nat → Action Yield}
      (hnext : ∀ before, Action.Discreet permit (next before)) :
      Action.Discreet permit (.count counter next)

end

/-- The discreet parsers without the value of another discreet one. -/
theorem Parser.Discreet.skip {permit : Permit} {p other : Parser} (hp : p.Discreet permit)
    (hother : other.Discreet permit) : (p.skip other).Discreet permit := by
  refine .map (.seq fun part hpart => ?_) fun _ => .nonParser nofun
  rcases List.mem_pair.mp hpart with rfl | rfl
  · exact hp
  · exact hother

/-! ## Stores -/

/-- A lazy parser is made discreetly, and its parser is discreet. -/
structure Cell.Discreet (permit : Permit) (cell : Cell) : Prop where
  /-- Its script is discreet. -/
  make : Action.Discreet permit cell.make.action.objects
  /-- So is its parser, once made. -/
  parser : ∀ p, cell.parser = some p → p.Discreet permit

/-- Every parser and every script in a store is discreet, and languages that are not there yet may
be asked for anything. -/
structure Store.Discreet (permit : Permit) (store : Store) : Prop where
  /-- New languages may be asked for anything. -/
  free : ∀ language, store.instances.size ≤ language → permit.Free language
  /-- Lazy parsers are discreet. -/
  cell : ∀ id cell, store.cell? id = some cell → cell.Discreet permit
  /-- Parsers that were put aside are discreet. -/
  kept : ∀ number, (store.kept.getD number default).Discreet permit
  /-- The rules of classes make parsers discreetly for languages that may be asked for anything. -/
  body : ∀ definition owner, permit.Free owner.language →
    Action.Discreet permit ((store.definitions.getD definition default).action owner).objects

namespace Store.Discreet

variable {permit : Permit} {store after : Store}

/-- A store stays discreet when discreet lazy parsers are added. -/
theorem of_fresh {keeps : Cell → Cell → Prop} (h : store.Discreet permit)
    (hgrows : Grows keeps store after) (hcell : ∀ id cell, after.cell? id = some cell →
      store.cell? id = some cell ∨ cell.Discreet permit) : after.Discreet permit where
  free language hl := h.free language (Nat.le_trans hgrows.size_le hl)
  cell id cell hthere := (hcell id cell hthere).elim (h.cell id cell) fun hdiscreet => hdiscreet
  kept number := by
    rw [hgrows.kept]
    exact h.kept number
  body definition owner hfree := by
    rw [hgrows.definitions]
    exact h.body definition owner hfree

/-- It stays so where the languages are the same. -/
theorem of_instances_eq (h : store.Discreet permit) (hadds : Adds store after)
    (hinstances : after.instances = store.instances) : after.Discreet permit :=
  h.of_fresh hadds fun id _ hcell => .inl (cell?_eq_of_instances_eq hinstances id ▸ hcell)

/-- A lazy parser is added that is made discreetly. -/
theorem addCell (h : store.Discreet permit) (language : InstanceId) (name : String) {make : Maker}
    (hmake : Action.Discreet permit make.action.objects) :
    (store.addCell language name make).2.Discreet permit := by
  refine h.of_fresh (adds_addCell store language name make) fun id cell hcell => ?_
  rcases fresh_addCell hcell with hold | rfl
  · exact .inl hold
  · exact .inr ⟨hmake, nofun⟩

/-- A lazy parser gets to another stage, or it gets a discreet parser. -/
theorem modifyCell (h : store.Discreet permit) {id : CellId} {change : Cell → Cell}
    (hchange : ∀ cell, cell.Discreet permit → (change cell).Discreet permit) :
    (store.modifyCell id change).Discreet permit := by
  have hgrows : Grows (fun _ _ => True) store (store.modifyCell id change) :=
    grows_modifyCell store id change (fun _ => trivial) fun _ => trivial
  refine h.of_fresh hgrows fun other cell hcell => ?_
  rw [cell?_modifyCell] at hcell
  split at hcell
  · obtain ⟨old, hold, rfl⟩ := Option.map_eq_some_iff.mp hcell
    exact .inr (hchange old (h.cell other old hold))
  · exact .inl hcell

/-- The rules of a new language are made discreetly if those of classes and those of its mapping
are. -/
theorem of_mem_makers {lineage : List ClassId} {owner : Owner} {rules : Table (Owner → Maker)}
    (hbody : ∀ definition,
      Action.Discreet permit ((store.definitions.getD definition default).action owner).objects)
    (hrules : ∀ entry ∈ rules, Action.Discreet permit (entry.2 owner).action.objects)
    {entry : String × Maker} (hentry : entry ∈ store.makers lineage owner rules) :
    (Cell.unbuilt (lazyName entry.1) entry.2).Discreet permit := by
  have hmake : Action.Discreet permit entry.2.action.objects :=
    Store.of_mem_makers (P := fun make => Action.Discreet permit make.action.objects)
      (fun inherited _ => hbody inherited.2) hrules hentry
  exact ⟨hmake, nofun⟩

/-- A new language of any class, with further rules that are made discreetly. -/
theorem create (h : store.Discreet permit) {className : String} {arguments : Table Value}
    {rules : Table (Owner → Maker)} {language : InstanceId}
    (hcreate : store.create className arguments rules = .ok (language, after))
    (hrules : ∀ entry ∈ rules, ∀ owner, permit.Free owner.language →
      Action.Discreet permit (entry.2 owner).action.objects) : after.Discreet permit := by
  refine h.of_fresh (adds_create hcreate) fun id cell hcell => ?_
  rcases fresh_create hcreate hcell with hold | ⟨cls, -, entry, hentry, rfl⟩
  · exact .inl hold
  · obtain ⟨-, -, rfl, -⟩ := create_eq_ok hcreate
    have hfree : permit.Free store.instances.size := h.free _ (Nat.le_refl _)
    exact .inr (of_mem_makers (fun definition => h.body definition _ hfree)
      (fun rule hrule => hrules rule hrule _ hfree) hentry)

/-- A new language that is asked only for certain attributes, if all that there was asks for no more
of it, and all rules that are made for it do not either. -/
theorem of_create {asked : String → Prop} {className : String} {arguments : Table Value}
    {rules : Table (Owner → Maker)} {language : InstanceId}
    (hcreate : store.create className arguments rules = .ok (language, after))
    (hcell : ∀ id cell, store.cell? id = some cell → cell.Discreet (.asking language asked))
    (hkept : ∀ number, (store.kept.getD number default).Discreet (.asking language asked))
    (hbody : ∀ definition owner,
      (Permit.asking language asked).Free owner.language ∨ owner = ⟨language, arguments⟩ →
        Action.Discreet (.asking language asked)
          ((store.definitions.getD definition default).action owner).objects)
    (hrules : ∀ entry ∈ rules, Action.Discreet (.asking language asked)
      (entry.2 ⟨language, arguments⟩).action.objects) :
    after.Discreet (.asking language asked) where
  free other hother name heq := by
    obtain ⟨-, -, rfl, made, rfl, -⟩ := create_eq_ok hcreate
    rw [heq, Array.size_push] at hother
    exact absurd hother (Nat.not_succ_le_self _)
  cell id cell hthere := by
    rcases fresh_create hcreate hthere with hold | ⟨cls, -, entry, hentry, rfl⟩
    · exact hcell id cell hold
    · exact of_mem_makers (fun definition => hbody definition _ (.inr rfl)) hrules hentry
  kept number := by
    rw [(adds_create hcreate).kept]
    exact hkept number
  body definition owner hfree := by
    rw [(adds_create hcreate).definitions]
    exact hbody definition owner (.inl hfree)

end Store.Discreet

end Descent
