import Descent.Parser.Combinators
import Mathlib.Data.Set.Basic

/-! # Families of parsers

A parser may name others that only the store knows: lazy parsers, parsers put aside, and the rules
of languages. What can be said of a parser by looking at it depends on what is said of those. A
**family** is a property of parsers, given the references that are known to lead to parsers of the
family. The set of these grows while a grammar runs, because running can make new lazy parsers and
new languages.

* **`Reference`**, **`Known`** — what can be named, and a set of such names.
* **`Family`**, **`Family.Monotone`** — a property of parsers that may look at what is known.
  Knowing more has to do no harm.
* **`Action.Makes`** — a script makes parsers of a family only. It may be performed when more has
  become known, and what it is answered may be known by then.
* **`Action.Makes.mono`** — with more known. -/

namespace Descent

/-- What parsers and scripts name instead of holding it. -/
inductive Reference : Type where
  /-- A lazy parser. -/
  | cell (id : CellId)
  /-- A parser put aside under a number. -/
  | kept (number : Nat)
  /-- A language, which stands for its rules. -/
  | language (id : InstanceId)
  /-- A language, which stands for itself: lazy parsers can be added to it. -/
  | home (id : InstanceId)
  /-- A class, which stands for the rules of the languages made of it. -/
  | className (name : String)
  /-- What was put aside under a name. -/
  | shelved (name : String)

/-- A reference to a lazy parser or to a language, which are made in the course of a run. -/
def Reference.IsMade : Reference → Prop
  | .cell _ | .language _ | .home _ => True
  | .kept _ | .className _ | .shelved _ => False

/-- The references that lead to composed parsers only. -/
abbrev Known := Set Reference

/-- An object leads to known lazy parsers only, where `inside` says so of a parser. -/
def Object.Within {P : Type} (known : Known) (inside : P → Prop) : Object P → Prop
  | .parser p => inside p
  | .value _ => True
  | .table rules => ∀ entry ∈ rules, .cell entry.2 ∈ known
  | .other _ _ => True

/-- A parser that can be recognised again is known. -/
def Handle.Within (known : Known) : Handle → Prop
  | .eof => True
  | .location => True
  | .lazy cell => .cell cell ∈ known
  | .kept number => .kept number ∈ known

/-- A property of parsers, given what is known. -/
abbrev Family := Known → Parser → Prop

/-- Knowing more does no harm. -/
def Family.Monotone (family : Family) : Prop :=
  ∀ ⦃known larger : Known⦄, known ⊆ larger → ∀ p, family known p → family larger p

/-- An object is no parser, or one of a family. -/
def Object.In (family : Family) (known : Known) (object : Object Parser) : Prop :=
  ∀ p, object = .parser p → family known p

/-- A script makes parsers of a family only. -/
inductive Action.Makes (family : Family) : Known → Action (Object Parser) → Prop where
  /-- It ends with a parser of the family. -/
  | parser {known : Known} {p : Parser} (hp : family known p) :
      Action.Makes family known (.done (.parser p))
  /-- It ends with something that is no parser. -/
  | nonParser {known : Known} {object : Object Parser} (h : ∀ p, object ≠ .parser p) :
      Action.Makes family known (.done object)
  /-- It ends with an error. -/
  | raise {known : Known} (cause : Raised) : Action.Makes family known (.raise cause)
  /-- It leaves a note. -/
  | note {known : Known} {event : Event} {next : Action (Object Parser)}
      (hnext : Action.Makes family known next) : Action.Makes family known (.note event next)
  /-- It runs any parser. -/
  | run {known : Known} {parser : Parser} {source : Source} {start : Position}
      {next : Result → Action (Object Parser)}
      (hnext : ∀ result, Action.Makes family known (next result)) :
      Action.Makes family known (.run parser source start next)
  /-- It has any lazy parser made. -/
  | build {known : Known} {cell : CellId} {next : Action (Object Parser)}
      (hnext : Action.Makes family known next) : Action.Makes family known (.build cell next)
  /-- It gets a new lazy parser that makes parsers of the family only. -/
  | defer {known : Known} {language : InstanceId} {name : String} {make : Maker}
      {next : CellId → Action (Object Parser)} (hhome : Reference.home language ∈ known)
      (hmake : Action.Makes family known make.action)
      (hnext : ∀ larger cell, known ⊆ larger → Reference.cell cell ∈ larger →
        Action.Makes family larger (next cell)) :
      Action.Makes family known (.defer language name make next)
  /-- It gets some new lazy parser of which nothing is known. -/
  | deferUnknown {known : Known} {language : InstanceId} {name : String} {make : Maker}
      {next : CellId → Action (Object Parser)}
      (hnext : ∀ cell, Action.Makes family known (next cell)) :
      Action.Makes family known (.defer language name make next)
  /-- It asks for the stage of a lazy parser. -/
  | inspect {known : Known} {cell : CellId} {next : RuleState → String → Action (Object Parser)}
      (hnext : ∀ state shown, Action.Makes family known (next state shown)) :
      Action.Makes family known (.inspect cell next)
  /-- It asks for an attribute of a language. -/
  | lookUp {known : Known} {language : InstanceId} {name : String}
      {next : Object CellId → Action (Object Parser)}
      (hnext : ∀ larger found, known ⊆ larger →
        (Reference.language language ∈ known → found.Within larger (Reference.cell · ∈ larger)) →
        Action.Makes family larger (next found)) :
      Action.Makes family known (.lookUp language name next)
  /-- It asks for a rule of a language. -/
  | rule {known : Known} {language : InstanceId} {name : String}
      {next : CellId → Action (Object Parser)}
      (hnext : ∀ larger cell, known ⊆ larger →
        (Reference.language language ∈ known → Reference.cell cell ∈ larger) →
        Action.Makes family larger (next cell)) :
      Action.Makes family known (.rule language name next)
  /-- It gets a new language of a known class, with rules that make parsers of the family only. -/
  | create {known : Known} {className : String} {arguments : List (String × Value)}
      {rules : List (String × (Owner → Maker))} {next : InstanceId → Action (Object Parser)}
      (hclass : Reference.className className ∈ known)
      (hrules : ∀ entry ∈ rules, ∀ larger owner, known ⊆ larger →
        Reference.language owner.language ∈ larger → Reference.home owner.language ∈ larger →
        Action.Makes family larger (entry.2 owner).action)
      (hnext : ∀ larger language, known ⊆ larger → Reference.language language ∈ larger →
        Reference.home language ∈ larger → Action.Makes family larger (next language)) :
      Action.Makes family known (.create className arguments rules next)
  /-- It gets some new language of which nothing is known. -/
  | createUnknown {known : Known} {className : String} {arguments : List (String × Value)}
      {rules : List (String × (Owner → Maker))} {next : InstanceId → Action (Object Parser)}
      (hnext : ∀ language, Action.Makes family known (next language)) :
      Action.Makes family known (.create className arguments rules next)
  /-- It asks for what was put aside under a name. -/
  | fetch {known : Known} {name : String} {next : Object Handle → Action (Object Parser)}
      (hnext : ∀ larger found, known ⊆ larger →
        (Reference.shelved name ∈ known → found.Within larger (Handle.Within larger)) →
        Action.Makes family larger (next found)) :
      Action.Makes family known (.fetch name next)
  /-- It asks how often this was asked before. -/
  | count {known : Known} {counter : Nat} {next : Nat → Action (Object Parser)}
      (hnext : ∀ before, Action.Makes family known (next before)) :
      Action.Makes family known (.count counter next)

/-- The body of a rule makes parsers of a family only, once its language is known. -/
def RuleBody.Makes (family : Family) (known : Known) (body : Owner → Action (Object Parser)) :
    Prop :=
  ∀ larger owner, known ⊆ larger → Reference.language owner.language ∈ larger →
    Reference.home owner.language ∈ larger → Action.Makes family larger (body owner)

/-! ## Knowing more -/

section Mono

variable {known larger : Known}

/-- What holds of the known references holds of more references. -/
theorem Object.Within.mono {P : Type} {inside inside' : P → Prop} {object : Object P}
    (hsub : known ⊆ larger) (hinside : ∀ p, inside p → inside' p)
    (h : object.Within known inside) : object.Within larger inside' := by
  cases object with
  | parser p => exact hinside p h
  | value v => trivial
  | table rules => exact fun entry hentry => hsub (h entry hentry)
  | other kind shown => trivial

theorem Handle.Within.mono {handle : Handle} (hsub : known ⊆ larger) (h : handle.Within known) :
    handle.Within larger := by
  cases handle with
  | eof | location => trivial
  | lazy cell => exact hsub h
  | kept number => exact hsub h

end Mono

namespace Action.Makes

variable {family : Family} {known larger : Known} {action : Action (Object Parser)}

/-- A script that makes parsers of a family only still does when more is known. -/
theorem mono (hmono : family.Monotone) (hsub : known ⊆ larger)
    (h : Action.Makes family known action) : Action.Makes family larger action := by
  induction h generalizing larger with
  | parser hp => exact .parser (hmono hsub _ hp)
  | nonParser h => exact .nonParser h
  | raise cause => exact .raise cause
  | note _ ih => exact .note (ih hsub)
  | run _ ih => exact .run fun result => ih result hsub
  | build _ ih => exact .build (ih hsub)
  | defer hhome _ hnext ihmake _ =>
    exact .defer (hsub hhome) (ihmake hsub) fun larger' cell h => hnext larger' cell (hsub.trans h)
  | deferUnknown _ ih => exact .deferUnknown fun cell => ih cell hsub
  | inspect _ ih => exact .inspect fun state shown => ih state shown hsub
  | lookUp hnext _ =>
    exact .lookUp fun larger' found h hfound =>
      hnext larger' found (hsub.trans h) fun hl => hfound (hsub hl)
  | rule hnext _ =>
    exact .rule fun larger' cell h hcell =>
      hnext larger' cell (hsub.trans h) fun hl => hcell (hsub hl)
  | create hclass hrules hnext _ _ =>
    exact .create (hsub hclass)
      (fun entry hentry larger' owner h => hrules entry hentry larger' owner (hsub.trans h))
      fun larger' language h => hnext larger' language (hsub.trans h)
  | createUnknown _ ih => exact .createUnknown fun language => ih language hsub
  | fetch hnext _ =>
    exact .fetch fun larger' found h hfound =>
      hnext larger' found (hsub.trans h) fun hl => hfound (hsub hl)
  | count _ ih => exact .count fun before => ih before hsub

end Action.Makes

end Descent
