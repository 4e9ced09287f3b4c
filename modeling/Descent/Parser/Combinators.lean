import Descent.Labelling
import Descent.Parser

/-! # Combinators

The ways to put parsers together that are defined from others: pairs that keep one side, lists with
and without separators, optional parsers, brackets, nodes and choices. At the end stand the parsers
written by hand that only watch or redirect another one. -/

namespace Descent.Parser

/-- A parser with a plain function applied to its value. -/
def mapValue (of : Parser) (fn : Value → Value) : Parser := .map of fun value => .done (fn value)

/-- A parser, then the one that a plain function gives for its value. -/
def andThen (of : Parser) (fn : Value → Parser) : Parser :=
  .chain of fun value => .done (.parser (fn value))

/-- This, then `other`; the value is the pair of both values. -/
def and (self other : Parser) : Parser := .seq [self, other]

/-- This, then `other`; the value is that of `other`. -/
def next (self other : Parser) : Parser := mapValue (.seq [self, other]) (Value.item 1)

/-- This, then `other`; the value is that of this. -/
def skip (self other : Parser) : Parser := mapValue (.seq [self, other]) (Value.item 0)

/-- The first value of a list, then the values of the list that `rest` gives. -/
def consFrom (self rest : Parser) : Parser :=
  self.andThen fun first => rest.mapValue (Value.consTo first)

/-- One or more of this, as a list. -/
def many1 (self : Parser) : Parser := self.consFrom (.many0 self)

/-- One or more of this with `separator` between them, as a list of the values of this. -/
def sepBy1 (self separator : Parser) : Parser := self.consFrom (.many0 (separator.next self))

/-- This, or nothing at all with the given value. -/
def opt (self : Parser) (default : Value) : Parser := .or self (.ok default)

/-- Any number of this with `separator` between them, as a list of the values of this. -/
def sepBy0 (self separator : Parser) : Parser :=
  ((self.sepBy1 separator).opt .nothing).mapValue Value.orEmpty

/-- `before`, then this, then `after`; the value is that of this. -/
def wrap (self before after : Parser) : Parser := (before.next self).skip after

/-- This with `around` before and after it; the value is that of this. -/
def trim (self around : Parser) : Parser := self.wrap around around

/-- The node of a given name for the places and the value that `node` collects. -/
def nodeOf (name : String) : Value → Value
  | .tuple [.position start, value, .position stop] => .node name value start stop
  | other => other

/-- This, with its value and the span that it matched in a node. -/
def node (self : Parser) (name : String) : Parser :=
  mapValue (.seq [.location, self, .location]) (nodeOf name)

/-- The first of several parsers to match, the one given first being tried first. -/
def altOf (first : Parser) (others : List Parser) : Parser := others.foldl .or first

/-- The first of several parsers to match; there has to be at least one. -/
def alt? : List Parser → Except Raised Parser
  | [] => .error .noAlternatives
  | first :: others => .ok (altOf first others)

/-- The parser that fails with the given labels; there has to be at least one, and all have to be
able to stand as keys. -/
def fail? (labels : List Value) : Except Raised Parser :=
  match Labels.ofList? labels with
  | none => .error .unlabelledFail
  | some given => (Value.distinct? labels).map fun _ => .fail given

/-- This, where a failure at the starting place ends the run because labels cannot replace its
own. -/
def undescribed (self : Parser) : Parser :=
  .custom fun source place => .run self source place fun
    | .matched stop value => .done (.matched stop value)
    | .failed failure =>
        if failure.place.index = place.index then .raise .notKey else .done (.failed failure)

/-- This with its failures at the starting place relabelled. It shows only then that a label cannot
stand as a key. -/
def described (self : Parser) (labels : Labels) : Parser :=
  if (labels.first :: labels.others).all Value.isKey then .desc self labels else self.undescribed

/-- This with its failures at the starting place relabelled; there has to be at least one label. -/
def desc? (self : Parser) (labels : List Value) : Except Raised Parser :=
  match Labels.ofList? labels with
  | none => .error .unlabelledDesc
  | some given => .ok (self.described given)

/-- The parser for a regular expression given by its text. -/
def pattern? (text : String) (flags : Regex.Flags) : Except Raised Parser :=
  match Regex.compile? text flags with
  | none => .error .invalidPattern
  | some regex => .ok (.pattern regex)

@[simp] theorem altOf_nil (first : Parser) : altOf first [] = first := rfl

@[simp] theorem altOf_cons (first second : Parser) (others : List Parser) :
    altOf first (second :: others) = altOf (.or first second) others := rfl

/-! ## Parsers written by hand -/

/-- This, with a note each time it is run. -/
def traced (tag : Value) (self : Parser) : Parser :=
  .custom fun source place => .note (.started tag place) (.run self source place .done)

/-- A match of this without consuming anything; a failure is not changed. -/
def peek (self : Parser) : Parser :=
  .custom fun source place => .run self source place fun
    | .matched _ value => .done (.matched place value)
    | .failed failure => .done (.failed failure)

/-- This at the given place, wherever it is run. -/
def runAt (start : Position) (self : Parser) : Parser :=
  .custom fun source _ => .run self source start .done

/-- The parser that ends each run with an error. -/
def raising (cause : Raised) : Parser := .custom fun _ _ => .raise cause

/-! ## Several literals -/

/-- Whether one of several values, tried in order, is a text that stands in a source at an index. A
value that is no text is an error if it is tried. -/
def anyStandsAt (source : Source) (index : Int) : List Value → Except Raised Bool
  | [] => .ok false
  | .str literal :: rest =>
      if source.standsAt literal.toList index then .ok true
      else anyStandsAt source index rest
  | other :: _ => .error (.notLiteralItem other.kind)

/-- The place behind a literal of several items. Each item counts as one character, but a line feed
among them has no place. -/
def behindItems (literal : Value) (items : List Value) (place : Position) :
    Except Raised Position :=
  if items.any (Value.same (.str "\n")) then .error (.noMethod literal.kind "rfind")
  else .ok ⟨place.index + items.length, place.line, place.column + items.length⟩

/-- Match one of the texts among the items of `literal`, which as a whole is both the value and the
label. -/
def textAmong (literal : Value) (items : List Value) : Parser :=
  .custom fun source place =>
    .ofExcept do
      if (← anyStandsAt source place.index items) then
        return .matched (← behindItems literal items place) literal
      else return .failed ⟨place, [literal]⟩

end Descent.Parser
