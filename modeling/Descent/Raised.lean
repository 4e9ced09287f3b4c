import Descent.Result

/-! # Errors that end a run

A failure to match is a result and lets another alternative be tried; what is collected here is not,
but ends the whole run.

* **`Raised`** — the causes: misuse of a combinator, a rule or chain function that made no parser, a
  name that no language or session knows, a value unfit for the function applied to it, a number
  beyond a limit, an error that a grammar raises of its own, and a text that does not parse where it
  had to.

The words for each cause are in `Descent.Raised.Message`. -/

namespace Descent

/-- The kinds of error that a grammar can raise of its own. -/
inductive OwnKind : Type where
  /-- A value that is not acceptable. -/
  | value
  /-- A key that is missing. -/
  | key
  /-- Any other trouble. -/
  | runtime
  deriving DecidableEq, Inhabited, Repr

/-- The causes for which a run ends without a result. -/
inductive Raised : Type where
  /-- A grammar raised an error of its own. -/
  | own (kind : OwnKind) (message : String)
  /-- A choice between no parsers was asked for. -/
  | noAlternatives
  /-- A parser that always fails was asked for without a label. -/
  | unlabelledFail
  /-- A parser was to be labelled, but without a label. -/
  | unlabelledDesc
  /-- A regular expression is not well formed. -/
  | invalidPattern
  /-- Flags were given for a regular expression that had been compiled already. -/
  | flagsForCompiled
  /-- A rule from a mapping has the name of an attribute of the class. -/
  | nameTaken (rule className : String)
  /-- A chain function made something, shown here, that is no parser. -/
  | chainedNonParser (shown : String)
  /-- A rule made something, shown here, that is no parser. -/
  | builtNonParser (rule shown : String)
  /-- A language has no rule of that name. -/
  | noRule (rule className : String)
  /-- An attribute with a reserved name does not exist. -/
  | reservedName (name : String)
  /-- A language was used without having been initialised. -/
  | uninitialised (className : String)
  /-- A class has no attribute of that name. -/
  | noClassAttribute (className name : String)
  /-- A class was given the same base twice. -/
  | repeatedBase (className : String)
  /-- The bases of a class cannot be brought into one order. -/
  | inconsistentBases (classNames : List String)
  /-- A name stands for nothing. -/
  | unknownName (name : String)
  /-- Something of that kind was called as if it were a function. -/
  | notCallable (kind : String)
  /-- A rule definition was given that many arguments besides its function. -/
  | tooManyArguments (given : Nat)
  /-- A value of that kind has no method of that name. -/
  | noMethod (kind name : String)
  /-- A text is not a numeral. -/
  | badNumeral (text : String)
  /-- A numeral has that many digits, which is beyond the limit. -/
  | numeralTooLong (digits : Nat)
  /-- An integer has more digits than may be written. -/
  | numberTooLong
  /-- A sequence, of the kind named, has no item at the index asked for. -/
  | indexOutOfRange (kind : String)
  /-- An index is beyond the numbers that a sequence can have. -/
  | indexTooLarge
  /-- A place is beyond the numbers that a source can have. -/
  | placeTooLarge
  /-- A sequence was to be repeated more often than can be counted. -/
  | countTooLarge
  /-- A text was to be repeated to more characters than can be counted. -/
  | repeatedTooLong
  /-- A sequence was to become longer than any that can be held. -/
  | outOfMemory
  /-- A number was divided by zero. -/
  | divisionByZero
  /-- Two values of these kinds have no order. -/
  | unordered (symbol left right : String)
  /-- Two values of these kinds cannot be combined by that operation. -/
  | unfitOperands (symbol left right : String)
  /-- Only a sequence of the left kind can be appended, not a value of the right kind. -/
  | notConcatenable (left right : String)
  /-- A sequence was to be repeated as often as a value of that kind says. -/
  | notCount (kind : String)
  /-- A value of that kind has no negative. -/
  | unfitNegation (kind : String)
  /-- A value of that kind cannot be read as an integer. -/
  | notNumeric (kind : String)
  /-- A value of that kind has no length. -/
  | noLength (kind : String)
  /-- A value of that kind has no items to go through. -/
  | notIterable (kind : String)
  /-- A value of that kind has no items to pick from. -/
  | notSubscriptable (kind : String)
  /-- A value of that kind was to be taken apart, but has no items. -/
  | notUnpackable (kind : String)
  /-- A sequence was to be taken apart into so many items, but has only `given`. -/
  | tooFewItems (wanted given : Nat)
  /-- A sequence was to be taken apart into so many items, but has more. -/
  | tooManyItems (wanted : Nat)
  /-- What was to be joined to one text has no items. -/
  | notJoinable
  /-- A value of that kind was to be spread out over a list. -/
  | notSpreadable (kind : String)
  /-- An item to be joined to a text is of that kind, which is no text. -/
  | notText (index : Nat) (kind : String)
  /-- A value that holds a list was to stand as a key. -/
  | notKey
  /-- A value of that kind was given as the literal of a text parser. -/
  | notLiteral (kind : String)
  /-- A value of that kind was given among the literals of a text parser. -/
  | notLiteralItem (kind : String)
  /-- A value of that kind was given as a regular expression. -/
  | notPattern (kind : String)
  /-- A source that had to be parsed in full was not. -/
  | unparsed (source : Source) (failure : Failure)
  deriving DecidableEq, Inhabited, Repr

end Descent
