import Descent.Report
import Descent.Text.Numeral

/-! # The words for an error

* **`Raised.message`** — the words for each cause.
* **`Raised.settled`** — the error that a reader sees. The words for a source that was not parsed
  are its report, and where that cannot be written, the reason takes its place. -/

namespace Descent.Raised

open Text.Quoted (quote)

/-- How much of a text that is no numeral is shown. -/
def shownNumeralLength : Nat := 200

/-- The words for an error, if there are any of its own. -/
def words : Raised → String
  | .own .key message => quote message
  | .own _ message => message
  | .noAlternatives => "alt() needs at least one parser"
  | .unlabelledFail => "fail() needs at least one label"
  | .unlabelledDesc => "desc() needs at least one label"
  | .invalidPattern => "invalid pattern"
  | .flagsForCompiled => "cannot process flags argument with a compiled pattern"
  | .nameTaken rule className =>
      s!"Rule name {quote rule} collides with an attribute of {className}"
  | .chainedNonParser shown => s!"chain() function returned {shown}, not a Parser"
  | .builtNonParser rule shown => s!"Rule {rule} produced {shown}, which is not a Parser"
  | .noRule rule className => s!"{className} has no rule named {quote rule}"
  | .reservedName name => name
  | .uninitialised className => s!"{className} did not call Language.__init__()"
  | .noClassAttribute className name => s!"type object '{className}' has no attribute '{name}'"
  | .repeatedBase className => s!"duplicate base class {className}"
  | .inconsistentBases classNames =>
      "Cannot create a consistent method resolution\norder (MRO) for bases "
        ++ ", ".intercalate classNames
  | .unknownName name => quote name
  | .notCallable kind => s!"'{kind}' object is not callable"
  | .tooManyArguments given =>
      "RuleDefinition.__init__() takes from 2 to 4 positional arguments but "
        ++ s!"{given + 2} were given"
  | .noMethod kind name => s!"'{kind}' object has no attribute '{name}'"
  | .badNumeral text =>
      "invalid literal for int() with base 10: "
        ++ String.ofList ((Text.Quoted.quoted text.toList).take shownNumeralLength)
  | .numeralTooLong digits =>
      s!"Exceeds the limit ({Text.Numeral.longest} digits) for integer string conversion: "
        ++ s!"value has {digits} digits; use sys.set_int_max_str_digits() to increase the limit"
  | .numberTooLong =>
      s!"Exceeds the limit ({Text.Numeral.longest} digits) for integer string conversion; "
        ++ "use sys.set_int_max_str_digits() to increase the limit"
  | .indexOutOfRange kind => s!"{kind} index out of range"
  | .indexTooLarge => "cannot fit 'int' into an index-sized integer"
  | .placeTooLarge => "Python int too large to convert to C ssize_t"
  | .countTooLarge => "cannot fit 'int' into an index-sized integer"
  | .repeatedTooLong => "repeated string is too long"
  | .outOfMemory => ""
  | .divisionByZero => "integer division or modulo by zero"
  | .unordered symbol left right =>
      s!"'{symbol}' not supported between instances of '{left}' and '{right}'"
  | .unfitOperands symbol left right =>
      s!"unsupported operand type(s) for {symbol}: '{left}' and '{right}'"
  | .notConcatenable left right => s!"can only concatenate {left} (not \"{right}\") to {left}"
  | .notCount kind => s!"can't multiply sequence by non-int of type '{kind}'"
  | .unfitNegation kind => s!"bad operand type for unary -: '{kind}'"
  | .notNumeric kind =>
      "int() argument must be a string, a bytes-like object or a real number, not "
        ++ s!"'{kind}'"
  | .noLength kind => s!"object of type '{kind}' has no len()"
  | .notIterable kind => s!"'{kind}' object is not iterable"
  | .notSubscriptable kind => s!"'{kind}' object is not subscriptable"
  | .notUnpackable kind => s!"cannot unpack non-iterable {kind} object"
  | .tooFewItems wanted given =>
      s!"not enough values to unpack (expected {wanted}, got {given})"
  | .tooManyItems wanted => s!"too many values to unpack (expected {wanted})"
  | .notJoinable => "can only join an iterable"
  | .notSpreadable kind => s!"Value after * must be an iterable, not {kind}"
  | .notText index kind => s!"sequence item {index}: expected str instance, {kind} found"
  | .notKey => "unhashable type: 'list'"
  | .notLiteral kind => s!"startswith first arg must be str or a tuple of str, not {kind}"
  | .notLiteralItem kind => s!"tuple for startswith must only contain str, not {kind}"
  | .notPattern _ => "first argument must be string or compiled pattern"
  | .unparsed source failure => (Report.text source failure).toOption.getD ""

/-- The error that a reader sees: where a report cannot be written, the reason for that. -/
def settled : Raised → Raised
  | .unparsed source failure =>
      match Report.text source failure with
      | .ok _ => .unparsed source failure
      | .error cause => cause
  | cause => cause

/-- The words for an error as a reader sees it. -/
def message (raised : Raised) : String := raised.settled.words

end Descent.Raised
