import Descent.Grammar
import Descent.Table

/-! # Steps of a session

* **`Session.Target`** — how a step refers to a parser.
* **`Session.MemberStep`** — an attribute of a class that a step defines.
* **`Session.Step`** — the steps.
* **`Session.Answer`** — what they answer. -/

namespace Descent.Session

/-- How a step refers to a parser. -/
inductive Target : Type where
  /-- A rule of a named language, as an attribute or, if `direct`, by the language's own table. -/
  | rule (language rule : String) (direct : Bool)
  /-- A parser that was put aside. -/
  | ref (name : String)
  /-- A grammar, built for the step. -/
  | grammar (grammar : Grammar)
  deriving Inhabited

/-- An attribute of a class. -/
inductive MemberContent : Type where
  /-- A rule. -/
  | rule (grammar : Grammar) (functionName : Option String) (errorName : Option Value)
  /-- Another name for a rule. -/
  | alias (other : String)
  /-- A value. -/
  | value (value : Value)
  deriving Inhabited

/-- An attribute of a class by name. -/
structure MemberStep where
  /-- The name. -/
  name : String
  /-- Whether it is put on the class after that was made. -/
  late : Bool
  /-- What it is. -/
  content : MemberContent
  deriving Inhabited

/-- A step of a session. -/
inductive Step : Type where
  /-- Define a class. -/
  | defineClass (name : String) (bases : List String) (initialises : Bool)
      (members : List MemberStep)
  /-- Make a language of a class. -/
  | makeLanguage (name className : String) (arguments : List (String × Grammar.Expr))
      (rules : Table Grammar)
  /-- Put a parser aside. -/
  | define (name : String) (grammar : Grammar)
  /-- Run a parser. -/
  | run (target : Target) (source : Source) (start : Position)
  /-- Run a parser from the start, with an entry in the log. -/
  | parse (target : Target) (source : Source)
  /-- Parse all of a source. -/
  | tryParse (target : Target) (source : Source)
  /-- Have a lazy parser made. -/
  | build (target : Target)
  /-- Look at a lazy parser. -/
  | inspect (target : Target)
  /-- Compare two parsers. -/
  | same (a b : Target)
  /-- List the rules of a language. -/
  | names (language : String)
  /-- Ask for the stage of a rule. -/
  | state (language rule : String)
  /-- Ask for the text of a language. -/
  | shown (language : String)
  /-- Make a rule definition by itself, from a function of the given name and what else is given:
  a name and an error name, both of which may be left out. -/
  | definition (functionName : String) (arguments : List Value)
  /-- Look up a rule on a class. -/
  | classRule (className rule : String)
  deriving Inhabited

/-- What a step answers. -/
inductive Answer : Type where
  /-- Nothing. -/
  | nothing
  /-- The result of a parser. -/
  | result (result : Result)
  /-- The value of a source that was parsed in full. -/
  | parsed (value : Value)
  /-- A lazy parser was made; `same` says whether it is the one that the last such step gave. -/
  | built (same : Bool)
  /-- A lazy parser: its text, its name and its stage. -/
  | lazy (shown name : String) (state : RuleState)
  /-- What is no lazy parser. -/
  | value (value : Value)
  /-- Whether two parsers are one and the same. -/
  | same (same : Bool)
  /-- The names of rules. -/
  | names (names : List String)
  /-- The stage of a rule. -/
  | state (state : RuleState)
  /-- The text of a language. -/
  | text (text : String)
  /-- The name and the error name of a rule definition. -/
  | definition (name errorName : Value)
  /-- The same for a rule on a class, and whether it stands in the body of that class. -/
  | classRule (name : String) (errorName : Value) (own : Bool)
  deriving Inhabited, Repr

/-- The values in an answer. -/
def Answer.values : Answer → List Value
  | .result r => r.values
  | .parsed v => [v]
  | .value v => [v]
  | _ => []

/-- Whether an answer may be written. -/
def Answer.isWritable (answer : Answer) : Bool := (Value.tuple answer.values).isWritable

end Descent.Session
