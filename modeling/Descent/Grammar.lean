import Descent.Grammar.Expr
import Descent.Grammar.Function

/-! # Grammars

A grammar describes how a parser is put together. It is data, and the same grammar can be built in
many scopes: inside of a chain it can refer to the values that the chain binds, and inside of a rule
to the language that the rule belongs to.

* **`Grammar`** — the descriptions: one for each primitive and each combinator, the ways to refer to
  rules and to parsers that were put aside, and what only a rule, a lazy parser or the body of a
  chain can do.

What a grammar describes is defined in `Descent.Grammar.Build`. -/

namespace Descent

/-- A function from parsers to parsers. -/
inductive Grammar.Through : Type where
  /-- The parser itself. -/
  | id
  /-- The parser twice, one after the other. -/
  | twice
  /-- The parser between round brackets. -/
  | parens
  /-- The parser any number of times with commas between. -/
  | csv
  deriving DecidableEq, Inhabited, Repr

/-- A description of how a parser is put together. -/
inductive Grammar : Type where
  /-- A text. -/
  | text (literal : Grammar.Expr)
  /-- A regular expression with flags; `compiled` are the flags it was compiled with before. -/
  | pattern (source : Grammar.Expr) (flags : Regex.Flags) (compiled : Option Regex.Flags)
  /-- Nothing, with a value. -/
  | ok (value : Grammar.Expr)
  /-- A failure with labels. -/
  | fail (labels : List Grammar.Expr)
  /-- The end of the source. -/
  | eof
  /-- The place in the source. -/
  | location
  /-- Several parsers in turn. -/
  | seq (items : List Grammar)
  /-- The first of several parsers that matches. -/
  | alt (items : List Grammar)
  /-- One parser or else another; `symbol` says that the choice is written as an operator. -/
  | or (a b : Grammar) (symbol : Bool)
  /-- Two parsers with both values. -/
  | and (a b : Grammar)
  /-- Two parsers with the value of the second. -/
  | next (a b : Grammar)
  /-- Two parsers with the value of the first. -/
  | skip (a b : Grammar)
  /-- A function applied to the value. -/
  | map (of : Grammar) (fn : Grammar.Function)
  /-- A parser, then the one that `body` describes with the value bound to a name. -/
  | chain (of : Grammar) (var : String) (body : Grammar) (trace : Option Value)
  /-- Any number of times. -/
  | many0 (of : Grammar)
  /-- At least once. -/
  | many1 (of : Grammar)
  /-- Any number of times with a separator between. -/
  | sepBy0 (of separator : Grammar)
  /-- At least once with a separator between. -/
  | sepBy1 (of separator : Grammar)
  /-- Once, or not at all with another value. -/
  | opt (of : Grammar) (default : Grammar.Expr)
  /-- With other labels at its start. -/
  | desc (of : Grammar) (labels : List Grammar.Expr)
  /-- Between two others. -/
  | wrap (of before after : Grammar)
  /-- Between two copies of another. -/
  | trim (of around : Grammar)
  /-- With its value and span in a node. -/
  | node (of : Grammar) (name : String)
  /-- With a function from parsers to parsers applied. -/
  | thru (of : Grammar) (fn : Grammar.Through)
  /-- Put together when it is first run. -/
  | lazy (of : Grammar) (name : Option String) (trace : Option Value)
  /-- An attribute of the language. -/
  | rule (name : String)
  /-- A rule of the language. -/
  | getRule (name : String)
  /-- A parser that was put aside. -/
  | ref (name : String)
  /-- An attribute of a new language of the named class. -/
  | create (className : String) (arguments : List (String × Grammar.Expr)) (rule : String)
  /-- One of two grammars, chosen when it is built. -/
  | cond (test : Grammar.Test) (yes no : Grammar)
  /-- With a note each time it is run. -/
  | traced (of : Grammar) (tag : Value)
  /-- Without consuming anything. -/
  | peek (of : Grammar)
  /-- At a place of its own. -/
  | runAt (of : Grammar) (start : Position)
  /-- No parser, but a value. -/
  | value (value : Grammar.Expr)
  /-- An error. -/
  | raise (kind : OwnKind) (message : String)
  /-- A note on a rule, then the grammar. -/
  | observe (name : String) (of : Grammar)
  /-- A rule run at once, with a note of the result, then the grammar. -/
  | runNow (name : String) (source : String) (of : Grammar)
  /-- Each time another of several grammars, and then always the last. -/
  | nth (counter : Nat) (items : List Grammar)
  deriving Inhabited

end Descent
