import Descent.Grammar
import Descent.Parser.Combinators
import Descent.Table

/-! # Building a grammar

* **`Object.receiver`** — a part on which a combinator is called has to be a parser at once.
* **`Object.operand`** — a part that is handed to a combinator has to be one only when it is run.
* **`Grammar.build`** — the script that puts together what a grammar describes. Its parts are built
  first, in the order in which they are written; the one on which a combinator is called has to be a
  parser before the next one is built, save that both sides of a choice are built before it is made.
  The bodies of chains, of lazy parsers and of rules are built only when they are needed. -/

namespace Descent

namespace Object

/-- The name of a parser's kind in error messages. -/
def parserKind : Parser → String
  | .lazy _ => "LazyParser"
  | _ => "Parser"

/-- The name of an object's kind in error messages. -/
def kind : Object Parser → String
  | .parser p => parserKind p
  | .value v => v.kind
  | .table _ => "dict"
  | .other kind _ => kind

/-- The parser on which a combinator of the given name is called. -/
def receiver (method : String) : Object Parser → Except Raised Parser
  | .parser p => .ok p
  | object => .error (.noMethod object.kind method)

/-- The parser that an object acts as in the hands of a combinator: if it is none, each run ends
with an error. -/
def operand : Object Parser → Parser
  | .parser p => p
  | object => .raising (.noMethod object.kind "run")

@[simp] theorem receiver_eq_ok (method : String) (p : Parser) :
    (Object.parser p).receiver method = .ok p := rfl

@[simp] theorem operand_eq_self (p : Parser) : (Object.parser p).operand = p := rfl

end Object

namespace Grammar

/-- The parser for a text, or for one of several. -/
def textOf : Value → Parser
  | .str literal => .text literal
  | .tuple items => Parser.textAmong (.tuple items) items
  | .position place => Parser.textAmong (.position place) ((Value.coordinates place).map .int)
  | other => .raising (.notLiteral other.kind)

/-- The parser for a regular expression. Flags for one that was compiled before are an error. -/
def patternOf (flags : Regex.Flags) (compiled : Option Regex.Flags) :
    Value → Except Raised Parser
  | .str source =>
      match compiled with
      | none => Parser.pattern? source flags
      | some before => do
          let parser ← Parser.pattern? source before
          if flags = .none then .ok parser else .error .flagsForCompiled
  | other => .error (if other.isKey then .notPattern other.kind else .notKey)

/-- The choice between several objects, the first of which may be no parser if it is the only
one. -/
def choice : List (Object Parser) → Except Raised (Object Parser)
  | [] => .error .noAlternatives
  | [only] => .ok only
  | first :: others => do
      let parser ← first.receiver "or_"
      return .parser (Parser.altOf parser (others.map Object.operand))

/-- Two values joined by the operator for a choice, which numbers and truth values have too. -/
def joined (a b : Value) : Except Raised Value :=
  match a, b with
  | .bool m, .bool n => .ok (.bool (m || n))
  | _, _ => Value.arithmetic "|" (fun m n => .ok (Value.bitwiseOr m n)) a b

/-- The choice between two objects written as an operator. -/
def symbolChoice : Object Parser → Object Parser → Except Raised (Object Parser)
  | .parser p, b => .ok (.parser (.or p b.operand))
  | .value v, .value w => (joined v w).map .value
  | .table rules, .table others => .ok (.table (Table.putAll rules others))
  | a, b => .error (.unfitOperands "|" a.kind b.kind)

/-- A function from parsers to parsers, applied. -/
def Through.apply : Through → Object Parser → Except Raised (Object Parser)
  | .id, object => do return .parser (← object.receiver "thru")
  | .twice, object => do
      let parser ← object.receiver "thru"
      return .parser (.seq [parser, parser])
  | .parens, object => do
      let parser ← object.receiver "thru"
      return .parser (parser.wrap (.text "(") (.text ")"))
  | .csv, object => do
      let parser ← object.receiver "thru"
      return .parser (parser.sepBy0 (.text ","))

/-- The name of a lazy parser made from a function without a name. -/
def anonymous : String := "<lambda>"

/-- The parser that a script makes, on which a combinator of the given name is called. -/
def receive (method : String) (made : Action (Object Parser)) : Action Parser := do
  .ofExcept ((← made).receiver method)

/-- A note about a value, then a script. A note is written at once, so a value that cannot be
written ends the run. -/
def noteOn {α : Type} (value : Value) (event : Event) (next : Action α) : Action α :=
  if value.isWritable then .note event next else .raise .numberTooLong

/-- An attribute of a language as an object. -/
def attributeOf (language : InstanceId) (name : String) : Action (Object Parser) :=
  .lookUp language name fun found => .done (found.map .lazy)

/-- The values of named expressions. -/
def evalArguments (scope : Scope) : List (String × Expr) → Except Raised (List (String × Value))
  | [] => .ok []
  | (name, item) :: rest => do return (name, ← item.eval scope) :: (← evalArguments scope rest)

/-- Put together what a grammar describes. -/
def build (scope : Scope) : Grammar → Action (Object Parser)
  | .text literal => do
      return .parser (textOf (← .ofExcept (literal.eval scope)))
  | .pattern source flags compiled => do
      let text ← .ofExcept (source.eval scope)
      return .parser (← .ofExcept (patternOf flags compiled text))
  | .ok item => do return .parser (.ok (← .ofExcept (item.eval scope)))
  | .fail labels => do
      let values ← .ofExcept (Expr.eval.evalAll scope labels)
      return .parser (← .ofExcept (Parser.fail? values))
  | .eof => return .parser .eof
  | .location => return .parser .location
  | .seq items => do return .parser (.seq ((← buildAll items).map Object.operand))
  | .alt items => do .ofExcept (choice (← buildAll items))
  -- both sides are built before the choice is made
  | .or a b symbol => do
      let a ← build scope a
      let b ← build scope b
      .ofExcept (if symbol then symbolChoice a b else choice [a, b])
  | .and a b => do
      let a ← receive "and_" (build scope a)
      return .parser (a.and (← build scope b).operand)
  | .next a b => do
      let a ← receive "next" (build scope a)
      return .parser (a.next (← build scope b).operand)
  | .skip a b => do
      let a ← receive "skip" (build scope a)
      return .parser (a.skip (← build scope b).operand)
  | .map of fn => do return .parser (.map (← receive "map" (build scope of)) fn.apply)
  | .chain of var body trace => do
      let of ← receive "chain" (build scope of)
      return .parser (.chain of fun value =>
        let rest := build (scope.bind var value) body
        match trace with
        | some tag => noteOn value (.chained tag value) rest
        | none => rest)
  | .many0 of => do return .parser (.many0 (← receive "many0" (build scope of)))
  | .many1 of => do return .parser (← receive "many1" (build scope of)).many1
  | .sepBy0 of separator => do
      let of ← receive "sep_by0" (build scope of)
      return .parser (of.sepBy0 (← receive "next" (build scope separator)))
  | .sepBy1 of separator => do
      let of ← receive "sep_by1" (build scope of)
      return .parser (of.sepBy1 (← receive "next" (build scope separator)))
  | .opt of default => do
      let of ← receive "opt" (build scope of)
      return .parser (of.opt (← .ofExcept (default.eval scope)))
  | .desc of labels => do
      let of ← receive "desc" (build scope of)
      let values ← .ofExcept (Expr.eval.evalAll scope labels)
      return .parser (← .ofExcept (of.desc? values))
  | .wrap of before after => do
      let of ← receive "wrap" (build scope of)
      let before ← build scope before
      let after ← build scope after
      return .parser (of.wrap (← .ofExcept (before.receiver "next")) after.operand)
  | .trim of around => do
      let of ← receive "trim" (build scope of)
      return .parser (of.trim (← receive "next" (build scope around)))
  | .node of name => do return .parser ((← receive "node" (build scope of)).node name)
  | .thru of fn => do .ofExcept (fn.apply (← build scope of))
  | .lazy of name trace =>
      let made :=
        match trace with
        | some tag => .note (.made tag) (build scope of)
        | none => build scope of
      .defer scope.owner.language (name.getD anonymous) (.mk made)
        fun cell => .done (.parser (.lazy cell))
  | .rule name => attributeOf scope.owner.language name
  | .getRule name =>
      .rule scope.owner.language name fun cell => .done (.parser (.lazy cell))
  | .ref name => .fetch name fun found => .done (found.map Handle.parser)
  | .create className arguments name => do
      let values ← .ofExcept (evalArguments scope arguments)
      .create className values [] fun language => attributeOf language name
  -- only the grammar that is chosen is built
  | .cond test yes no => do
      if (← .ofExcept (test.eval scope)) then build scope yes else build scope no
  | .traced of tag => do
      let of ← build scope of
      return .parser (.traced tag of.operand)
  | .peek of => do
      let of ← build scope of
      return .parser (.peek of.operand)
  | .runAt of start => do
      let of ← build scope of
      return .parser (.runAt start of.operand)
  | .value item => do return .value (← .ofExcept (item.eval scope))
  | .raise kind message => .raise (.own kind message)
  | .observe name of =>
      .rule scope.owner.language name fun cell =>
        .inspect cell fun state shown => .note (.observed state shown) (build scope of)
  | .runNow name source of =>
      .rule scope.owner.language name fun cell =>
        .run (.lazy cell) source.toList .start fun result =>
          noteOn (.tuple result.values) (.ran name result) (build scope of)
  -- the count goes up first, so that an item that asks again gets the next one
  | .nth counter items => .count counter fun before => buildNth items before
where
  /-- Put together what several grammars describe, one after another. -/
  buildAll : List Grammar → Action (List (Object Parser))
    | [] => .done []
    | item :: rest => do
        let first ← build scope item
        return first :: (← buildAll rest)
  /-- Put together the grammar at an index, or the last one. -/
  buildNth : List Grammar → Nat → Action (Object Parser)
    | [], _ => .raise (.indexOutOfRange "list")
    | [last], _ => build scope last
    | item :: _, 0 => build scope item
    | _ :: rest, index + 1 => buildNth rest index

end Grammar

end Descent
