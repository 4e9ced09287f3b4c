import Descent.Grammar.Build
import Descent.Proofs.Peg

/-! # Rules put together by combinators

A rule of a language is a function that puts a parser together. These are the functions that use
combinators, functions on values and the language's rules, and nothing else.

* **`Body`** — what such a function does, with one constructor for each combinator.
* **`Body.script`** — the script that the function stands for. A rule is an attribute of the
  language; all of them are looked up before the rule's parser is there.
* **`Body.parser`** — the parser that the script makes once the lazy parsers of the rules are known.
* **`Body.peg`** — the parsing expression that the parser is meant to follow.
* **`Mention`** — how a rule refers to another one: as an attribute of the language, or by name.
* **`Body.mentions`** — all such mentions of a rule. -/

namespace Descent

/-- How the function of a rule refers to another rule. -/
inductive Mention : Type where
  /-- As an attribute of the language. -/
  | byAttribute (name : String)
  /-- By name. -/
  | byName (name : String)

/-- The name of the other rule. -/
def Mention.name : Mention → String
  | .byAttribute name => name
  | .byName name => name

/-- What the function of a rule does. -/
inductive Body : Type where
  /-- A text. -/
  | text (literal : String)
  /-- A regular expression. -/
  | pattern (regex : Regex)
  /-- The empty text, with a value. -/
  | ok (value : Value)
  /-- A failure with labels. -/
  | fail (label : String) (others : List String)
  /-- The end of the source. -/
  | eof
  /-- The place in the source. -/
  | location
  /-- Several in turn. -/
  | seq (parts : List Body)
  /-- Two with both values. -/
  | and (a b : Body)
  /-- Two with the value of the second. -/
  | next (a b : Body)
  /-- Two with the value of the first. -/
  | skip (a b : Body)
  /-- One between two others. -/
  | wrap (of before after : Body)
  /-- One between two copies of another. -/
  | trim (of around : Body)
  /-- One with its value and span in a node. -/
  | node (of : Body) (name : String)
  /-- One or else another. -/
  | or (a b : Body)
  /-- The first of several that matches. -/
  | alt (of : Body) (others : List Body)
  /-- One or nothing, with another value. -/
  | opt (of : Body) (default : Value)
  /-- Any number of times. -/
  | many0 (of : Body)
  /-- At least once. -/
  | many1 (of : Body)
  /-- Any number of times with a separator between. -/
  | sepBy0 (of separator : Body)
  /-- At least once with a separator between. -/
  | sepBy1 (of separator : Body)
  /-- One with other labels at its start. -/
  | desc (of : Body) (label : String) (others : List String)
  /-- One with a function applied to its value. -/
  | map (of : Body) (fn : Value → Value)
  /-- A rule of the language. -/
  | rule (mention : Mention)

namespace Body

/-- Labels that are texts. -/
def labels (label : String) (others : List String) : Labels := ⟨.str label, others.map .str⟩

/-- The script of a rule's function for a language. -/
def script (language : InstanceId) : Body → Action (Object Parser)
  | .text literal => return .parser (.text literal)
  | .pattern regex => return .parser (.pattern regex)
  | .ok value => return .parser (.ok value)
  | .fail label others => return .parser (.fail (labels label others))
  | .eof => return .parser .eof
  | .location => return .parser .location
  | .seq parts => do return .parser (.seq ((← scripts parts).map Object.operand))
  | .and a b => do
      let a ← Grammar.receive "and_" (script language a)
      return .parser (a.and (← script language b).operand)
  | .next a b => do
      let a ← Grammar.receive "next" (script language a)
      return .parser (a.next (← script language b).operand)
  | .skip a b => do
      let a ← Grammar.receive "skip" (script language a)
      return .parser (a.skip (← script language b).operand)
  | .wrap of before after => do
      let of ← Grammar.receive "wrap" (script language of)
      let before ← script language before
      let after ← script language after
      return .parser (of.wrap (← .ofExcept (before.receiver "next")) after.operand)
  | .trim of around => do
      let of ← Grammar.receive "trim" (script language of)
      return .parser (of.trim (← Grammar.receive "next" (script language around)))
  | .node of name => do
      return .parser ((← Grammar.receive "node" (script language of)).node name)
  | .or a b => do
      let a ← script language a
      let b ← script language b
      .ofExcept (Grammar.choice [a, b])
  | .alt of others => do
      let of ← script language of
      .ofExcept (Grammar.choice (of :: (← scripts others)))
  | .opt of default => do
      return .parser ((← Grammar.receive "opt" (script language of)).opt default)
  | .many0 of => do return .parser (.many0 (← Grammar.receive "many0" (script language of)))
  | .many1 of => do return .parser (← Grammar.receive "many1" (script language of)).many1
  | .sepBy0 of separator => do
      let of ← Grammar.receive "sep_by0" (script language of)
      return .parser (of.sepBy0 (← Grammar.receive "next" (script language separator)))
  | .sepBy1 of separator => do
      let of ← Grammar.receive "sep_by1" (script language of)
      return .parser (of.sepBy1 (← Grammar.receive "next" (script language separator)))
  | .desc of label others => do
      return .parser ((← Grammar.receive "desc" (script language of)).described
        (labels label others))
  | .map of fn => do
      return .parser ((← Grammar.receive "map" (script language of)).mapValue fn)
  | .rule (.byAttribute name) => Grammar.attributeOf language name
  | .rule (.byName name) => .rule language name fun cell => .done (.parser (.lazy cell))
where
  /-- The scripts of several, one after another. -/
  scripts : List Body → Action (List (Object Parser))
    | [] => .done []
    | of :: others => do
        let first ← script language of
        return first :: (← scripts others)

/-- The parser of a rule, where `cells` are the lazy parsers of the rules. -/
def parser (cells : String → CellId) : Body → Parser
  | .text literal => .text literal
  | .pattern regex => .pattern regex
  | .ok value => .ok value
  | .fail label others => .fail (labels label others)
  | .eof => .eof
  | .location => .location
  | .seq parts => .seq (parsers parts)
  | .and a b => (a.parser cells).and (b.parser cells)
  | .next a b => (a.parser cells).next (b.parser cells)
  | .skip a b => (a.parser cells).skip (b.parser cells)
  | .wrap of before after => (of.parser cells).wrap (before.parser cells) (after.parser cells)
  | .trim of around => (of.parser cells).trim (around.parser cells)
  | .node of name => (of.parser cells).node name
  | .or a b => .or (a.parser cells) (b.parser cells)
  | .alt of others => Parser.altOf (of.parser cells) (parsers others)
  | .opt of default => (of.parser cells).opt default
  | .many0 of => .many0 (of.parser cells)
  | .many1 of => (of.parser cells).many1
  | .sepBy0 of separator => (of.parser cells).sepBy0 (separator.parser cells)
  | .sepBy1 of separator => (of.parser cells).sepBy1 (separator.parser cells)
  | .desc of label others => .desc (of.parser cells) (labels label others)
  | .map of fn => (of.parser cells).mapValue fn
  | .rule mention => .lazy (cells mention.name)
where
  /-- The parsers of several. -/
  parsers : List Body → List Parser
    | [] => []
    | of :: others => of.parser cells :: parsers others

/-- The parsing expression of a rule. -/
def peg : Body → Peg
  | .text literal => .terminal (.literal literal.toList)
  | .pattern regex => .terminal (.pattern regex)
  | .ok _ => .empty
  | .fail _ _ => .never
  | .eof => .terminal .finish
  | .location => .empty
  | .seq parts => .all (pegs parts)
  | .and a b => .all [a.peg, b.peg]
  | .next a b => .all [a.peg, b.peg]
  | .skip a b => .all [a.peg, b.peg]
  | .wrap of before after => .all [.all [before.peg, of.peg], after.peg]
  | .trim of around => .all [.all [around.peg, of.peg], around.peg]
  | .node of _ => .all [.empty, of.peg, .empty]
  | .or a b => .choice a.peg b.peg
  | .alt of others => .first of.peg (pegs others)
  | .opt of _ => .choice of.peg .empty
  | .many0 of => .star of.peg
  | .many1 of => .seq of.peg (.star of.peg)
  | .sepBy0 of separator =>
      .choice (.seq of.peg (.star (.all [separator.peg, of.peg]))) .empty
  | .sepBy1 of separator => .seq of.peg (.star (.all [separator.peg, of.peg]))
  | .desc of _ _ => of.peg
  | .map of _ => of.peg
  | .rule mention => .rule mention.name
where
  /-- The parsing expressions of several. -/
  pegs : List Body → List Peg
    | [] => []
    | of :: others => of.peg :: pegs others

/-- The rules that a rule refers to. -/
def mentions : Body → List Mention
  | .text _ | .pattern _ | .ok _ | .fail _ _ | .eof | .location => []
  | .seq parts => allMentions parts
  | .and a b | .next a b | .skip a b | .or a b => a.mentions ++ b.mentions
  | .wrap of before after => of.mentions ++ (before.mentions ++ after.mentions)
  | .trim of around => of.mentions ++ around.mentions
  | .alt of others => of.mentions ++ allMentions others
  | .sepBy0 of separator | .sepBy1 of separator => of.mentions ++ separator.mentions
  | .node of _ | .opt of _ | .many0 of | .many1 of | .desc of _ _ | .map of _ => of.mentions
  | .rule mention => [mention]
where
  /-- The rules that several refer to. -/
  allMentions : List Body → List Mention
    | [] => []
    | of :: others => of.mentions ++ allMentions others

end Body

end Descent
