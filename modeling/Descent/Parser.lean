import Descent.Regex
import Descent.Script

/-! # Parsers

A parser is a function from a source and a place in it to a result. What it does is fixed by how it
is put together:

* **`Parser`** — the primitives, the combinators that all others are defined from, references to
  parsers that a store keeps, and parsers written by hand.
* **`Maker`** — the script by which a lazy parser is made when it is first run.
* **`Action`** — scripts over these two.
* **`Parser.handle?`** — what a parser can be recognised by, if it can be.

What running a parser means is defined in `Descent.Engine`. -/

namespace Descent

mutual

/-- A parser. -/
inductive Parser : Type where
  /-- Match exactly the given text, which is also the label. -/
  | text (literal : String)
  /-- Match a regular expression. -/
  | pattern (regex : Regex)
  /-- Match nothing, with the given value. -/
  | ok (value : Value)
  /-- Fail with the given labels. -/
  | fail (labels : Labels)
  /-- Match nothing at the end of the source. -/
  | eof
  /-- Match nothing; the value is the place. -/
  | location
  /-- Each of some parsers in turn; the value is the tuple of their values. -/
  | seq (parts : List Parser)
  /-- One parser or, if it fails, another from the same place. -/
  | or (first second : Parser)
  /-- A parser with a function applied to its value. -/
  | map (of : Parser) (fn : Value → Script Parser Maker Value)
  /-- A parser, then the one that a function makes for its value. -/
  | chain (of : Parser) (fn : Value → Script Parser Maker (Object Parser))
  /-- A parser as often as it matches and consumes something; the value is the list of values. -/
  | many0 (of : Parser)
  /-- A parser with its failures at the starting place relabelled. -/
  | desc (of : Parser) (labels : Labels)
  /-- The parser that a cell of the store holds or will hold. -/
  | lazy (cell : CellId)
  /-- A parser that the store keeps under a number. -/
  | kept (number : Nat)
  /-- A parser written by hand. -/
  | custom (action : Source → Position → Script Parser Maker Result)

/-- A script that makes a parser, to be performed later. -/
inductive Maker : Type where
  /-- The script. -/
  | mk (action : Script Parser Maker (Object Parser))

end

instance : Inhabited Parser := ⟨.eof⟩

instance : Inhabited Maker := ⟨⟨.done (.value .nothing)⟩⟩

/-- The scripts of a grammar's functions. -/
abbrev Action (α : Type) := Script Parser Maker α

/-- The script of a maker. -/
def Maker.action : Maker → Action (Object Parser)
  | .mk action => action

@[simp] theorem Maker.action_mk (action : Action (Object Parser)) :
    (Maker.mk action).action = action := rfl

/-- The parser with a given handle. -/
def Handle.parser : Handle → Parser
  | .eof => .eof
  | .location => .location
  | .lazy cell => .lazy cell
  | .kept number => .kept number

namespace Parser

/-- What a parser can be recognised by. A parser without a handle is known to nobody but its
maker. -/
def handle? : Parser → Option Handle
  | .eof => some .eof
  | .location => some .location
  | .lazy cell => some (.lazy cell)
  | .kept number => some (.kept number)
  | _ => none

/-- A parser is recognised by its handle. -/
@[simp] theorem handle?_handle (handle : Handle) : handle.parser.handle? = some handle := by
  cases handle <;> rfl

/-- A handle stands for one parser only. -/
theorem parser_of_handle? {parser : Parser} {handle : Handle} (h : parser.handle? = some handle) :
    handle.parser = parser := by
  cases parser <;> simp [handle?] at h <;> subst h <;> rfl

end Parser

end Descent
