import Descent.Text.Category

/-! # Regular expressions

The expressions that a backtracking matcher runs, and the sets of characters that they test.

* **`Regex.Flags`** — ignore case, let anchors match at line breaks, let the dot match line feeds,
  and skip blanks and comments in the expression's text.
* **`Regex.CharSet`** — the characters named by a class in square brackets, by a category or by a
  single character.
* **`Regex.Pattern`** — the expressions themselves.
* **`Regex.Pattern.width?`** — the one length of all the texts that an expression can match, if they
  have one; a look behind steps back by it. -/

namespace Descent.Regex

open Text

/-- How an expression is read and matched. -/
structure Flags where
  /-- An ASCII letter stands for both of its cases. -/
  ignoreCase : Bool
  /-- The start and end anchors match next to every line feed. -/
  multiline : Bool
  /-- The dot matches line feeds too. -/
  dotAll : Bool
  /-- Blanks and comments in the text of the expression mean nothing. -/
  verbose : Bool
  deriving DecidableEq, Inhabited, Repr

/-- No flag is set. -/
def Flags.none : Flags := ⟨false, false, false, false⟩

/-- The flags set on either side. -/
def Flags.union (a b : Flags) : Flags :=
  ⟨a.ignoreCase || b.ignoreCase, a.multiline || b.multiline, a.dotAll || b.dotAll,
    a.verbose || b.verbose⟩

/-- One entry of a set of characters. -/
inductive Entry : Type where
  /-- The characters between two code points, both included. -/
  | range (low high : Nat)
  /-- The decimal digits. -/
  | digit
  /-- White space. -/
  | space
  /-- Word characters. -/
  | word
  /-- What is no decimal digit. -/
  | nonDigit
  /-- What is no white space. -/
  | nonSpace
  /-- What is no word character. -/
  | nonWord
  deriving DecidableEq, Inhabited, Repr

/-- Whether a character is in an entry. -/
def Entry.holds (c : Char) : Entry → Bool
  | .range low high => low ≤ c.toNat && c.toNat ≤ high
  | .digit => Category.isDigit c
  | .space => Category.isSpace c
  | .word => Category.isWord c
  | .nonDigit => !Category.isDigit c
  | .nonSpace => !Category.isSpace c
  | .nonWord => !Category.isWord c

/-- A set of characters: those in one of its entries, or, if negated, those in none. -/
structure CharSet where
  /-- Whether the entries are what the set leaves out. -/
  negated : Bool
  /-- The entries. -/
  entries : List Entry
  deriving DecidableEq, Inhabited, Repr

namespace CharSet

/-- The set of the single character with the given code point. -/
def single (code : Nat) : CharSet := ⟨false, [.range code code]⟩

/-- Whether a set holds a character as it is, or in one of its cases if case is ignored. -/
def holds (ignoreCase : Bool) (set : CharSet) (c : Char) : Bool :=
  let listed := set.entries.any fun entry =>
    entry.holds c || (ignoreCase && (entry.holds c.toLower || entry.holds c.toUpper))
  listed != set.negated

end CharSet

/-- The places that an anchor can hold at. -/
inductive Anchor : Type where
  /-- The start of the text, or of a line. -/
  | lineStart
  /-- The end of the text, the place before a line feed that ends it, or the end of a line. -/
  | lineEnd
  /-- The start of the text. -/
  | textStart
  /-- The end of the text. -/
  | textEnd
  /-- Between a word character and something else. -/
  | wordEdge
  /-- Anywhere in a text that has characters, but not between a word character and something
  else. -/
  | notWordEdge
  deriving DecidableEq, Inhabited, Repr

/-- How many copies a repetition prefers. -/
inductive Greed : Type where
  /-- As many as possible, giving copies back when what follows fails. -/
  | greedy
  /-- As few as possible. -/
  | reluctant
  /-- As many as possible, giving nothing back. -/
  | possessive
  deriving DecidableEq, Inhabited, Repr

/-- Regular expressions. -/
inductive Pattern : Type where
  /-- The empty text. -/
  | empty
  /-- Any character; a line feed only if the flags say so. -/
  | any
  /-- One character of a set. -/
  | one (set : CharSet)
  /-- One expression, then another. -/
  | cat (first second : Pattern)
  /-- One expression, or else another. -/
  | alt (first second : Pattern)
  /-- An expression whose text is remembered under a number. -/
  | group (number : Nat) (body : Pattern)
  /-- The text last remembered under a number. -/
  | again (number : Nat)
  /-- Copies of an expression: at least so many, and at most so many if there is a bound. -/
  | copies (greed : Greed) (least : Nat) (most : Option Nat) (body : Pattern)
  /-- An expression of which only the first way to match is tried. -/
  | atomic (body : Pattern)
  /-- Whether an expression matches at this place, or does not; nothing is consumed. -/
  | ahead (wanted : Bool) (body : Pattern)
  /-- Whether an expression of the given width matches up to this place, or does not. -/
  | behind (wanted : Bool) (width : Nat) (body : Pattern)
  /-- A place where an anchor holds. -/
  | anchor (place : Anchor)
  deriving DecidableEq, Inhabited, Repr

namespace Pattern

/-- The expression for a character with the given code point. -/
def literal (code : Nat) : Pattern := .one (.single code)

/-- The one length of all texts that an expression can match, if they have one. `groups` says the
same of the groups by their numbers. -/
def width? (groups : Nat → Option Nat) : Pattern → Option Nat
  | .empty => some 0
  | .any => some 1
  | .one _ => some 1
  | .cat first second => do return (← first.width? groups) + (← second.width? groups)
  | .alt first second => do
      let width ← first.width? groups
      if (← second.width? groups) = width then some width else none
  | .group _ body => body.width? groups
  | .again number => groups number
  | .copies _ least most body =>
      -- no copies have no length, whatever one copy has
      if most = some 0 then some 0
      else do
        let width ← body.width? groups
        if most = some least then some (width * least)
        else if width = 0 then some 0 else none
  | .atomic body => body.width? groups
  | .ahead .. => some 0
  | .behind .. => some 0
  | .anchor _ => some 0

end Pattern

end Descent.Regex
