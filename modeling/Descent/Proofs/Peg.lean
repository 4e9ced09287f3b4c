import Descent.Regex

/-! # Parsing expressions

The grammars that parsers are meant to follow, and what they mean, apart from all parsers:

* **`Peg`** — parsing expressions over terminals and the names of rules.
* **`Peg.Terminal.takes`** — how much of a source a terminal takes.
* **`Peg.Derives`** — the meaning of an expression as a relation between an index of the source and
  what becomes of the expression there: it stops at an index, or fails. A choice is ordered and
  starts anew at the same index, a sequence goes from left to right, and a repetition takes all that
  it can and never gives anything back. A repetition of something that can match the empty text
  would never end; here such a match ends it, at the index where it began.

The relation is stated for any way in which terminals take their part of the source, so that the
same expressions can be read at indices outside of the source too. -/

namespace Descent

namespace Peg

/-- What takes a part of the source by itself. -/
inductive Terminal : Type where
  /-- A text. -/
  | literal (text : List Char)
  /-- Whatever a regular expression matches. -/
  | pattern (regex : Regex)
  /-- The end of the source. -/
  | finish

/-- How many characters of a source a terminal takes at an index of it, if it matches there. -/
def Terminal.takes (source : Source) : Terminal → Int → Option Nat
  | .literal text, index => if text <+: source.drop index.toNat then some text.length else none
  | .pattern regex, index => (regex.matchAt? source index).map List.length
  | .finish, index => if index = source.length then some 0 else none

end Peg

/-- A parsing expression. -/
inductive Peg : Type where
  /-- The empty text. -/
  | empty
  /-- Nothing at all. -/
  | never
  /-- A terminal. -/
  | terminal (terminal : Peg.Terminal)
  /-- One expression after another. -/
  | seq (first second : Peg)
  /-- One expression or, if it fails, another from the same index. -/
  | choice (first second : Peg)
  /-- An expression as often as it matches. -/
  | star (of : Peg)
  /-- The expression of a rule. -/
  | rule (name : String)

namespace Peg

/-- Several expressions one after another. -/
def all : List Peg → Peg
  | [] => .empty
  | first :: others => .seq first (all others)

/-- The first of several expressions that matches. -/
def first (expr : Peg) (others : List Peg) : Peg := others.foldl .choice expr

/-- The meaning of an expression at an index: where it stops, or nothing if it fails there. -/
inductive Derives (rules : String → Option Peg) (takes : Terminal → Int → Option Nat) :
    Peg → Int → Option Int → Prop where
  /-- The empty text matches everywhere. -/
  | empty {index : Int} : Derives rules takes .empty index (some index)
  /-- Nothing matches nowhere. -/
  | never {index : Int} : Derives rules takes .never index none
  /-- A terminal takes its part. -/
  | taken {terminal : Terminal} {index : Int} {count : Nat}
      (h : takes terminal index = some count) :
      Derives rules takes (.terminal terminal) index (some (index + count))
  /-- A terminal does not match. -/
  | missed {terminal : Terminal} {index : Int} (h : takes terminal index = none) :
      Derives rules takes (.terminal terminal) index none
  /-- A sequence goes on where its first part stopped. -/
  | seq {first second : Peg} {index mid : Int} {outcome : Option Int}
      (hfirst : Derives rules takes first index (some mid))
      (hsecond : Derives rules takes second mid outcome) :
      Derives rules takes (.seq first second) index outcome
  /-- A sequence fails if its first part does. -/
  | seqFailed {first second : Peg} {index : Int} (hfirst : Derives rules takes first index none) :
      Derives rules takes (.seq first second) index none
  /-- A choice is what its first side matches. -/
  | choiceFirst {first second : Peg} {index stop : Int}
      (hfirst : Derives rules takes first index (some stop)) :
      Derives rules takes (.choice first second) index (some stop)
  /-- If that fails, a choice is its second side from the same index. -/
  | choiceSecond {first second : Peg} {index : Int} {outcome : Option Int}
      (hfirst : Derives rules takes first index none)
      (hsecond : Derives rules takes second index outcome) :
      Derives rules takes (.choice first second) index outcome
  /-- A repetition ends where the expression does not match any more. -/
  | starDone {of : Peg} {index : Int} (hof : Derives rules takes of index none) :
      Derives rules takes (.star of) index (some index)
  /-- A repetition ends where the expression matches the empty text. -/
  | starStill {of : Peg} {index : Int} (hof : Derives rules takes of index (some index)) :
      Derives rules takes (.star of) index (some index)
  /-- Otherwise a repetition goes on. -/
  | starMore {of : Peg} {index mid : Int} {outcome : Option Int}
      (hof : Derives rules takes of index (some mid)) (hmid : mid ≠ index)
      (hrest : Derives rules takes (.star of) mid outcome) :
      Derives rules takes (.star of) index outcome
  /-- A rule stands for its expression. -/
  | rule {name : String} {body : Peg} {index : Int} {outcome : Option Int}
      (hname : rules name = some body) (hbody : Derives rules takes body index outcome) :
      Derives rules takes (.rule name) index outcome

variable {rules : String → Option Peg} {takes takes' : Terminal → Int → Option Nat}

/-- A terminal matches as far as it takes the source. -/
theorem Derives.ofTerminal (rules : String → Option Peg) (takes : Terminal → Int → Option Nat)
    (terminal : Terminal) (index : Int) :
    Derives rules takes (.terminal terminal) index
      ((takes terminal index).map fun count : Nat => index + count) := by
  cases h : takes terminal index with
  | none => exact .missed h
  | some count => exact .taken h

/-- Terminals that take the same at all indices of a certain sort, and that stay at such indices,
give expressions the same meaning there. -/
theorem Derives.congr {inside : Int → Prop} {expr : Peg} {index : Int} {outcome : Option Int}
    (hsame : ∀ terminal index, inside index → takes' terminal index = takes terminal index)
    (hstay : ∀ terminal index count, inside index → takes terminal index = some count →
      inside (index + count))
    (h : Derives rules takes expr index outcome) (hindex : inside index) :
    Derives rules takes' expr index outcome ∧ ∀ stop, outcome = some stop → inside stop := by
  induction h with
  | empty => exact ⟨.empty, by rintro _ ⟨⟩; exact hindex⟩
  | never => exact ⟨.never, by rintro _ ⟨⟩⟩
  | taken h =>
    refine ⟨.taken ((hsame _ _ hindex).trans h), ?_⟩
    rintro _ ⟨⟩
    exact hstay _ _ _ hindex h
  | missed h => exact ⟨.missed ((hsame _ _ hindex).trans h), by rintro _ ⟨⟩⟩
  | seq _ _ ihfirst ihsecond =>
    obtain ⟨hfirst, hmid⟩ := ihfirst hindex
    obtain ⟨hsecond, hstop⟩ := ihsecond (hmid _ rfl)
    exact ⟨.seq hfirst hsecond, hstop⟩
  | seqFailed _ ih => exact ⟨.seqFailed (ih hindex).1, by rintro _ ⟨⟩⟩
  | choiceFirst _ ih => exact ⟨.choiceFirst (ih hindex).1, (ih hindex).2⟩
  | choiceSecond _ _ ihfirst ihsecond =>
    obtain ⟨hsecond, hstop⟩ := ihsecond hindex
    exact ⟨.choiceSecond (ihfirst hindex).1 hsecond, hstop⟩
  | starDone _ ih => exact ⟨.starDone (ih hindex).1, by rintro _ ⟨⟩; exact hindex⟩
  | starStill _ ih => exact ⟨.starStill (ih hindex).1, by rintro _ ⟨⟩; exact hindex⟩
  | starMore _ hmid _ ihof ihrest =>
    obtain ⟨hof, hinside⟩ := ihof hindex
    obtain ⟨hrest, hstop⟩ := ihrest (hinside _ rfl)
    exact ⟨.starMore hof hmid hrest, hstop⟩
  | rule hname _ ih => exact ⟨.rule hname (ih hindex).1, (ih hindex).2⟩

end Peg

end Descent
