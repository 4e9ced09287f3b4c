import Descent.Regex.Pattern

/-! # Matching a regular expression

Matching goes from left to right and backtracks: each expression is given what follows it as a
function, tries its ways of matching in order of preference, and takes the first after which what
follows succeeds.

* **`Regex.Cursor`** — a place in a text, with the text on both sides and what groups have matched.
* **`Regex.Pattern.run`** — an expression at a cursor.
* **`Regex.greedyLoop`**, **`Regex.reluctantLoop`**, **`Regex.possessiveLoop`** — repetitions beyond
  the least number of copies. A copy that consumes nothing is the last.
* **`Regex.Pattern.matchFrom?`** — the text that an expression matches at a place. -/

namespace Descent.Regex

open Text

/-- A place in a text, and what groups have matched so far. -/
structure Cursor where
  /-- How many characters lie before the place. -/
  index : Nat
  /-- The characters before the place, the nearest first. -/
  before : List Char
  /-- The characters after the place. -/
  after : List Char
  /-- The texts that groups have matched, the latest first. -/
  groups : List (Nat × List Char)
  deriving Inhabited, Repr

/-- What is tried after an expression has matched. -/
abbrev Continuation := Cursor → Option Cursor

namespace Cursor

/-- The cursor past the next character. -/
def step (cursor : Cursor) (c : Char) (rest : List Char) : Cursor :=
  { cursor with index := cursor.index + 1, before := c :: cursor.before, after := rest }

/-- The cursor past the next character, if that one passes a test. -/
def stepIf? (test : Char → Bool) (cursor : Cursor) : Option Cursor :=
  match cursor.after with
  | [] => none
  | c :: rest => if test c then some (cursor.step c rest) else none

/-- The cursor so many characters back. -/
def back? (width : Nat) (cursor : Cursor) : Option Cursor :=
  if width ≤ cursor.before.length then
    some { cursor with
      index := cursor.index - width
      before := cursor.before.drop width
      after := (cursor.before.take width).reverse ++ cursor.after }
  else none

/-- The cursor past a given text. -/
def past? (sameChar : Char → Char → Bool) : List Char → Cursor → Option Cursor
  | [], cursor => some cursor
  | c :: text, cursor => (cursor.stepIf? (sameChar c)).bind (past? sameChar text)

/-- Whether a word character and something else stand on the two sides. -/
def atWordEdge (cursor : Cursor) : Bool :=
  cursor.before.head?.any Category.isWord != cursor.after.head?.any Category.isWord

/-- Whether an anchor holds at the cursor. -/
def holds (flags : Flags) (cursor : Cursor) : Anchor → Bool
  | .lineStart => cursor.before.isEmpty || (flags.multiline && cursor.before.head? == some '\n')
  | .lineEnd =>
      cursor.after.isEmpty || cursor.after == ['\n']
        || (flags.multiline && cursor.after.head? == some '\n')
  | .textStart => cursor.before.isEmpty
  | .textEnd => cursor.after.isEmpty
  | .wordEdge => cursor.atWordEdge
  | .notWordEdge => !(cursor.before.isEmpty && cursor.after.isEmpty) && !cursor.atWordEdge

/-- The text last remembered under a group's number. -/
def remembered? (cursor : Cursor) (number : Nat) : Option (List Char) :=
  (cursor.groups.find? (·.1 == number)).map (·.2)

end Cursor

/-- So many copies of an expression, one after another. -/
def exactly (body : Cursor → Continuation → Option Cursor) :
    Nat → Cursor → Continuation → Option Cursor
  | 0, cursor, next => next cursor
  | count + 1, cursor, next => body cursor fun cursor => exactly body count cursor next

/-- Whether a repetition is at its end: no copy is left, or the last copy consumed nothing. -/
def finished (left : Option Nat) (last : Option Nat) (cursor : Cursor) : Bool :=
  left == some 0 || last == some cursor.index

/-- More copies as long as they match, then what follows. `left` is how many copies are allowed,
`last` where the last one began. -/
def greedyLoop (body : Cursor → Continuation → Option Cursor) (next : Continuation) :
    Nat → Option Nat → Option Nat → Cursor → Option Cursor
  | 0, _, _, cursor => next cursor
  | fuel + 1, left, last, cursor =>
      if finished left last cursor then next cursor
      else
        match body cursor (greedyLoop body next fuel (left.map (· - 1)) (some cursor.index)) with
        | some done => some done
        | none => next cursor

/-- What follows, or else one more copy and again. -/
def reluctantLoop (body : Cursor → Continuation → Option Cursor) (next : Continuation) :
    Nat → Option Nat → Option Nat → Cursor → Option Cursor
  | 0, _, _, cursor => next cursor
  | fuel + 1, left, last, cursor =>
      match next cursor with
      | some done => some done
      | none =>
          if finished left last cursor then none
          else body cursor (reluctantLoop body next fuel (left.map (· - 1)) (some cursor.index))

/-- The cursor after as many copies as match, each in its first way. -/
def possessiveLoop (body : Cursor → Continuation → Option Cursor) :
    Nat → Option Nat → Option Nat → Cursor → Cursor
  | 0, _, _, cursor => cursor
  | fuel + 1, left, last, cursor =>
      if finished left last cursor then cursor
      else
        match body cursor some with
        | some done => possessiveLoop body fuel (left.map (· - 1)) (some cursor.index) done
        | none => cursor

/-- The cursor after so many copies, each in its first way. -/
def exactlyFirst (body : Cursor → Continuation → Option Cursor) : Nat → Cursor → Option Cursor
  | 0, cursor => some cursor
  | count + 1, cursor => (body cursor some).bind (exactlyFirst body count)

/-- Whether two characters count as the same. -/
def sameChar (ignoreCase : Bool) (a b : Char) : Bool :=
  a == b || (ignoreCase && a.toLower == b.toLower)

namespace Pattern

/-- An expression at a cursor, followed by `next`. -/
def run (flags : Flags) : Pattern → Cursor → Continuation → Option Cursor
  | .empty, cursor, next => next cursor
  | .any, cursor, next => (cursor.stepIf? fun c => flags.dotAll || c != '\n').bind next
  | .one set, cursor, next => (cursor.stepIf? (set.holds flags.ignoreCase)).bind next
  | .cat first second, cursor, next =>
      run flags first cursor fun cursor => run flags second cursor next
  | .alt first second, cursor, next =>
      match run flags first cursor next with
      | some done => some done
      | none => run flags second cursor next
  | .group number body, cursor, next =>
      run flags body cursor fun stop =>
        let text := cursor.after.take (stop.index - cursor.index)
        -- the latest text comes first and is the one that a back reference finds
        next { stop with groups := (number, text) :: stop.groups }
  | .again number, cursor, next =>
      match cursor.remembered? number with
      | some text => (cursor.past? (sameChar flags.ignoreCase) text).bind next
      | none => none
  | .copies greed least most body, cursor, next =>
      let fuel (cursor : Cursor) := cursor.after.length + 1
      let left := most.map (· - least)
      match greed with
      | .greedy =>
          exactly (run flags body) least cursor fun cursor =>
            greedyLoop (run flags body) next (fuel cursor) left none cursor
      | .reluctant =>
          exactly (run flags body) least cursor fun cursor =>
            reluctantLoop (run flags body) next (fuel cursor) left none cursor
      | .possessive =>
          (exactlyFirst (run flags body) least cursor).bind fun cursor =>
            next (possessiveLoop (run flags body) (fuel cursor) left none cursor)
  | .atomic body, cursor, next => (run flags body cursor some).bind next
  | .ahead wanted body, cursor, next =>
      match run flags body cursor some, wanted with
      -- looking around moves nothing, but remembers the groups that it matched
      | some found, true => next { cursor with groups := found.groups }
      | none, false => next cursor
      | _, _ => none
  | .behind wanted width body, cursor, next =>
      match (cursor.back? width).bind fun start => run flags body start some, wanted with
      | some found, true => next { cursor with groups := found.groups }
      | none, false => next cursor
      | _, _ => none
  | .anchor place, cursor, next => if cursor.holds flags place then next cursor else none

/-- The text that an expression matches between what lies before a place, the nearest character
first, and what lies after it. -/
def matchFrom? (flags : Flags) (pattern : Pattern) (before after : List Char) :
    Option (List Char) :=
  (run flags pattern ⟨before.length, before, after, []⟩ some).map fun stop =>
    after.take (stop.index - before.length)

/-- What an expression matches comes first among what lies after the place. -/
theorem matchFrom?_append (flags : Flags) (pattern : Pattern) (before after found : List Char)
    (h : matchFrom? flags pattern before after = some found) :
    found ++ after.drop found.length = after := by
  simp only [matchFrom?, Option.map_eq_some_iff] at h
  obtain ⟨stop, _, rfl⟩ := h
  rw [List.length_take]
  by_cases short : stop.index - before.length ≤ after.length
  · rw [Nat.min_eq_left short, List.take_append_drop]
  · have long : after.length ≤ stop.index - before.length := by omega
    rw [Nat.min_eq_right long, List.take_of_length_le long, List.drop_length, List.append_nil]

end Pattern

end Descent.Regex
