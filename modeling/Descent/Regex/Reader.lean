import Descent.Regex.Pattern

/-! # Reading a regular expression

The text of an expression is cut into **tokens**, a token being a character or a backslash with the
character after it, and read by recursive descent:

* **`Regex.readChoice`** — alternatives between vertical bars.
* **`Regex.readSequence`** — pieces one after another, each with the repetition behind it.
* **`Regex.readGroup`** — what follows an opening bracket: a group, a look around, or flags.
* **`Regex.readSet`** — what follows an opening square bracket.
* **`Regex.read?`** — the whole text.

A brace that does not open a well-formed count is an ordinary character. Flags may stand in the
expression only at its very start; if they ask for blanks to be skipped, reading starts over. -/

namespace Descent.Regex

/-- A token of an expression. -/
inductive Token : Type where
  /-- A character. -/
  | char (c : Char)
  /-- A character after a backslash. -/
  | escape (c : Char)
  deriving DecidableEq, Inhabited, Repr

/-- The tokens of a text, unless a backslash stands at its end. -/
def tokens? : List Char → Option (List Token)
  | [] => some []
  | ['\\'] => none
  | '\\' :: c :: rest => (tokens? rest).map (.escape c :: ·)
  | c :: rest => (tokens? rest).map (.char c :: ·)

/-- Why reading stops early. -/
inductive Stop : Type where
  /-- The text is no expression. -/
  | malformed
  /-- The text turned out to ask for its blanks to be skipped. -/
  | verbose
  deriving DecidableEq, Inhabited, Repr

/-- How far reading has come. -/
structure Progress where
  /-- The tokens still to be read. -/
  rest : List Token
  /-- How many numbered groups have been opened. -/
  opened : Nat
  /-- The numbers of the groups that are still open. -/
  unclosed : List Nat
  /-- The numbers of the groups that are closed, each with the one length of its texts, if they have
  one. -/
  closed : List (Nat × Option Nat)
  /-- Inside a look behind, how many groups had been opened before it. -/
  behind : Option Nat
  /-- The flags, those met in the text included. -/
  flags : Flags
  deriving Inhabited, Repr

/-- The one length of the texts of a closed group, if they have one. -/
def Progress.groupWidth? (progress : Progress) (number : Nat) : Option Nat :=
  (progress.closed.find? (·.1 == number)).bind (·.2)

/-- A step of reading. -/
abbrev Reading := StateT Progress (Except Stop)

/-- Stop because the text is no expression. -/
def malformed {α : Type} : Reading α := throw .malformed

/-- The next token, which stays unread. -/
def peek : Reading (Option Token) := do return (← get).rest.head?

/-- Leave the next token behind. -/
def drop : Reading Unit := modify fun progress => { progress with rest := progress.rest.tail }

/-- Read the next token; there has to be one. -/
def take : Reading Token := do
  match (← get).rest with
  | [] => malformed
  | token :: rest =>
      modify fun progress => { progress with rest := rest }
      return token

/-- Read the given character if it comes next, and say whether it did. -/
def accept (c : Char) : Reading Bool := do
  if (← peek) = some (.char c) then
    drop
    return true
  else return false

/-- Read at most so many characters that pass a test. -/
def takeWhile (test : Char → Bool) : Nat → Reading (List Char)
  | 0 => return []
  | count + 1 => do
      match (← peek) with
      | some (.char c) =>
          if test c then
            drop
            return c :: (← takeWhile test count)
          else return []
      | _ => return []

/-! ## Escapes -/

/-- An octal digit. -/
def isOctal (c : Char) : Bool := '0' ≤ c && c ≤ '7'

/-- A hexadecimal digit. -/
def isHexadecimal (c : Char) : Bool :=
  c.isDigit || ('a' ≤ c && c ≤ 'f') || ('A' ≤ c && c ≤ 'F')

/-- The value of a hexadecimal digit. -/
def digitValue (c : Char) : Nat :=
  if c.isDigit then c.toNat - '0'.toNat
  else if 'a' ≤ c then c.toNat - 'a'.toNat + 10
  else c.toNat - 'A'.toNat + 10

/-- The number written by digits in a base. -/
def valueOf (base : Nat) (digits : List Char) : Nat :=
  digits.foldl (fun sofar c => base * sofar + digitValue c) 0

/-- The code point written by exactly so many hexadecimal digits. -/
def readCode (width : Nat) : Reading Nat := do
  let digits ← takeWhile isHexadecimal width
  if digits.length = width ∧ valueOf 16 digits < 0x110000 then return valueOf 16 digits
  else malformed

/-- The categories that an escaped letter names. -/
def category? : Char → Option Entry
  | 'd' => some .digit
  | 'D' => some .nonDigit
  | 's' => some .space
  | 'S' => some .nonSpace
  | 'w' => some .word
  | 'W' => some .nonWord
  | _ => none

/-- The anchors that an escaped letter names. -/
def anchor? : Char → Option Anchor
  | 'A' => some .textStart
  | 'Z' => some .textEnd
  | 'b' => some .wordEdge
  | 'B' => some .notWordEdge
  | _ => none

/-- The control characters that an escaped letter names. -/
def control? : Char → Option Nat
  | 'a' => some 0x7
  | 'f' => some 0xc
  | 'n' => some 0xa
  | 'r' => some 0xd
  | 't' => some 0x9
  | 'v' => some 0xb
  | _ => none

/-- The code point of an escape that stands for one character in every context: a control
character, a code point in hexadecimal digits, or a character that is no ASCII letter or digit. -/
def readCharacter (c : Char) : Reading Nat := do
  match control? c with
  | some code => return code
  | none =>
      if c = 'x' then readCode 2
      else if c = 'u' then readCode 4
      else if c = 'U' then readCode 8
      else if c.isAlphanum then malformed
      else return c.toNat

/-- The code point of an octal escape that goes on after the given digits. -/
def readOctal (digits : List Char) (more : Nat) : Reading Nat := do
  let digits := digits ++ (← takeWhile isOctal more)
  if valueOf 8 digits ≤ 0o377 then return valueOf 8 digits else malformed

/-- The text of an earlier group, which must be closed. A look behind cannot ask for a group that is
opened in it. -/
def backReference (number : Nat) : Reading Pattern := do
  let progress ← get
  let bound := progress.behind.getD progress.opened
  if number ≤ bound ∧ ¬ progress.unclosed.contains number then return .again number
  else malformed

/-- An escape that starts with a digit other than zero: three octal digits are a code point, and
one or two digits the number of a group. -/
def readNumbered (c : Char) : Reading Pattern := do
  match (← takeWhile Char.isDigit 1) with
  | [] => backReference (valueOf 10 [c])
  | second =>
      -- three octal digits win over a group number of two
      let third ← if isOctal c ∧ second.all isOctal then takeWhile isOctal 1 else pure []
      if third.isEmpty then backReference (valueOf 10 (c :: second))
      else return .literal (← readOctal (c :: second ++ third) 0)

/-- What a backslash and a character mean outside a set. -/
def readEscape (c : Char) : Reading Pattern := do
  match category? c, anchor? c with
  | some entry, _ => return .one ⟨false, [entry]⟩
  | none, some place => return .anchor place
  | none, none =>
      if c = '0' then return .literal (← readOctal [c] 2)
      else if c.isDigit then readNumbered c
      else return .literal (← readCharacter c)

/-- What a backslash and a character mean in a set. -/
def readSetEscape (c : Char) : Reading Entry := do
  match category? c with
  | some entry => return entry
  | none =>
      let code ←
        if c = 'b' then pure 0x8
        else if isOctal c then readOctal [c] 2
        else readCharacter c
      return .range code code

/-! ## Sets -/

/-- The entry that a token stands for in a set. -/
def readEntry : Token → Reading Entry
  | .char c => return .range c.toNat c.toNat
  | .escape c => readSetEscape c

/-- The range between two entries, each of which has to be a single character. -/
def rangeOf : Entry → Entry → Reading Entry
  | .range low _, .range high _ => if low ≤ high then return .range low high else malformed
  | _, _ => malformed

/-- The entries of a set up to its closing bracket, which in first place is an ordinary
character. -/
def readEntries : Nat → List Entry → Reading (List Entry)
  | 0, _ => malformed
  | fuel + 1, entries => do
      let token ← take
      if token = .char ']' ∧ entries ≠ [] then return entries.reverse
      let entry ← readEntry token
      if (← accept '-') then
        let last ← take
        -- a hyphen in last place stands for itself
        if last = .char ']' then
          return (.range '-'.toNat '-'.toNat :: entry :: entries).reverse
        readEntries fuel ((← rangeOf entry (← readEntry last)) :: entries)
      else readEntries fuel (entry :: entries)

/-- The set that follows an opening square bracket. -/
def readSet : Reading Pattern := do
  let negated ← accept '^'
  return .one ⟨negated, ← readEntries ((← get).rest.length + 1) []⟩

/-! ## Repetitions -/

/-- What a repetition may do with the piece before it. -/
inductive PieceKind : Type where
  /-- It can be repeated. -/
  | plain
  /-- It is a place, which cannot be repeated. -/
  | place
  /-- It is repeated already. -/
  | repeated
  deriving DecidableEq, Inhabited, Repr

/-- A piece of a sequence. -/
structure Piece where
  /-- What a repetition may do with it. -/
  kind : PieceKind
  /-- The expression. -/
  pattern : Pattern
  deriving Inhabited, Repr

/-- The piece made of an expression that stands for itself. -/
def Piece.of : Pattern → Piece
  | .anchor place => ⟨.place, .anchor place⟩
  | pattern => ⟨.plain, pattern⟩

/-- The least and the greatest number of copies. -/
abbrev Bounds := Nat × Option Nat

/-- The bounds in braces, if what follows the opening brace is well formed. -/
def readBraces : Reading (Option Bounds) := do
  let start ← get
  let count := start.rest.length
  -- an empty pair of braces stands for itself
  if (← peek) = some (.char '}') then return none
  let low ← takeWhile Char.isDigit count
  let high ← if (← accept ',') then takeWhile Char.isDigit count else pure low
  if (← accept '}') then
    let least := valueOf 10 low
    if high.isEmpty then return some (least, none)
    else if valueOf 10 high < least then malformed
    else return some (least, some (valueOf 10 high))
  else
    -- not a count after all: the brace is a character, and reading goes on behind it
    set start
    return none

/-- The bounds that a character after a piece asks for, if it starts a repetition. -/
def readBounds (c : Char) : Reading (Option Bounds) := do
  if c = '*' then return some (0, none)
  else if c = '+' then return some (1, none)
  else if c = '?' then return some (0, some 1)
  else if c = '{' then readBraces
  else return none

/-- How many copies a repetition prefers: a question mark or a plus behind it says so. -/
def readGreed : Reading Greed := do
  if (← accept '?') then return .reluctant
  if (← accept '+') then return .possessive
  return .greedy

/-- The pieces, the last one first, with the last one repeated. -/
def repeatLast (bounds : Bounds) : List Piece → Reading (List Piece)
  | ⟨.plain, pattern⟩ :: pieces => do
      return ⟨.repeated, .copies (← readGreed) bounds.1 bounds.2 pattern⟩ :: pieces
  | _ => malformed

/-- The expression for pieces given with the last one first. -/
def sequenceOf (pieces : List Piece) : Pattern :=
  pieces.foldl (fun rest piece =>
    match rest with
    | .empty => piece.pattern
    | rest => .cat piece.pattern rest) .empty

/-! ## Groups and the whole expression -/

/-- Leave a comment behind, up to and including the given character if it comes at all. -/
def skipPast (last : Char) : Nat → Reading Bool
  | 0 => return false
  | count + 1 => do
      match (← peek) with
      | none => return false
      | some token =>
          drop
          if token = .char last then return true else skipPast last count

/-- The flag that a letter sets. -/
def flag? : Char → Option Flags
  | 'i' => some { Flags.none with ignoreCase := true }
  | 'm' => some { Flags.none with multiline := true }
  | 's' => some { Flags.none with dotAll := true }
  | 'x' => some { Flags.none with verbose := true }
  | _ => none

/-- Flags in round brackets, after the first of their letters. -/
def readFlags (first : Char) : Reading Unit := do
  let letters := first :: (← takeWhile (fun c => (flag? c).isSome) (← get).rest.length)
  let some flags := letters.mapM flag? | malformed
  if !(← accept ')') then malformed
  let before := (← get).flags
  let after := flags.foldl Flags.union before
  modify fun progress => { progress with flags := after }
  -- blanks before this place were read as characters, so reading starts over
  if after.verbose && !before.verbose then throw .verbose

/-- Require a closing bracket. -/
def close : Reading Unit := do
  if !(← accept ')') then malformed

/-- A piece of a group: one to repeat, or nothing at all. -/
abbrev GroupPiece := Option Piece

/-- A numbered group around an expression read by `inside`. -/
def readNumberedGroup (inside : Reading Pattern) : Reading GroupPiece := do
  let number := (← get).opened + 1
  modify fun progress =>
    { progress with opened := number, unclosed := number :: progress.unclosed }
  let body ← inside
  close
  modify fun progress =>
    { progress with
      unclosed := progress.unclosed.filter (· != number)
      closed := (number, body.width? progress.groupWidth?) :: progress.closed }
  return some ⟨.plain, .group number body⟩

/-- A look behind at an expression read by `inside`. -/
def readBehind (wanted : Bool) (inside : Reading Pattern) : Reading GroupPiece := do
  let before ← get
  modify fun progress => { progress with behind := some (before.behind.getD before.opened) }
  let body ← inside
  close
  modify fun progress => { progress with behind := before.behind }
  match body.width? (← get).groupWidth? with
  | some width => return some ⟨.plain, .behind wanted width body⟩
  | none => malformed

/-- What follows an opening bracket. `inside` reads the expression in it, and `atStart` says whether
flags are still allowed. -/
def readGroup (inside : Reading Pattern) (atStart : Bool) : Reading GroupPiece := do
  if !(← accept '?') then readNumberedGroup inside
  else
    let bracketed (wrap : Pattern → Pattern) : Reading GroupPiece := do
      let body ← inside
      close
      return some ⟨.plain, wrap body⟩
    match (← take) with
    | .char ':' => bracketed id
    | .char '>' => bracketed .atomic
    | .char '=' => bracketed (.ahead true)
    | .char '!' => bracketed (.ahead false)
    | .char '<' =>
        if (← accept '=') then readBehind true inside
        else if (← accept '!') then readBehind false inside
        else malformed
    | .char '#' =>
        if (← skipPast ')' (← get).rest.length) then return none else malformed
    | .char c =>
        if !atStart then malformed
        readFlags c
        return none
    | .escape _ => malformed

/-- Whether a token means nothing in an expression whose blanks are skipped. -/
def isSkipped (c : Char) : Bool :=
  c = ' ' || c = '\t' || c = '\n' || c = '\r' || c.toNat = 0xb || c.toNat = 0xc

/-- The piece that a character stands for by itself. -/
def plainPiece (c : Char) : Piece :=
  if c = '.' then ⟨.plain, .any⟩
  else if c = '^' then ⟨.place, .anchor .lineStart⟩
  else if c = '$' then ⟨.place, .anchor .lineEnd⟩
  else ⟨.plain, .literal c.toNat⟩

mutual

/-- Alternatives between vertical bars. -/
def readChoice (outermost : Bool) : Nat → Reading Pattern
  | 0 => malformed
  | fuel + 1 => do
      let first ← readSequence outermost fuel []
      if (← accept '|') then return .alt first (← readChoice false fuel) else return first

/-- Pieces one after another. `pieces` are those read already, the last one first; `atStart` says
that nothing stands before them in the whole expression. -/
def readSequence (atStart : Bool) : Nat → List Piece → Reading Pattern
  | 0, _ => malformed
  | fuel + 1, pieces => do
      match (← peek) with
      | none => return sequenceOf pieces
      | some (.escape c) =>
          drop
          readSequence atStart fuel (.of (← readEscape c) :: pieces)
      | some (.char c) =>
          if c = '|' ∨ c = ')' then return sequenceOf pieces
          drop
          if (← get).flags.verbose && isSkipped c then readSequence atStart fuel pieces
          else if (← get).flags.verbose && c = '#' then
            let _ ← skipPast '\n' (← get).rest.length
            readSequence atStart fuel pieces
          else if c = '[' then readSequence atStart fuel (.of (← readSet) :: pieces)
          else if c = '(' then
            let group ← readGroup (readChoice false fuel) (atStart && pieces.isEmpty)
            readSequence atStart fuel (group.toList ++ pieces)
          else
            match (← readBounds c) with
            | some bounds => readSequence atStart fuel (← repeatLast bounds pieces)
            | none => readSequence atStart fuel (plainPiece c :: pieces)

end

/-- The expression of some tokens and its flags. -/
def readAll (flags : Flags) (tokens : List Token) : Except Stop (Pattern × Flags) := do
  let (pattern, progress) ←
    (readChoice true (3 * tokens.length + 3)).run ⟨tokens, 0, [], [], none, flags⟩
  if progress.rest.isEmpty then return (pattern, progress.flags) else throw .malformed

/-- The expression that a text denotes and its flags: those given and those in the text. -/
def read? (text : List Char) (flags : Flags) : Option (Pattern × Flags) :=
  match tokens? text with
  | none => none
  | some tokens =>
      match readAll flags tokens with
      | .ok read => some read
      | .error .malformed => none
      | .error .verbose => (readAll { flags with verbose := true } tokens).toOption

end Descent.Regex
