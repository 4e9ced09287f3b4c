import Descent.Position
import Descent.Regex.Matcher
import Descent.Regex.Reader

/-! # Compiled regular expressions

* **`Regex`** — an expression with the text that it was read from and its flags.
* **`Regex.compile?`** — reading one.
* **`Regex.matchAt?`** — the text that it matches at an index of a source. The match starts at the
  index but sees the text before it. An index outside of the source counts as the nearest end. -/

namespace Descent

/-- A regular expression that is ready to match. -/
structure Regex where
  /-- The text that it was read from. -/
  text : String
  /-- The flags given and those in the text. -/
  flags : Regex.Flags
  /-- The expression. -/
  pattern : Regex.Pattern
  deriving DecidableEq, Inhabited, Repr

namespace Regex

/-- Read an expression, if the text is one. -/
def compile? (text : String) (flags : Flags) : Option Regex :=
  (read? text.toList flags).map fun (pattern, flags) => ⟨text, flags, pattern⟩

/-- What a failure to match is reported as: the text of the expression between slashes. -/
def label (regex : Regex) : String := "/" ++ regex.text ++ "/"

/-- The number of characters of a source before an index, an index outside counting as the nearest
end. -/
def clamp (source : Source) (index : Int) : Nat := min index.toNat source.length

/-- The text that an expression matches at an index of a source. -/
def matchAt? (regex : Regex) (source : Source) (index : Int) : Option (List Char) :=
  let offset := clamp source index
  regex.pattern.matchFrom? regex.flags (source.take offset).reverse (source.drop offset)

/-- What an expression matches is the text of the source from the index on. -/
theorem matchAt?_append {regex : Regex} {source : Source} {index : Int} {found : List Char}
    (h : regex.matchAt? source index = some found) :
    found ++ (source.drop (clamp source index)).drop found.length
      = source.drop (clamp source index) :=
  Pattern.matchFrom?_append _ _ _ _ _ h

/-- Inside of a source every index counts as itself. -/
theorem clamp_of_le {source : Source} {index : Nat} (h : index ≤ source.length) :
    clamp source index = index := by
  simp [clamp, h]

end Regex

end Descent
