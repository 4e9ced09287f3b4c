import Descent.Proofs.Endings.Stretches
import Descent.Value.Arithmetic

/-! # Runs of digits

What the numbers of a language are read with: the regular expression for one or more digits, and the
function that reads an integer.

* **`Lists.digits`** — the regular expression for one or more digits.
* **`Parser.Gives.digits`** — main statement: it matches the longest run of ASCII digits, and fails
  if there is none.
* **`Value.toInteger_digits`** — a run of digits is read as the number that it denotes, unless it is
  too long to be read at all. -/

namespace Descent

/-! ## The regular expression -/

namespace Lists

/-- The characters from zero to nine. -/
def digitSet : Regex.CharSet := ⟨false, [.range 0x30 0x39]⟩

theorem holds_digitSet (c : Char) : digitSet.holds false c = c.isDigit := by
  have hnat : ∀ n : UInt32, (n ≤ c.val ↔ n.toNat ≤ c.toNat) ∧ (c.val ≤ n ↔ c.toNat ≤ n.toNat) :=
    fun n => ⟨UInt32.le_iff_toNat_le, UInt32.le_iff_toNat_le⟩
  simp [digitSet, Regex.CharSet.holds, Regex.Entry.holds, Char.isDigit, hnat]

/-- The regular expression for one or more digits. -/
def digits : Regex := ⟨"[0-9]+", .none, .copies .greedy 1 none (.one digitSet)⟩

/-- It is read from its text. -/
theorem compile?_digits : Regex.compile? "[0-9]+" .none = some digits := by
  decide +kernel

end Lists

/-- At a place the longest run of digits is matched, if there is one. -/
theorem Parser.Gives.digits {holds : Store → Prop} {source : Source} {place : Position}
    {rest : List Char} (hplace : place.Faces source rest) :
    (Parser.pattern Lists.digits).Gives holds source place
      (if rest.takeWhile Char.isDigit = [] then .failed ⟨place, [.str Lists.digits.label]⟩
        else .matched (place.advance (rest.takeWhile Char.isDigit))
          (.str (String.ofList (rest.takeWhile Char.isDigit)))) := by
  have hset : Lists.digitSet.holds Regex.Flags.none.ignoreCase = Char.isDigit :=
    funext Lists.holds_digitSet
  rw [← hset]
  exact .oneOrMore rfl hplace

/-! ## What digits denote -/

namespace Text.Numeral

variable {text : List Char}

/-- The value of a digit from zero to nine. -/
theorem digit?_of_isDigit {c : Char} (h : c.isDigit = true) :
    Category.digit? c = some (c.toNat - '0'.toNat) := by
  obtain ⟨hlow, hhigh⟩ := Char.isDigit_iff_toNat.mp h
  have hfirst : Category.zeros.find? (fun base => base ≤ c.toNat && c.toNat ≤ base + 9)
      = some '0'.toNat :=
    List.find?_cons_of_pos (by simpa using ⟨hlow, hhigh⟩)
  rw [Category.digit?, hfirst, Option.map_some]

/-- A digit is no blank. -/
theorem isBlank_of_isDigit {c : Char} (h : c.isDigit = true) : isBlank c = false := by
  have hrange : 48 ≤ c.toNat ∧ c.toNat ≤ 57 := Char.isDigit_iff_toNat.mp h
  have hspace : Category.isSpace c = false := by
    simp only [Category.isSpace, Category.within, List.any_cons, List.any_nil, Bool.or_eq_false_iff,
      Bool.and_eq_false_iff, decide_eq_false_iff_not, and_true]
    omega
  rw [isBlank, hspace, Bool.false_and]

/-- There are no blanks around digits. -/
theorem trimBlanks_of_isDigit (h : ∀ c ∈ text, c.isDigit = true) : trimBlanks text = text := by
  have hdrop : ∀ digits : List Char, (∀ c ∈ digits, c.isDigit = true) →
      digits.dropWhile isBlank = digits := by
    intro digits hdigits
    cases digits with
    | nil => rfl
    | cons c rest =>
      rw [List.dropWhile_cons_of_neg]
      simp [isBlank_of_isDigit (hdigits c List.mem_cons_self)]
  rw [trimBlanks, hdrop text h, hdrop text.reverse fun c hc => h c (List.mem_reverse.mp hc),
    List.reverse_reverse]

/-- Digits that follow others are counted in the usual way. -/
theorem digitsFrom?_of_isDigit (h : ∀ c ∈ text, c.isDigit = true) (sofar : Nat) :
    digitsFrom? sofar text = some (Nat.ofDigitChars 10 text sofar) := by
  induction text generalizing sofar with
  | nil => simp
  | cons c rest ih =>
    have hc := h c List.mem_cons_self
    have hscore : c ≠ '_' := by
      rintro rfl
      cases hc
    rw [digitsFrom?.eq_3 _ _ _ fun _ _ hc _ => hscore hc, digit?_of_isDigit hc, Option.bind_some,
      ih fun d hd => h d (List.mem_cons_of_mem c hd), Nat.ofDigitChars_cons]

/-- A run of digits denotes a number. -/
theorem integer?_of_isDigit (hne : text ≠ []) (h : ∀ c ∈ text, c.isDigit = true) :
    integer? text = some (Int.ofNat (Nat.ofDigitChars 10 text 0)) := by
  obtain ⟨c, rest, rfl⟩ := List.exists_cons_of_ne_nil hne
  have hc := h c List.mem_cons_self
  have hdigits : digits? (c :: rest) = some (Nat.ofDigitChars 10 (c :: rest) 0) := by
    rw [digits?, digit?_of_isDigit hc, Option.bind_some,
      digitsFrom?_of_isDigit fun d hd => h d (List.mem_cons_of_mem c hd), Nat.ofDigitChars_cons,
      Nat.mul_zero, Nat.zero_add]
  have hminus : c ≠ '-' := by
    rintro rfl
    cases hc
  have hplus : c ≠ '+' := by
    rintro rfl
    cases hc
  rw [integer?, trimBlanks_of_isDigit h, signed?.eq_3 _ (fun _ heq => hminus (List.cons.inj heq).1)
    fun _ heq => hplus (List.cons.inj heq).1, hdigits, Option.map_some]

/-- A text has no more digits in front than characters. -/
theorem leadingDigits_le (h : ∀ c ∈ text, c.isDigit = true) : leadingDigits text ≤ text.length := by
  have hrun : (leadingRun text).length ≤ text.length := by
    rw [leadingRun, trimBlanks_of_isDigit h]
    refine (List.takeWhile_prefix _).length_le.trans ?_
    unfold withoutSign
    split <;> simp
  rw [leadingDigits]
  split
  · exact List.countP_le_length.trans hrun
  · exact Nat.zero_le _

end Text.Numeral

/-- A run of digits is read as the number that it denotes, if it is not too long to be read. -/
theorem Value.toInteger_digits {digits : List Char} (hne : digits ≠ [])
    (hdigits : ∀ c ∈ digits, c.isDigit = true) (hlength : digits.length ≤ Text.Numeral.longest) :
    (Value.str (String.ofList digits)).toInteger
      = .ok (.int (Nat.ofDigitChars 10 digits 0 : Nat)) := by
  have hshort : ¬ Text.Numeral.longest < Text.Numeral.leadingDigits digits :=
    Nat.not_lt.mpr ((Text.Numeral.leadingDigits_le hdigits).trans hlength)
  rw [toInteger, String.toList_ofList, Text.Numeral.read, if_neg hshort,
    Text.Numeral.integer?_of_isDigit hne hdigits]
  rfl

end Descent
