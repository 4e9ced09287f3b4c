import Descent.Value
import Mathlib.Data.List.Infix
import Mathlib.Data.List.TakeWhile
import Mathlib.Data.Nat.Digits.Defs

/-! # Nested lists of numbers, as texts

The texts of a small language, apart from all parsers: numbers, and lists of such texts between
square brackets with commas between them.

* **`Lists.Tree`** — a number, or a list of trees.
* **`Lists.Tree.print`** — the usual text of a tree.
* **`Lists.Denotes`** — which texts the grammar V ::= digit+ | "[" "]" | "[" V ("," V)* "]" derives,
  and which tree each of them denotes.
* **`Lists.Stands`** — a text stands at the front of another: a number has no digit behind it.
* **`Lists.Stands.unique`** — unique readability: at most one text stands at the front of another,
  and it denotes one tree.
* **`Lists.Stands.length_le`** — it is the longest front that is derived.
* **`Lists.not_denotes_of_stuck`** — no front is derived where a list is not closed. -/

namespace Descent.Lists

/-! ## Trees -/

/-- A number, or a list of trees. -/
inductive Tree : Type where
  /-- A number. -/
  | number (count : Nat)
  /-- A list. -/
  | list (items : List Tree)
  deriving Repr

namespace Tree

/-- A tree as a value. -/
def value : Tree → Value
  | .number count => .int count
  | .list items => .list (values items)
where
  /-- Several trees as values. -/
  values : List Tree → List Value
    | [] => []
    | item :: rest => item.value :: values rest

/-- The usual text of a tree: decimal digits, brackets and commas, without blanks. -/
def print : Tree → List Char
  | .number count => Nat.toDigits 10 count
  | .list [] => ['[', ']']
  | .list (first :: rest) => '[' :: (first.print ++ printMore rest ++ [']'])
where
  /-- The texts of several trees, each behind a comma. -/
  printMore : List Tree → List Char
    | [] => []
    | item :: rest => ',' :: (item.print ++ printMore rest)

/-- The text of a list is that of its items with commas between them, in brackets. -/
theorem print_list (items : List Tree) :
    (Tree.list items).print = '[' :: ([','].intercalate (items.map print) ++ [']']) := by
  have hmore : ∀ (first : Tree) (rest : List Tree),
      first.print ++ print.printMore rest = [','].intercalate ((first :: rest).map print) := by
    intro first rest
    induction rest generalizing first with
    | nil => simp [print.printMore]
    | cons second rest ih =>
      rw [List.map_cons, List.map_cons, List.intercalate_cons_cons, ← List.map_cons, ← ih second,
        print.printMore, List.append_assoc]
      rfl
  cases items with
  | nil => simp [print]
  | cons first rest => rw [print, hmore]

end Tree

/-! ## The grammar -/

mutual

/-- A text is derived by the grammar, and denotes a tree. -/
inductive Denotes : List Char → Tree → Prop where
  /-- One or more digits. -/
  | number {digits : List Char} (hne : digits ≠ []) (hdigits : ∀ c ∈ digits, c.isDigit = true) :
      Denotes digits (.number (Nat.ofDigitChars 10 digits 0))
  /-- Two brackets. -/
  | empty : Denotes ['[', ']'] (.list [])
  /-- A text and others, each behind a comma, in brackets. -/
  | list {first more : List Char} {tree : Tree} {trees : List Tree} (hfirst : Denotes first tree)
      (hmore : DenotesMore more trees) :
      Denotes ('[' :: (first ++ more ++ [']'])) (.list (tree :: trees))

/-- Any number of texts, each behind a comma, denote several trees. -/
inductive DenotesMore : List Char → List Tree → Prop where
  /-- There is none. -/
  | none : DenotesMore [] []
  /-- There is one, and then others. -/
  | more {text more : List Char} {tree : Tree} {trees : List Tree} (htext : Denotes text tree)
      (hmore : DenotesMore more trees) : DenotesMore (',' :: (text ++ more)) (tree :: trees)

end

mutual

/-- The usual text of a tree is derived, and denotes the tree. -/
theorem Tree.denotes_print : ∀ (tree : Tree), Denotes tree.print tree
  | .number count => by
    have hdigits : ∀ c ∈ Nat.toDigits 10 count, c.isDigit = true := fun c hc =>
      Nat.isDigit_of_mem_toDigits (by decide) (by decide) hc
    have hnumber := Denotes.number Nat.toDigits_ne_nil hdigits
    rwa [Nat.ofDigitChars_toDigits (by decide) (by decide)] at hnumber
  | .list [] => .empty
  | .list (first :: rest) => .list first.denotes_print (denotes_printMore rest)

/-- So are those of several. -/
theorem Tree.denotes_printMore : ∀ (trees : List Tree),
    DenotesMore (Tree.print.printMore trees) trees
  | [] => .none
  | item :: rest => .more item.denotes_print (denotes_printMore rest)

end

/-! ## Fronts -/

/-- A text does not start with a digit. -/
def NoDigit (text : List Char) : Prop := ∀ c ∈ text.head?, c.isDigit = false

/-- A text that denotes a tree stands before another: if it is a number, no digit follows. -/
structure Stands (text : List Char) (tree : Tree) (rest : List Char) : Prop where
  /-- It denotes the tree. -/
  denotes : Denotes text tree
  /-- A number ends where its digits end. -/
  apart : ∀ count, tree = .number count → NoDigit rest

/-- Several texts, each behind a comma, stand one before the other and all before another. -/
inductive StandsMore : List Char → List Tree → List Char → Prop where
  /-- There is none. -/
  | none (rest : List Char) : StandsMore [] [] rest
  /-- There is one, and then others. -/
  | more {text more rest : List Char} {tree : Tree} {trees : List Tree}
      (htext : Stands text tree (more ++ rest)) (hmore : StandsMore more trees rest) :
      StandsMore (',' :: (text ++ more)) (tree :: trees) rest

variable {text more rest text' more' rest' : List Char} {tree tree' : Tree}
  {trees trees' : List Tree}

theorem noDigit_cons {c : Char} (h : c.isDigit = false) (rest : List Char) :
    NoDigit (c :: rest) := by
  rintro _ ⟨⟩
  exact h

/-- What is derived starts with a digit or with a bracket. -/
theorem Denotes.exists_cons (h : Denotes text tree) :
    ∃ c others, text = c :: others ∧ (c.isDigit = true ∨ c = '[') := by
  cases h with
  | number hne hdigits =>
    obtain ⟨c, others, rfl⟩ := List.exists_cons_of_ne_nil hne
    exact ⟨c, others, rfl, .inl (hdigits c List.mem_cons_self)⟩
  | empty => exact ⟨_, _, rfl, .inr rfl⟩
  | list => exact ⟨_, _, rfl, .inr rfl⟩

/-- A derived text that starts with a digit is a number. -/
theorem Denotes.of_digit {c : Char} {others : List Char} (h : Denotes (c :: others) tree)
    (hc : c.isDigit = true) :
    (∀ d ∈ c :: others, d.isDigit = true) ∧
      tree = .number (Nat.ofDigitChars 10 (c :: others) 0) := by
  cases h with
  | number _ hdigits => exact ⟨hdigits, rfl⟩
  | empty => cases hc
  | list => cases hc

/-- What is derived and starts with an opening bracket is a list. -/
theorem Denotes.of_bracket {others : List Char} (h : Denotes ('[' :: others) tree) :
    (others = [']'] ∧ tree = .list []) ∨
      ∃ first more head trees, Denotes first head ∧ DenotesMore more trees ∧
        others = first ++ (more ++ [']']) ∧ tree = .list (head :: trees) := by
  cases h with
  | number _ hdigits => cases hdigits '[' List.mem_cons_self
  | empty => exact .inl ⟨rfl, rfl⟩
  | list hfirst hmore =>
    exact .inr ⟨_, _, _, _, hfirst, hmore, List.append_assoc .., rfl⟩

/-- What is derived does not start with a closing bracket. -/
theorem Denotes.append_ne_close (h : Denotes text tree) (rest others : List Char) :
    text ++ rest ≠ ']' :: others := by
  obtain ⟨c, more, rfl, hc⟩ := h.exists_cons
  intro heq
  obtain rfl : c = ']' := (List.cons.inj heq).1
  rcases hc with hc | hc
  · cases hc
  · cases hc

/-- A number has digits only. -/
theorem Denotes.digits_of_number {count : Nat} (h : Denotes text (.number count)) :
    ∀ c ∈ text, c.isDigit = true := by
  cases h with
  | number _ hdigits => exact hdigits

/-- Behind texts with commas, and before a bracket, there is no digit. -/
theorem DenotesMore.noDigit (h : DenotesMore more trees) (rest : List Char) :
    NoDigit (more ++ ']' :: rest) := by
  cases h with
  | none => exact noDigit_cons rfl _
  | more => exact noDigit_cons rfl _

/-- Digits before what is no digit are all the digits at the front. -/
theorem takeWhile_isDigit_append {digits : List Char} (h : ∀ c ∈ digits, c.isDigit = true)
    (hrest : NoDigit rest) : (digits ++ rest).takeWhile Char.isDigit = digits := by
  rw [List.takeWhile_append_of_pos h]
  cases rest with
  | nil => simp
  | cons c others =>
    have hc : c.isDigit = false := hrest c rfl
    simp [hc]

/-- Digits are a text that stands where they end. -/
theorem stands_digits (hsome : rest.takeWhile Char.isDigit ≠ []) :
    Stands (rest.takeWhile Char.isDigit)
      (.number (Nat.ofDigitChars 10 (rest.takeWhile Char.isDigit) 0))
      (rest.dropWhile Char.isDigit) := by
  refine ⟨.number hsome fun c hc => List.mem_takeWhile_imp hc, fun _ _ c hc => ?_⟩
  have hhead := List.head?_dropWhile_not Char.isDigit rest
  rw [hc] at hhead
  exact hhead

/-! ## Unique readability -/

mutual

/-- Of two derived texts at the front of one text that end where their digits end, one is the
other. -/
theorem Denotes.unique : ∀ {text tree rest text' tree' rest'}, Denotes text tree →
    (∀ count, tree = .number count → NoDigit rest) → Denotes text' tree' →
    (∀ count, tree' = .number count → NoDigit rest') → text ++ rest = text' ++ rest' →
    text = text' ∧ tree = tree'
  | _, _, rest, _, _, rest', .number hne hdigits, hrest, h', hrest', heq => by
    obtain ⟨c, others, rfl⟩ := List.exists_cons_of_ne_nil hne
    obtain ⟨c', others', rfl, -⟩ := h'.exists_cons
    obtain rfl : c = c' := (List.cons.inj heq).1
    obtain ⟨hdigits', rfl⟩ := h'.of_digit (hdigits c List.mem_cons_self)
    -- each of them is all the digits that the text starts with
    have hsame : c :: others = c :: others' := by
      rw [← takeWhile_isDigit_append hdigits (hrest _ rfl), heq,
        takeWhile_isDigit_append hdigits' (hrest' _ rfl)]
    rw [hsame]
    exact ⟨rfl, rfl⟩
  | _, _, rest, _, _, rest', .empty, hrest, h', hrest', heq => by
    obtain ⟨c', others', rfl, -⟩ := h'.exists_cons
    obtain rfl : '[' = c' := (List.cons.inj heq).1
    rcases h'.of_bracket with ⟨rfl, rfl⟩ | ⟨first', more', _, _, hfirst', -, rfl, -⟩
    · exact ⟨rfl, rfl⟩
    · have htail : first' ++ (more' ++ [']'] ++ rest') = ']' :: rest := by simpa using heq.symm
      exact absurd htail (hfirst'.append_ne_close _ _)
  | _, _, rest, _, _, rest', @Denotes.list first more _ _ hfirst hmore, hrest, h', hrest', heq => by
    obtain ⟨c', others', rfl, -⟩ := h'.exists_cons
    obtain rfl : '[' = c' := (List.cons.inj heq).1
    rcases h'.of_bracket with ⟨rfl, rfl⟩ | ⟨first', more', _, _, hfirst', hmore', rfl, rfl⟩
    · have htail : first ++ (more ++ [']'] ++ rest) = ']' :: rest' := by simpa using heq
      exact absurd htail (hfirst.append_ne_close _ _)
    · -- what follows the first texts starts with a comma or a bracket
      have htail : first ++ (more ++ ']' :: rest) = first' ++ (more' ++ ']' :: rest') := by
        simpa using heq
      obtain ⟨rfl, rfl⟩ := hfirst.unique (fun _ _ => hmore.noDigit rest) hfirst'
        (fun _ _ => hmore'.noDigit rest') htail
      obtain ⟨rfl, rfl⟩ := hmore.unique hmore' (List.append_cancel_left htail)
      exact ⟨by simp, rfl⟩

/-- The same for several behind commas, before a bracket. -/
theorem DenotesMore.unique : ∀ {more trees rest more' trees' rest'}, DenotesMore more trees →
    DenotesMore more' trees' → more ++ ']' :: rest = more' ++ ']' :: rest' →
    more = more' ∧ trees = trees'
  | _, _, rest, _, _, rest', .none, h', heq => by
    cases h' with
    | none => exact ⟨rfl, rfl⟩
    | more => cases (List.cons.inj heq).1
  | _, _, rest, _, _, rest', @DenotesMore.more text more _ _ htext hmore, h', heq => by
    cases h' with
    | none => cases (List.cons.inj heq).1
    | @more text' more' tree' trees' htext' hmore' =>
      have htail : text ++ (more ++ ']' :: rest) = text' ++ (more' ++ ']' :: rest') := by
        simpa using heq
      obtain ⟨rfl, rfl⟩ := htext.unique (fun _ _ => hmore.noDigit rest) htext'
        (fun _ _ => hmore'.noDigit rest') htail
      obtain ⟨rfl, rfl⟩ := hmore.unique hmore' (List.append_cancel_left htail)
      exact ⟨rfl, rfl⟩

end

/-- At most one text stands at the front of another, and it denotes one tree. -/
theorem Stands.unique (h : Stands text tree rest) (h' : Stands text' tree' rest')
    (heq : text ++ rest = text' ++ rest') : text = text' ∧ tree = tree' :=
  h.denotes.unique h.apart h'.denotes h'.apart heq

/-- A text denotes one tree at most. -/
theorem Denotes.tree_unique (h : Denotes text tree) (h' : Denotes text tree') : tree' = tree :=
  have hnothing : NoDigit [] := nofun
  (h'.unique (fun _ _ => hnothing) h (fun _ _ => hnothing) rfl).2

/-- Nothing that is derived stands for longer. -/
theorem Stands.length_le (h : Stands text tree rest) (h' : Denotes text' tree')
    (hfront : text' <+: text ++ rest) : text'.length ≤ text.length := by
  obtain ⟨rest', heq⟩ := hfront
  by_contra hlonger
  rw [not_le] at hlonger
  cases tree' with
  | list items =>
    obtain ⟨rfl, -⟩ := h.unique ⟨h', nofun⟩ heq.symm
    exact absurd hlonger (lt_irrefl _)
  | number count =>
    -- a longer text goes on with digits, behind a number that ends here
    obtain ⟨surplus, rfl⟩ : text <+: text' :=
      List.prefix_of_prefix_length_le (List.prefix_append text rest)
        (heq ▸ List.prefix_append text' rest') hlonger.le
    have hdigits := h'.digits_of_number
    rw [List.append_assoc] at heq
    obtain rfl := List.append_cancel_left heq
    obtain ⟨c, others, rfl, -⟩ := h.denotes.exists_cons
    obtain ⟨-, rfl⟩ := h.denotes.of_digit (hdigits c (by simp))
    cases surplus with
    | nil => simp at hlonger
    | cons d surplus =>
      have hdigit : d.isDigit = true := hdigits d (by simp)
      rw [h.apart _ rfl d rfl] at hdigit
      cases hdigit

/-! ## Lists that are not closed -/

/-- Texts that stand behind commas are derived. -/
theorem StandsMore.denotes (h : StandsMore more trees rest) : DenotesMore more trees := by
  induction h with
  | none => exact .none
  | more htext _ ih => exact .more htext.denotes ih

/-- Nothing that is derived starts with anything but a digit or an opening bracket. -/
theorem not_denotes_of_head {source : List Char}
    (h : ∀ c ∈ source.head?, c.isDigit = false ∧ c ≠ '[') (hdenotes : Denotes text tree) :
    ¬ text <+: source := by
  rintro ⟨rest, rfl⟩
  obtain ⟨c, others, rfl, hc⟩ := hdenotes.exists_cons
  obtain ⟨hdigit, hbracket⟩ := h c rfl
  rcases hc with hc | hc
  · rw [hdigit] at hc
    cases hc
  · exact hbracket hc

/-- Where further texts behind commas cannot go on, and there is no bracket, a closing bracket
follows no others. -/
theorem StandsMore.not_closed (h : StandsMore more trees rest)
    (hstuck : ∀ others, rest = ',' :: others → ∀ text tree, Denotes text tree → ¬ text <+: others)
    (hopen : ∀ others, rest ≠ ']' :: others) (h' : DenotesMore more' trees') :
    more' ++ ']' :: rest' ≠ more ++ rest := by
  induction h generalizing more' trees' with
  | none rest =>
    cases h' with
    | none => exact fun heq => hopen rest' heq.symm
    | @more text' more' tree' trees' htext' _ =>
      intro heq
      refine hstuck (text' ++ (more' ++ ']' :: rest')) ?_ text' tree' htext'
        (List.prefix_append _ _)
      simpa using heq.symm
  | @more text more rest tree trees htext _ ih =>
    cases h' with
    | none =>
      intro heq
      cases (List.cons.inj heq).1
    | @more text' more' tree' trees' htext' hmore' =>
      intro heq
      have htail : text' ++ (more' ++ ']' :: rest') = text ++ (more ++ rest) := by simpa using heq
      -- both first texts are read at the same place, so they are one and the same
      have hstands : Stands text' tree' (more' ++ ']' :: rest') :=
        ⟨htext', fun _ _ => hmore'.noDigit rest'⟩
      obtain ⟨rfl, -⟩ := hstands.unique htext htail
      exact ih hstuck hopen hmore' (List.append_cancel_left htail)

/-- Behind an opening bracket and texts that cannot go on, without a closing bracket, nothing is
derived from the bracket on. -/
theorem not_denotes_of_stuck {first : List Char} (hfirst : Stands first tree (more ++ rest))
    (hmore : StandsMore more trees rest)
    (hstuck : ∀ others, rest = ',' :: others → ∀ text tree, Denotes text tree → ¬ text <+: others)
    (hopen : ∀ others, rest ≠ ']' :: others) (hdenotes : Denotes text tree') :
    ¬ text <+: '[' :: (first ++ (more ++ rest)) := by
  rintro ⟨rest', heq⟩
  obtain ⟨c, others, rfl, -⟩ := hdenotes.exists_cons
  obtain rfl : c = '[' := (List.cons.inj heq).1
  rcases hdenotes.of_bracket with ⟨rfl, -⟩ | ⟨first', more', _, _, hfirst', hmore', rfl, -⟩
  · exact hfirst.denotes.append_ne_close _ _ (List.cons.inj heq).2.symm
  · have htail : first' ++ (more' ++ ']' :: rest') = first ++ (more ++ rest) := by simpa using heq
    have hstands : Stands first' _ (more' ++ ']' :: rest') :=
      ⟨hfirst', fun _ _ => hmore'.noDigit rest'⟩
    obtain ⟨rfl, -⟩ := hstands.unique hfirst htail
    exact hmore.not_closed hstuck hopen hmore' (List.append_cancel_left htail)

/-- Behind an opening bracket, where neither a derived text nor a closing bracket follows, nothing
is derived from the bracket on. -/
theorem not_denotes_of_empty (hnone : ∀ text tree, Denotes text tree → ¬ text <+: rest)
    (hopen : ∀ others, rest ≠ ']' :: others) (hdenotes : Denotes text tree) :
    ¬ text <+: '[' :: rest := by
  rintro ⟨rest', heq⟩
  obtain ⟨c, others, rfl, -⟩ := hdenotes.exists_cons
  obtain rfl : c = '[' := (List.cons.inj heq).1
  rcases hdenotes.of_bracket with ⟨rfl, -⟩ | ⟨first, more, head, _, hfirst, -, rfl, -⟩
  · exact hopen rest' (List.cons.inj heq).2.symm
  · refine hnone first head hfirst ⟨more ++ ']' :: rest', ?_⟩
    simpa using heq

end Descent.Lists
