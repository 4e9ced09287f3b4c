import Descent.Proofs.Endings.Gives

/-! # Texts with separators between them

A list with separators reads texts of items that stand between separators. Nothing about it depends
on what the items are, or on what separates them: what has to be known is that each parser finds its
own texts, and that no separator is found where the list closes.

* **`Joined`** — a text made of the texts of several items, with separators between them.
* **`Joined.Behind`** — what may stand behind an item.
* **`Parser.Joins`** — what has to be known of the two parsers.
* **`Parser.Joins.gives_sepBy1`** — main statement: the list with separators matches the whole text
  and gives all items. -/

namespace Descent

variable {α : Type} {Item : α → List Char → Prop} {Separator Closes : List Char → Prop}

/-- A text is made of the texts of one or more items, with a separator between any two. -/
inductive Joined (Item : α → List Char → Prop) (Separator : List Char → Prop) :
    List α → List Char → Prop where
  /-- There is one item. -/
  | one {item : α} {text : List Char} (hitem : Item item text) : Joined Item Separator [item] text
  /-- There is one item, and behind a separator there are others. -/
  | more {item : α} {items : List α} {text separator rest : List Char} (hitem : Item item text)
      (hseparator : Separator separator) (hrest : Joined Item Separator items rest) :
      Joined Item Separator (item :: items) (text ++ (separator ++ rest))

/-- Behind an item there is what closes the list, or else a separator. -/
def Joined.Behind (Separator Closes : List Char → Prop) (rest : List Char) : Prop :=
  Closes rest ∨ ∃ separator more, Separator separator ∧ rest = separator ++ more

variable {holds : Store → Prop} {source : Source} {p separator : Parser} {value : α → Value}
  {place last : Position} {item : α} {items : List α} {text between rest : List Char}
  {values : List Value}

/-- A parser finds the texts of items, another one the separators; and this one finds none where the
list closes. -/
structure Parser.Joins (holds : Store → Prop) (source : Source) (p separator : Parser)
    (value : α → Value) (Item : α → List Char → Prop) (Separator Closes : List Char → Prop) :
    Prop where
  /-- The text of an item is matched as far as it goes, and the item is the value. -/
  gives_item {place : Position} {item : α} {text rest : List Char} (hitem : Item item text)
    (hbehind : Joined.Behind Separator Closes rest) (hplace : place.Faces source (text ++ rest)) :
    p.Gives holds source place (.matched (place.advance text) (value item))
  /-- A separator is matched, whatever follows. -/
  gives_separator {place : Position} {text rest : List Char} (hseparator : Separator text)
    (hplace : place.Faces source (text ++ rest)) :
    ∃ skipped, separator.Gives holds source place (.matched (place.advance text) skipped)
  /-- A separator is not empty. -/
  ne_nil {text : List Char} (hseparator : Separator text) : text ≠ []
  /-- Where the list closes there is no separator. -/
  gives_failed {place : Position} {rest : List Char} (hcloses : Closes rest)
    (hplace : place.Faces source rest) :
    ∃ failure, separator.Gives holds source place (.failed failure)

namespace Parser.Joins

/-- A separator and an item behind it are one round of the repetition. -/
theorem gives_round (h : Parser.Joins holds source p separator value Item Separator Closes)
    (hbetween : Separator between) (hitem : Item item text)
    (hbehind : Joined.Behind Separator Closes rest)
    (hplace : place.Faces source (between ++ (text ++ rest)))
    (hrest : (Parser.many0 (separator.next p)).Gives holds source
      ((place.advance between).advance text) (.matched last (.list values))) :
    (Parser.many0 (separator.next p)).Gives holds source place
      (.matched last (.list (value item :: values))) := by
  obtain ⟨skipped, hseparator⟩ := h.gives_separator hbetween hplace
  have hround := hseparator.next (h.gives_item hitem hbehind hplace.advance)
  have hne : between ++ text ≠ [] := List.append_ne_nil_of_left_ne_nil (h.ne_nil hbetween) text
  rw [Position.advance_append] at hround hrest
  exact hround.many0_advance hne hrest

/-- Where the list closes, the repetition ends. -/
theorem gives_none (h : Parser.Joins holds source p separator value Item Separator Closes)
    (hcloses : Closes rest) (hplace : place.Faces source rest) :
    (Parser.many0 (separator.next p)).Gives holds source place (.matched place (.list [])) := by
  obtain ⟨failure, hfailed⟩ := h.gives_failed hcloses hplace
  exact hfailed.next_failed.many0_failed

/-- Behind a separator, the repetition goes through all items up to where the list closes. -/
theorem gives_many0 (h : Parser.Joins holds source p separator value Item Separator Closes)
    (hjoined : Joined Item Separator items text) (hbetween : Separator between)
    (hcloses : Closes rest) (hplace : place.Faces source (between ++ (text ++ rest))) :
    (Parser.many0 (separator.next p)).Gives holds source place
      (.matched ((place.advance between).advance text) (.list (items.map value))) := by
  -- each round starts at the separator that the one before has left
  induction hjoined generalizing between place with
  | one hitem =>
    exact h.gives_round hbetween hitem (.inl hcloses) hplace
      (h.gives_none hcloses hplace.advance.advance)
  | @more item items text between' more hitem hbetween' hmore ih =>
    have hbehind : Joined.Behind Separator Closes (between' ++ (more ++ rest)) :=
      .inr ⟨between', more ++ rest, hbetween', rfl⟩
    rw [List.append_assoc, List.append_assoc] at hplace
    have hrest := ih hbetween' hplace.advance.advance
    rw [Position.advance_append _ between', Position.advance_append _ text] at hrest
    exact h.gives_round hbetween hitem hbehind hplace hrest

/-- A list with separators matches a text made of items, up to where the list closes, and gives the
items. -/
theorem gives_sepBy1 (h : Parser.Joins holds source p separator value Item Separator Closes)
    (hjoined : Joined Item Separator items text) (hcloses : Closes rest)
    (hplace : place.Faces source (text ++ rest)) :
    (p.sepBy1 separator).Gives holds source place
      (.matched (place.advance text) (.list (items.map value))) := by
  cases hjoined with
  | one hitem =>
    exact (h.gives_item hitem (.inl hcloses) hplace).sepBy1 (h.gives_none hcloses hplace.advance)
  | @more item items text between more hitem hbetween hmore =>
    have hbehind : Joined.Behind Separator Closes (between ++ (more ++ rest)) :=
      .inr ⟨between, more ++ rest, hbetween, rfl⟩
    rw [List.append_assoc, List.append_assoc] at hplace
    have hrest := h.gives_many0 hmore hbetween hcloses hplace.advance
    rw [Position.advance_append _ between, Position.advance_append _ text] at hrest
    exact (h.gives_item hitem hbehind hplace).sepBy1 hrest

end Parser.Joins

end Descent
