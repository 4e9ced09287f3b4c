import Descent.Proofs.Contracts.Structured
import Descent.Proofs.Places

/-! # Contracts about places

The matches of a structured parser that starts in a source follow one another without a gap, and
each of them ends at the place reached by the text that it consumed. So a contract about the text of
a match, or about its span, has to be shown for such matches only.

* **`Contract.placed`** — from a place in the source, the end of a match is reached, and a contract
  is fulfilled.
* **`Contract.Tiles`** — what has to be shown of such a contract.
* **`Contract.Tiles.holds`** — main statement: structured parsers that start in a source fulfil
  it. -/

namespace Descent

namespace Contract

/-- From a place in the source the end of a match is reached, and a contract is fulfilled. -/
def placed (contract : Contract) : Contract := fun source place stop value =>
  place.Within source → Position.Reaches source place stop ∧ contract source place stop value

/-- A match that starts in the source and ends where its text leads, by a contract. -/
def link (contract : Contract) : Contract := fun source place stop value =>
  place.Within source ∧ Position.Reaches source place stop ∧ contract source place stop value

variable {contract : Contract} {source : Source} {place stop : Position} {values : List Value}

/-- If the first of several matches starts in the source, all of them do, and the end of the last
one is reached. -/
theorem Chain.links (h : contract.placed.Chain source place stop values)
    (hplace : place.Within source) :
    Position.Reaches source place stop ∧ contract.link.Chain source place stop values := by
  induction h with
  | nil place => exact ⟨.refl hplace, .nil place⟩
  | cons first _ ih =>
    obtain ⟨hreaches, hfirst⟩ := first hplace
    obtain ⟨hrest, hlinks⟩ := ih (hreaches.within hplace)
    exact ⟨hreaches.trans hplace hrest, .cons ⟨hplace, hreaches, hfirst⟩ hlinks⟩

/-- The end of the last of several matches is reached from the start of the first. -/
theorem Chain.reaches (h : contract.link.Chain source place stop values)
    (hplace : place.Within source) : Position.Reaches source place stop := by
  induction h with
  | nil place => exact .refl hplace
  | cons first _ ih =>
    obtain ⟨-, hfirst, -⟩ := first
    exact hfirst.trans hplace (ih (hfirst.within hplace))

/-- Each of several matches lies between the first place and the last. -/
theorem Chain.exists_of_getElem? (h : contract.link.Chain source place stop values)
    (hplace : place.Within source) {index : Nat} {value : Value}
    (hvalue : values[index]? = some value) :
    ∃ first last, Position.Reaches source place first ∧ contract.link source first last value ∧
      Position.Reaches source last stop := by
  induction h generalizing index with
  | nil => cases hvalue
  | @cons place middle stop _ _ hfirst hrest ih =>
    have hmiddle := hfirst.2.1.within hplace
    cases index with
    | zero =>
      cases hvalue
      exact ⟨place, middle, .refl hplace, hfirst, hrest.reaches hmiddle⟩
    | succ index =>
      obtain ⟨first, last, hto, hlink, hfrom⟩ := ih hmiddle hvalue
      exact ⟨first, last, hfirst.2.1.trans hplace hto, hlink, hfrom⟩

/-- Of two of several matches, the first ends before the second begins. -/
theorem Chain.exists_of_lt (h : contract.link.Chain source place stop values)
    (hplace : place.Within source) {index index' : Nat} {value value' : Value}
    (hlt : index < index') (hvalue : values[index]? = some value)
    (hvalue' : values[index']? = some value') :
    ∃ first last first' last', contract.link source first last value ∧
      Position.Reaches source last first' ∧ contract.link source first' last' value' := by
  induction h generalizing index index' with
  | nil => cases hvalue
  | @cons place middle stop _ _ hfirst hrest ih =>
    have hmiddle := hfirst.2.1.within hplace
    obtain ⟨index', rfl⟩ := Nat.exists_eq_succ_of_ne_zero (Nat.ne_zero_of_lt hlt)
    cases index with
    | zero =>
      cases hvalue
      obtain ⟨first', last', hto, hlink, -⟩ := hrest.exists_of_getElem? hmiddle hvalue'
      exact ⟨place, middle, first', last', hfirst, hto, hlink⟩
    | succ index => exact ih hmiddle (Nat.lt_of_succ_lt_succ hlt) hvalue hvalue'

/-- What has to be shown of a contract about places, for structured parsers to fulfil it. -/
structure Tiles (constant : Value → Prop) (drops : Prop) (contract : Contract) : Prop where
  /-- A text that stands in the source. -/
  text : ∀ source place found rest, place.Within source →
    source.drop place.index.toNat = found ++ rest →
    contract source place (place.advance found) (.str (String.ofList found))
  /-- A value that the grammar states. -/
  constant : ∀ source place value, place.Within source → constant value →
    contract source place place value
  /-- The absence of a value. -/
  nothing : ∀ source place, place.Within source → contract source place place .nothing
  /-- The place itself. -/
  position : ∀ source place, place.Within source → contract source place place (.position place)
  /-- The values of matches one after another, in a tuple or in a list. -/
  items : ∀ source place stop values, place.Within source →
    contract.link.Chain source place stop values →
    contract source place stop (.tuple values) ∧ contract source place stop (.list values)
  /-- A value in a node with the span of its match. -/
  node : ∀ source place stop value name, contract.link source place stop value →
    contract source place stop (.node name value place stop)
  /-- An item of a value. -/
  item : drops → ∀ source place stop value index, contract.link source place stop value →
    contract source place stop (value.item index)

namespace Tiles

variable {constant : Value → Prop} {drops : Prop}

/-- Such contracts are structural. -/
theorem structural (htiles : contract.Tiles constant drops) :
    contract.placed.Structural constant drops where
  text literal source place stop value heq hplace := by
    obtain ⟨rfl, rfl, rest, hrest⟩ := Position.textResult_eq_matched hplace heq
    have htext := htiles.text source place literal.toList rest hplace hrest
    rw [String.ofList_toList] at htext
    exact ⟨.of_append hplace hrest, htext⟩
  pattern regex source place result hresult stop value heq hplace := by
    subst heq
    obtain ⟨found, rfl, rfl, rest, hrest⟩ := Position.patternResult_eq_matched hplace hresult
    exact ⟨.of_append hplace hrest, htiles.text source place found rest hplace hrest⟩
  constant value source place hvalue hplace :=
    ⟨.refl hplace, htiles.constant source place value hplace hvalue⟩
  nothing source place hplace := ⟨.refl hplace, htiles.nothing source place hplace⟩
  position source place hplace := ⟨.refl hplace, htiles.position source place hplace⟩
  tuple source place stop values hvalues hplace :=
    have hlinks := hvalues.links hplace
    ⟨hlinks.1, (htiles.items source place stop values hplace hlinks.2).1⟩
  list source place stop values hvalues hplace :=
    have hlinks := hvalues.links hplace
    ⟨hlinks.1, (htiles.items source place stop values hplace hlinks.2).2⟩
  node source place stop value name hvalue hplace :=
    -- a node spans exactly what its inner parser has consumed
    have hinner := hvalue hplace
    ⟨hinner.1, htiles.node source place stop value name ⟨hplace, hinner⟩⟩
  item hdrops source place stop value index hvalue hplace :=
    have hwhole := hvalue hplace
    ⟨hwhole.1, htiles.item hdrops source place stop value index ⟨hplace, hwhole⟩⟩

/-- The matches of structured parsers that start in a source end at a place reached from there, and
fulfil contracts about places. -/
theorem holds (htiles : contract.Tiles constant drops) {store after : Store} {known : Known}
    (hstore : store.Grants (Parser.Structured constant drops) known) {parser : Parser}
    (hparser : parser.Structured constant drops known) (hplace : place.Within source)
    {value : Value} {depth : Nat}
    (h : ((Engine.upTo depth).run parser source place).on store
      = some (.ok (.matched stop value), after)) :
    Position.Reaches source place stop ∧ contract source place stop value :=
  hparser.holds htiles.structural hstore h hplace

end Tiles

end Contract

end Descent
