import Descent.Proofs.Position.Advance
import Mathlib.Tactic.Ring

/-! # From one place of a source to another

* **`Source.between`** — the text of a source from one index to another.
* **`Position.Within`** — the index of a place lies in a source.
* **`Position.Reaches`** — one place comes from another by consuming the text of the source between
  the two.

Reaching goes on from place to place (`Position.Reaches.trans`), and whatever stands in the source
leads from its start to its end (`Position.Reaches.of_append`). -/

namespace Descent

/-- The text of a source from one index up to another. -/
def Source.between (source : Source) (first last : Int) : List Char :=
  (source.drop first.toNat).take (last - first).toNat

namespace Position

/-- The index of a place lies in a source, or just behind its last character. -/
structure Within (place : Position) (source : Source) : Prop where
  /-- It is not negative. -/
  nonneg : 0 ≤ place.index
  /-- It is not beyond the end. -/
  le_length : place.index ≤ source.length

/-- A second place comes from a first one by consuming the text of the source between them. -/
structure Reaches (source : Source) (place stop : Position) : Prop where
  /-- The second place is not before the first. -/
  le_stop : place.index ≤ stop.index
  /-- The second place is not beyond the end of the source. -/
  stop_le : stop.index ≤ source.length
  /-- The coordinates of the second place follow from the text in between. -/
  eq_advance : stop = place.advance (source.between place.index stop.index)

variable {source : Source} {place middle stop : Position}

/-- From an index to the same index there is no text. -/
theorem between_self (source : Source) (index : Int) : source.between index index = [] := by
  rw [Source.between, Int.sub_self, Int.toNat_zero, List.take_zero]

/-- The text between two indices is the text up to an index between them and the text from there. -/
theorem between_append {first mid last : Int} (hfirst : 0 ≤ first) (hmid : first ≤ mid)
    (hlast : mid ≤ last) :
    source.between first mid ++ source.between mid last = source.between first last := by
  unfold Source.between
  have hdrop : mid.toNat = first.toNat + (mid - first).toNat := by omega
  have htake : (last - first).toNat = (mid - first).toNat + (last - mid).toNat := by omega
  rw [hdrop, ← List.drop_drop, htake, List.take_add]

/-- A place in a source reaches itself. -/
theorem Reaches.refl (h : place.Within source) : Reaches source place place := by
  refine ⟨le_rfl, h.le_length, ?_⟩
  rw [between_self, advance_nil]

/-- What is reached lies in the source. -/
theorem Reaches.within (h : Reaches source place stop) (hplace : place.Within source) :
    stop.Within source :=
  ⟨le_trans hplace.nonneg h.le_stop, h.stop_le⟩

/-- Reaching goes on from place to place. -/
theorem Reaches.trans (hplace : place.Within source) (hfirst : Reaches source place middle)
    (hsecond : Reaches source middle stop) : Reaches source place stop := by
  refine ⟨le_trans hfirst.le_stop hsecond.le_stop, hsecond.stop_le, ?_⟩
  calc stop = middle.advance (source.between middle.index stop.index) := hsecond.eq_advance
    _ = (place.advance (source.between place.index middle.index)).advance
          (source.between middle.index stop.index) := by rw [← hfirst.eq_advance]
    _ = place.advance (source.between place.index stop.index) := by
        rw [advance_append, between_append hplace.nonneg hfirst.le_stop hsecond.le_stop]

/-- Between a place and the place behind a text that stands there is the text. -/
theorem between_advance (hplace : place.Within source) {consumed rest : List Char}
    (h : source.drop place.index.toNat = consumed ++ rest) :
    source.between place.index (place.advance consumed).index = consumed := by
  have hnonneg := hplace.nonneg
  -- the stretch is as long as the text, which stands at its beginning
  have hcount : ((place.advance consumed).index - place.index).toNat = consumed.length := by
    rw [advance_index]
    omega
  rw [Source.between, h, hcount, List.take_left]

/-- A text that stands at a place leads to the place behind it. -/
theorem Reaches.of_append (hplace : place.Within source) {consumed rest : List Char}
    (h : source.drop place.index.toNat = consumed ++ rest) :
    Reaches source place (place.advance consumed) := by
  have hlength := congrArg List.length h
  rw [List.length_drop, List.length_append] at hlength
  have hnonneg := hplace.nonneg
  have hle := hplace.le_length
  refine ⟨?_, ?_, by rw [between_advance hplace h]⟩
  · rw [advance_index]
    omega
  · rw [advance_index]
    omega

/-- From the start of a source every place is where the text before it leads. -/
theorem Reaches.eq_start_advance (h : Reaches source start stop) :
    stop = start.advance (source.take stop.index.toNat) := by
  have hbetween : source.between start.index stop.index = source.take stop.index.toNat := by
    simp [Source.between, start]
  rw [← hbetween]
  exact h.eq_advance

end Position

end Descent
