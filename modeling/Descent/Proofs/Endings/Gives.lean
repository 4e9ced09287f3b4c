import Descent.Proofs.Endings
import Descent.Proofs.Position.Reaches
import Descent.Proofs.Rules.Houses

/-! # Parsers that give one result

In a store where the lazy parsers make what they are meant to make, a parser without effects gives a
certain result from a place, whatever else the store holds. What it gives follows from what its
parts give, without a word on stores.

* **`Position.Faces`** — what is left of a source behind a place.
* **`Parser.Gives`** — in every store with some property a parser ends with a result, and leaves a
  store with the property.
* **`Parser.Gives.map`**, **`Parser.Gives.sepBy0`**, **`Parser.Gives.wrap`** … — one rule for each
  combinator and each way that it goes.
* **`Parser.Gives.lazy`** — the lazy parser of a rule gives what the rule's parser gives. -/

namespace Descent

/-! ## What a place faces -/

/-- A text is what is left of a source behind a place in it. -/
structure Position.Faces (place : Position) (source : Source) (rest : List Char) : Prop where
  /-- The place lies in the source. -/
  within : place.Within source
  /-- The text stands behind it. -/
  drop : source.drop place.index.toNat = rest

namespace Position.Faces

variable {place : Position} {source : Source} {text rest : List Char}

/-- The start faces the whole source. -/
theorem start (source : Source) : Position.start.Faces source source :=
  ⟨⟨by decide, by simp [Position.start]⟩, rfl⟩

/-- Behind a text that is consumed is what follows the text. -/
theorem advance (h : place.Faces source (text ++ rest)) :
    (place.advance text).Faces source rest := by
  have hreaches := Reaches.of_append h.within h.drop
  have hnonneg := h.within.nonneg
  have hindex : (place.advance text).index.toNat = place.index.toNat + text.length := by
    rw [advance_index]
    omega
  refine ⟨hreaches.within h.within, ?_⟩
  rw [hindex, ← List.drop_drop, h.drop, List.drop_left]

/-- A text stands at a place if it comes first there. -/
theorem standsAt_iff (h : place.Faces source rest) (literal : List Char) :
    source.standsAt literal place.index = true ↔ literal <+: rest := by
  have hnonneg := h.within.nonneg
  rw [Source.standsAt, if_neg (by omega), Bool.and_eq_true, decide_eq_true_eq,
    List.isPrefixOf_iff_prefix, h.drop]
  exact and_iff_right h.within.le_length

/-- What is left of a source is a part of it. -/
theorem infix_of_append (h : place.Faces source (text ++ rest)) : text <:+: source := by
  rw [← List.take_append_drop place.index.toNat source, h.drop, ← List.append_assoc]
  exact List.infix_append _ _ _

end Position.Faces

/-! ## Results -/

/-- In all stores with a property, a parser ends with a certain result from a place, and leaves a
store with the property. -/
def Parser.Gives (holds : Store → Prop) (parser : Parser) (source : Source) (place : Position)
    (result : Result) : Prop :=
  ∀ store, holds store → ∃ after, parser.Ends source place store (.ok result) after ∧ holds after

namespace Parser.Gives

variable {holds : Store → Prop} {source : Source} {place stop : Position} {rest : List Char}
  {p first second : Parser} {value : Value} {values : List Value} {result : Result}
  {failure : Failure}

/-- A parser that looks at nothing but the source gives the result of its step. -/
theorem of_step (h : ∀ depth, (Engine.upTo depth).step p source place = pure result) :
    p.Gives holds source place result :=
  fun store hstore => ⟨store, (ends_iff_of_step h).mpr (Eval.eventually_pure_iff.mpr ⟨rfl, rfl⟩),
    hstore⟩

/-- A text matches where it stands. -/
theorem text {literal : String} (hplace : place.Faces source rest)
    (h : literal.toList <+: rest) : (Parser.text literal).Gives holds source place
      (.matched (place.advance literal.toList) (.str literal)) := by
  refine of_step fun depth => ?_
  show pure (Engine.textResult literal source place) = _
  rw [Engine.textResult, if_pos ((hplace.standsAt_iff _).mpr h)]

/-- A text fails where it does not stand. -/
theorem text_failed {literal : String} (hplace : place.Faces source rest)
    (h : ¬ literal.toList <+: rest) :
    (Parser.text literal).Gives holds source place (.failed ⟨place, [.str literal]⟩) := by
  refine of_step fun depth => ?_
  show pure (Engine.textResult literal source place) = _
  rw [Engine.textResult, if_neg fun hstands => h ((hplace.standsAt_iff _).mp hstands)]

/-- A text of one character matches where that character stands. -/
theorem mark {literal : String} {c : Char} (hliteral : literal.toList = [c])
    (hplace : place.Faces source (c :: rest)) :
    (Parser.text literal).Gives holds source place
      (.matched (place.advance [c]) (.str literal)) := by
  rw [← hliteral]
  exact text hplace (hliteral ▸ List.prefix_append [c] rest)

/-- It fails where any other character stands, or none. -/
theorem mark_failed {literal : String} {c : Char} (hliteral : literal.toList = [c])
    (hplace : place.Faces source rest) (hother : ∀ others, rest ≠ c :: others) :
    (Parser.text literal).Gives holds source place (.failed ⟨place, [.str literal]⟩) := by
  refine text_failed hplace ?_
  rw [hliteral]
  rintro ⟨others, rfl⟩
  exact hother others rfl

/-- A regular expression gives what it matches. -/
theorem pattern {regex : Regex} (h : Engine.patternResult regex source place = .ok result) :
    (Parser.pattern regex).Gives holds source place result := by
  intro store hstore
  refine ⟨store, (ends_iff_of_step fun depth => rfl).mpr ?_, hstore⟩
  refine Eval.eventually_const_iff.mpr ?_
  show (Eval.consult fun _ => Engine.patternResult regex source place).on store = _
  rw [Eval.consult_on, h]

/-- A parser whose function gives a value for the value of a match. -/
theorem map {fn : Value → Action Value} {made : Value}
    (h : p.Gives holds source place (.matched stop value)) (hfn : fn value = .done made) :
    (Parser.map p fn).Gives holds source place (.matched stop made) := by
  intro store hstore
  obtain ⟨after, hends, hafter⟩ := h store hstore
  refine ⟨after, ends_map_iff.mpr (.inr ⟨stop, value, after, hends, .ok made, ?_, rfl⟩), hafter⟩
  rw [hfn]
  exact Action.ends_done_iff.mpr ⟨rfl, rfl⟩

theorem map_failed {fn : Value → Action Value} (h : p.Gives holds source place (.failed failure)) :
    (Parser.map p fn).Gives holds source place (.failed failure) := by
  intro store hstore
  obtain ⟨after, hends, hafter⟩ := h store hstore
  exact ⟨after, ends_map_iff.mpr (.inl ⟨hends, unmatched_failed failure⟩), hafter⟩

/-- A plain function applies to whatever is given. -/
theorem mapValue (h : p.Gives holds source place result) (fn : Value → Value) :
    (p.mapValue fn).Gives holds source place (result.mapValue fn) := by
  intro store hstore
  obtain ⟨after, hends, hafter⟩ := h store hstore
  exact ⟨after, (ends_mapValue_iff fn).mpr ⟨_, hends, rfl⟩, hafter⟩

/-- A parser is followed by the one that a plain function gives for its value. -/
theorem andThen {fn : Value → Parser} (h : p.Gives holds source place (.matched stop value))
    (h' : (fn value).Gives holds source stop result) :
    (p.andThen fn).Gives holds source place result := by
  intro store hstore
  obtain ⟨middle, hfirst, hmiddle⟩ := h store hstore
  obtain ⟨after, hrest, hafter⟩ := h' middle hmiddle
  exact ⟨after, ends_andThen_iff.mpr (.inr ⟨stop, value, middle, hfirst, hrest⟩), hafter⟩

theorem andThen_failed {fn : Value → Parser} (h : p.Gives holds source place (.failed failure)) :
    (p.andThen fn).Gives holds source place (.failed failure) := by
  intro store hstore
  obtain ⟨after, hends, hafter⟩ := h store hstore
  exact ⟨after, ends_andThen_iff.mpr (.inl ⟨hends, unmatched_failed failure⟩), hafter⟩

/-- Two parsers in sequence give what the second gives where the first has stopped. -/
theorem and (h : first.Gives holds source place (.matched stop value))
    (h' : second.Gives holds source stop result) :
    (first.and second).Gives holds source place
      (result.mapValue fun value' => .tuple [value, value']) := by
  intro store hstore
  obtain ⟨middle, hfirst, hmiddle⟩ := h store hstore
  obtain ⟨after, hsecond, hafter⟩ := h' middle hmiddle
  exact ⟨after, ends_and_iff.mpr (.inr ⟨stop, value, middle, hfirst, _, hsecond, rfl⟩), hafter⟩

theorem and_failed (h : first.Gives holds source place (.failed failure)) :
    (first.and second).Gives holds source place (.failed failure) := by
  intro store hstore
  obtain ⟨after, hends, hafter⟩ := h store hstore
  exact ⟨after, ends_and_iff.mpr (.inl ⟨hends, unmatched_failed failure⟩), hafter⟩

/-- Of two parsers in sequence, the value of the second may be kept. -/
theorem next (h : first.Gives holds source place (.matched stop value))
    (h' : second.Gives holds source stop result) :
    (first.next second).Gives holds source place result := by
  have hboth := (h.and h').mapValue (Value.item 1)
  cases result with
  | matched last value' => exact hboth
  | failed failure => exact hboth

theorem next_failed (h : first.Gives holds source place (.failed failure)) :
    (first.next second).Gives holds source place (.failed failure) :=
  (and_failed h).mapValue _

/-- Of two parsers in sequence, the value of the first may be kept. -/
theorem skip (h : first.Gives holds source place (.matched stop value))
    (h' : second.Gives holds source stop result) :
    (first.skip second).Gives holds source place (result.mapValue fun _ => value) := by
  have hboth := (h.and h').mapValue (Value.item 0)
  cases result with
  | matched last value' => exact hboth
  | failed failure => exact hboth

theorem skip_failed (h : first.Gives holds source place (.failed failure)) :
    (first.skip second).Gives holds source place (.failed failure) :=
  (and_failed h).mapValue _

/-- A choice gives what its first side matches. -/
theorem or (h : first.Gives holds source place (.matched stop value)) :
    (Parser.or first second).Gives holds source place (.matched stop value) := by
  intro store hstore
  obtain ⟨after, hends, hafter⟩ := h store hstore
  exact ⟨after, ends_or_iff.mpr (.inl ⟨hends, unfailed_matched stop value⟩), hafter⟩

/-- If that fails, a choice gives what its second side does, with the failures merged. -/
theorem or_failed (h : first.Gives holds source place (.failed failure))
    (h' : second.Gives holds source place result) :
    (Parser.or first second).Gives holds source place (failure.orResult result) := by
  intro store hstore
  obtain ⟨middle, hfirst, hmiddle⟩ := h store hstore
  obtain ⟨after, hsecond, hafter⟩ := h' middle hmiddle
  exact ⟨after, ends_or_iff.mpr (.inr ⟨failure, middle, hfirst, _, hsecond, rfl⟩), hafter⟩

/-- A value is given at once. -/
theorem ok : (Parser.ok value).Gives holds source place (.matched place value) :=
  of_step fun _ => rfl

/-- A repetition ends where its parser fails. -/
theorem many0_failed (h : p.Gives holds source place (.failed failure)) :
    (Parser.many0 p).Gives holds source place (.matched place (.list [])) := by
  intro store hstore
  obtain ⟨after, hends, hafter⟩ := h store hstore
  exact ⟨after, ends_many0_iff.mpr (.inr (.inl ⟨_, hends, nofun, rfl⟩)), hafter⟩

/-- Where its parser matches and moves, a repetition goes on. -/
theorem many0 (h : p.Gives holds source place (.matched stop value))
    (hmoved : stop.index ≠ place.index) (h' : (Parser.many0 p).Gives holds source stop result) :
    (Parser.many0 p).Gives holds source place (result.mapValue (Value.consTo value)) := by
  intro store hstore
  obtain ⟨middle, hfirst, hmiddle⟩ := h store hstore
  obtain ⟨after, hrest, hafter⟩ := h' middle hmiddle
  exact ⟨after, ends_many0_iff.mpr (.inr (.inr ⟨stop, value, middle, hfirst, hmoved, _, hrest,
    rfl⟩)), hafter⟩

/-- Over a text that is not empty, its parser moves. -/
theorem many0_advance {text : List Char}
    (h : p.Gives holds source place (.matched (place.advance text) value)) (htext : text ≠ [])
    (h' : (Parser.many0 p).Gives holds source (place.advance text) result) :
    (Parser.many0 p).Gives holds source place (result.mapValue (Value.consTo value)) := by
  refine h.many0 ?_ h'
  have hpos := List.length_pos_iff.mpr htext
  rw [Position.advance_index]
  omega

/-- A list with separators is its first item and what a repetition of separators and items gives
from there. -/
theorem sepBy1 (h : first.Gives holds source place (.matched stop value)) {last : Position}
    (h' : (Parser.many0 (second.next first)).Gives holds source stop
      (.matched last (.list values))) :
    (first.sepBy1 second).Gives holds source place (.matched last (.list (value :: values))) :=
  h.andThen (h'.mapValue (Value.consTo value))

/-- It may be empty, but where there is a first item it is not. -/
theorem sepBy0 (h : first.Gives holds source place (.matched stop value)) {last : Position}
    (h' : (Parser.many0 (second.next first)).Gives holds source stop
      (.matched last (.list values))) :
    (first.sepBy0 second).Gives holds source place (.matched last (.list (value :: values))) :=
  (h.sepBy1 h').or.mapValue Value.orEmpty

/-- Without a first item, a list with separators is empty. -/
theorem sepBy0_failed (h : first.Gives holds source place (.failed failure)) :
    (first.sepBy0 second).Gives holds source place (.matched place (.list [])) := by
  have hlist : (first.sepBy1 second).Gives holds source place (.failed failure) := h.andThen_failed
  exact (hlist.or_failed ok).mapValue Value.orEmpty

/-- Where the parsers of rules are housed, the lazy parser of a rule gives what the parser of the
rule gives. -/
theorem lazy {language : InstanceId} {products : Table Product} {cells : String → CellId}
    {name : String} {product : Product}
    (h : product.parser.Gives (·.Houses language products cells) source place result)
    (hproduct : products.get? name = some product) :
    (Parser.lazy (cells name)).Gives (·.Houses language products cells) source place result := by
  intro store hstore
  obtain ⟨middle, hon, hmiddle⟩ := hstore.assemble Engine.silent hproduct
  have hbuild : Eval.Eventually (fun depth => (Engine.upTo depth).build (cells name)) store
      (.ok product.parser, middle) :=
    Eval.Eventually.succ ⟨0, fun deeper hle =>
      Engine.assemble_below (Engine.below_upTo hle) (cells name) store _ hon⟩
  obtain ⟨after, hends, hafter⟩ := h middle hmiddle
  exact ⟨after, (Parser.ends_iff_of_step fun _ => rfl).mpr (hbuild.bind hends), hafter⟩

end Parser.Gives

end Descent
