import Descent.Proofs.Chronicles

/-! # The laws of sequencing

Giving a value and going on from a match obey the laws of a monad, and all other ways to put parsers
in sequence come down to them. Two sides of a law have the same chronicle: they end with the same
result or error, leave the same store, and on the way the same parsers are run and the same things
are done by functions, in the same order.

* **`Parser.chronicle_ok_into`**, **`Parser.chronicle_into_ok`**,
  **`Parser.chronicle_into_into`** — the laws of a monad.
* **`Parser.chained`** — one parser after another, by going on from match to match.
* **`Nesting`** — sequences in sequences.
* **`Nesting.chronicle_flat`** — but for the nesting of the tuples, they are one sequence.
* **`Parser.chronicle_next`**, **`Parser.chronicle_wrap`**, **`Parser.chronicle_node`** … — the
  combinators that keep some of the values.
* **`Parser.chronicle_laws`** — main statement: all the laws. -/

namespace Descent

namespace Parser

open Engine

variable (p q : Parser) (source : Source) (place : Position)

/-! ## The laws of a monad -/

/-- A function that goes on from a given value is called on the value. -/
theorem chronicle_ok_into (value : Value) (make : Value → Action Parser) :
    ((Parser.ok value).into make).chronicle source place
      = (make value).chronicle >>= fun q => q.chronicle source place := by
  rw [chronicle_into, chronicle_ok, pure_bind]
  rfl

/-- To go on by giving the value changes nothing. -/
theorem chronicle_into_ok : (p.into fun value => .done (.ok value)).chronicle source place
    = p.chronicle source place := by
  rw [chronicle_into]
  refine (bind_congr fun result => ?_).trans (bind_pure (p.chronicle source place))
  cases result with
  | failed failure => rfl
  | matched stop value =>
    show Action.chronicle _ >>= _ = _
    rw [Action.chronicle_done, pure_bind, chronicle_ok]

/-- It does not matter whether the second step goes on from the first, or is part of it. -/
theorem chronicle_into_into (make make' : Value → Action Parser) :
    ((p.into make).into make').chronicle source place
      = (p.into fun value => (make value).bind fun q => .done (q.into make')).chronicle source
          place := by
  rw [chronicle_into, chronicle_into, chronicle_into, goOn_assoc]
  refine goOn_congr _ fun stop value => ?_
  rw [Action.chronicle_bind, bind_assoc, bind_assoc]
  refine bind_congr fun q => ?_
  rw [Action.chronicle_done, pure_bind, chronicle_into]

/-- To apply a function to the value is to go on by giving what the function makes of it. -/
theorem chronicle_map_eq_into (fn : Value → Action Value) :
    (Parser.map p fn).chronicle source place
      = (p.into fun value => (fn value).bind fun made => .done (.ok made)).chronicle source
          place := by
  rw [chronicle_map, chronicle_into]
  refine goOn_congr _ fun stop value => ?_
  rw [Action.chronicle_bind, bind_assoc]
  refine bind_congr fun made => ?_
  rw [Action.chronicle_done, pure_bind, chronicle_ok]

/-- Where the function only says which parser comes next, that parser is run. -/
theorem chronicle_andThen (next : Value → Parser) : (p.andThen next).chronicle source place
    = p.chronicle source place >>= goOn fun stop value => (next value).chronicle source stop := by
  have hinto : p.andThen next = p.into fun value => .done (next value) := rfl
  rw [hinto, chronicle_into]
  refine goOn_congr _ fun stop value => ?_
  rw [Action.chronicle_done, pure_bind]

theorem chronicle_mapValue (fn : Value → Value) : (p.mapValue fn).chronicle source place
    = p.chronicle source place >>= goOn fun stop value => pure (.matched stop (fn value)) := by
  rw [mapValue, chronicle_map]
  refine goOn_congr _ fun stop value => ?_
  rw [Action.chronicle_done, pure_bind]

/-! ## Parsers in turn -/

section InTurn

variable {source place}

/-- What is done after parsers in turn can be part of what comes after them. -/
theorem inTurn_goOn (ps : List Parser) (place : Position)
    (next : Position → List Value → Chronicle Result) (last : Position → Value → Chronicle Result) :
    inTurn source ps place next >>= goOn last
      = inTurn source ps place fun stop values => next stop values >>= goOn last := by
  induction ps generalizing place next with
  | nil => rfl
  | cons p ps ih =>
    rw [inTurn, inTurn, goOn_assoc]
    exact goOn_congr _ fun stop value => ih stop _

/-- Parsers in turn, then further ones. -/
theorem inTurn_append (ps qs : List Parser) (place : Position)
    (next : Position → List Value → Chronicle Result) :
    inTurn source (ps ++ qs) place next = inTurn source ps place fun stop values =>
      inTurn source qs stop fun last values' => next last (values ++ values') := by
  induction ps generalizing place next with
  | nil => rfl
  | cons p ps ih =>
    rw [List.cons_append, inTurn, inTurn]
    exact goOn_congr _ fun stop value => ih stop _

end InTurn

/-- The tuple of the given values and of those of some parsers, got by going on from each match. -/
def chained (values : List Value) : List Parser → Parser
  | [] => .ok (.tuple values)
  | p :: ps => p.andThen fun value => chained (values ++ [value]) ps

theorem chronicle_chained (values : List Value) (ps : List Parser) :
    (chained values ps).chronicle source place = inTurn source ps place fun stop values' =>
      pure (.matched stop (.tuple (values ++ values'))) := by
  induction ps generalizing values place with
  | nil =>
    rw [chained, chronicle_ok, inTurn, List.append_nil]
  | cons p ps ih =>
    rw [chained, chronicle_andThen, inTurn]
    refine goOn_congr _ fun stop value => ?_
    rw [ih]
    simp only [List.append_assoc, List.singleton_append]

/-- A function applied to the tuple of a sequence. -/
theorem chronicle_seq_mapValue (ps : List Parser) (fn : Value → Value) :
    ((Parser.seq ps).mapValue fn).chronicle source place
      = inTurn source ps place fun stop values => pure (.matched stop (fn (.tuple values))) := by
  rw [chronicle_mapValue, chronicle_seq, inTurn_goOn]
  rfl

end Parser

/-! ## Sequences in sequences -/

/-- Parsers put together to sequences, these to further sequences, and so on. -/
inductive Nesting : Type where
  /-- One parser. -/
  | single (parser : Parser)
  /-- A sequence. -/
  | group (parts : List Nesting)

namespace Nesting

/-- The parser. -/
def parser : Nesting → Parser
  | .single p => p
  | .group parts => .seq (parsers parts)
where
  /-- The parsers of several. -/
  parsers : List Nesting → List Parser
    | [] => []
    | part :: parts => part.parser :: parsers parts

/-- The parsers of which it is made, without the sequences. -/
def singles : Nesting → List Parser
  | .single p => [p]
  | .group parts => allSingles parts
where
  /-- Those of several. -/
  allSingles : List Nesting → List Parser
    | [] => []
    | part :: parts => part.singles ++ allSingles parts

/-- The values of these parsers in the value of the whole, in which there is a tuple for each
sequence. -/
def flat : Nesting → Value → List Value
  | .single _, value => [value]
  | .group parts, .tuple values => flats parts values
  | .group _, _ => []
where
  /-- The same for several. -/
  flats : List Nesting → List Value → List Value
    | part :: parts, value :: values => part.flat value ++ flats parts values
    | _, _ => []

variable (source : Source)

mutual

/-- A nesting runs the parsers of which it is made in turn. -/
theorem chronicle_goOn_flat : ∀ (nesting : Nesting) (place : Position)
    (next : Position → List Value → Chronicle Result),
    nesting.parser.chronicle source place
        >>= Engine.goOn (fun stop value => next stop (nesting.flat value))
      = Parser.inTurn source nesting.singles place next
  | .single p, place, next => rfl
  | .group parts, place, next => by
    rw [parser, Parser.chronicle_seq, Parser.inTurn_goOn, singles,
      ← inTurn_parsers parts place next]
    simp only [pure_bind, Engine.goOn, flat]

/-- So do several. -/
theorem inTurn_parsers : ∀ (parts : List Nesting) (place : Position)
    (next : Position → List Value → Chronicle Result),
    Parser.inTurn source (parser.parsers parts) place
        (fun stop values => next stop (flat.flats parts values))
      = Parser.inTurn source (singles.allSingles parts) place next
  | [], place, next => rfl
  | part :: parts, place, next => by
    -- the first part is taken apart where its value is used, the others behind it
    rw [parser.parsers, singles.allSingles, Parser.inTurn_append, Parser.inTurn,
      ← chronicle_goOn_flat part]
    refine Engine.goOn_congr _ fun stop value => ?_
    rw [← inTurn_parsers parts stop]
    rfl

end

/-- But for the nesting of the tuples, sequences in sequences are one sequence. -/
theorem chronicle_flat (nesting : Nesting) (place : Position) :
    (nesting.parser.mapValue fun value => .tuple (nesting.flat value)).chronicle source place
      = (Parser.seq nesting.singles).chronicle source place := by
  rw [Parser.chronicle_mapValue, Parser.chronicle_seq]
  exact nesting.chronicle_goOn_flat source place fun stop values =>
    pure (.matched stop (.tuple values))

/-- Two sequences in a sequence, and the values of their parsers. -/
example :
    let nesting : Nesting := .group [.group [.single (.text "a"), .single .eof], .group []]
    nesting.singles = [.text "a", .eof] ∧
      nesting.flat (.tuple [.tuple [.str "a", .nothing], .tuple []]) = [.str "a", .nothing] :=
  ⟨rfl, rfl⟩

end Nesting

namespace Parser

open Engine

variable (p q : Parser) (source : Source) (place : Position)

/-! ## Derived combinators -/

/-- A function applied to the pair of two values. -/
theorem chronicle_pair (fn : Value → Value) :
    ((Parser.seq [p, q]).mapValue fn).chronicle source place
      = (p.andThen fun value => q.andThen fun value' => .ok (fn (.tuple [value, value']))).chronicle
          source place := by
  rw [chronicle_seq_mapValue, chronicle_andThen]
  refine goOn_congr _ fun stop value => ?_
  rw [chronicle_andThen]
  refine goOn_congr _ fun stop' value' => ?_
  rw [chronicle_ok]
  rfl

theorem chronicle_next : (p.next q).chronicle source place
    = (p.andThen fun _ => q.andThen fun value => .ok value).chronicle source place :=
  chronicle_pair p q source place (Value.item 1)

theorem chronicle_skip : (p.skip q).chronicle source place
    = (p.andThen fun value => q.andThen fun _ => .ok value).chronicle source place :=
  chronicle_pair p q source place (Value.item 0)

theorem chronicle_wrap (before after : Parser) : (p.wrap before after).chronicle source place
    = (before.andThen fun _ => p.andThen fun value => after.andThen fun _ => .ok value).chronicle
        source place := by
  rw [wrap, chronicle_skip, chronicle_andThen, chronicle_next, chronicle_andThen,
    chronicle_andThen, goOn_assoc]
  refine goOn_congr _ fun stop _ => ?_
  rw [chronicle_andThen, chronicle_andThen, goOn_assoc]
  refine goOn_congr _ fun stop value => ?_
  rw [chronicle_ok, pure_bind]
  rfl

/-- The place that a value is. -/
def placeOf : Value → Position
  | .position place => place
  | _ => .start

/-- The parser for the place gives the place. -/
theorem chronicle_location_goOn (next next' : Position → Value → Chronicle Result)
    (h : next place (.position place) = next' place (.position place)) :
    Parser.location.chronicle source place >>= goOn next
      = Parser.location.chronicle source place >>= goOn next' := by
  have hrun : ∀ store, ∃ scenes, (Parser.location.chronicle source place).on store
      = some (.ok (.matched place (.position place)), store, scenes) := fun store =>
    ⟨_, Film.chronicle_on_of_on (Film.rising_run .location source place)
      (show ((Film.upTo 1).run .location source place).on store = _ from rfl)⟩
  ext1 store
  obtain ⟨scenes, hon⟩ := hrun store
  rw [Chronicle.bind_on, Chronicle.bind_on, hon]
  simp only [goOn, h]

theorem chronicle_node (name : String) : (p.node name).chronicle source place
    = (Parser.location.andThen fun start => p.andThen fun value =>
        Parser.location.andThen fun stop =>
          .ok (.node name value (placeOf start) (placeOf stop))).chronicle source place := by
  rw [node, chronicle_seq_mapValue, chronicle_andThen]
  -- the projections agree on tuples whose ends are places, and these are
  refine chronicle_location_goOn source place _ _ ?_
  rw [chronicle_andThen]
  refine goOn_congr _ fun stop value => ?_
  rw [chronicle_andThen]
  refine chronicle_location_goOn source stop _ _ ?_
  rw [chronicle_ok]
  rfl

/-! ## All the laws -/

/-- Sequencing obeys the laws of a monad, and the other ways to put parsers in sequence are going on
from match to match. The two sides of each law have the same chronicle from every place of every
source. -/
theorem chronicle_laws (source : Source) (place : Position) :
    -- to give a value and go on from it is to go on
    (∀ (value : Value) (make : Value → Action Parser),
      ((Parser.ok value).into make).chronicle source place
        = (make value).chronicle >>= fun q => q.chronicle source place) ∧
    -- to go on by giving the value changes nothing
    (∀ p : Parser, (p.into fun value => .done (.ok value)).chronicle source place
      = p.chronicle source place) ∧
    -- it does not matter how three steps are put together
    (∀ (p : Parser) (make make' : Value → Action Parser),
      ((p.into make).into make').chronicle source place
        = (p.into fun value => (make value).bind fun q => .done (q.into make')).chronicle source
            place) ∧
    -- to apply a function is to go on by giving what it makes
    (∀ (p : Parser) (fn : Value → Action Value), (Parser.map p fn).chronicle source place
      = (p.into fun value => (fn value).bind fun made => .done (.ok made)).chronicle source place) ∧
    -- a sequence goes on from match to match, and gives all the values in the end
    (∀ ps : List Parser, (Parser.seq ps).chronicle source place
      = (chained [] ps).chronicle source place) ∧
    -- it does not matter how the parsers of a sequence are put together to sequences
    (∀ nesting : Nesting,
      (nesting.parser.mapValue fun value => .tuple (nesting.flat value)).chronicle source place
        = (Parser.seq nesting.singles).chronicle source place) ∧
    -- a failure of one of them is passed on as it is, and what comes after it is not run
    (∀ (early : List Parser) (p : Parser) (late : List Parser),
      (Parser.seq (early ++ p :: late)).chronicle source place
        = (Parser.seq early).chronicle source place >>= goOn fun stop values =>
            p.chronicle source stop >>= goOn fun stop' value =>
              (chained (values.tupleItems?.getD [] ++ [value]) late).chronicle source stop') ∧
    -- the other combinators keep some of the values
    (∀ p q : Parser, (p.next q).chronicle source place
      = (p.andThen fun _ => q.andThen fun value => .ok value).chronicle source place) ∧
    (∀ p q : Parser, (p.skip q).chronicle source place
      = (p.andThen fun value => q.andThen fun _ => .ok value).chronicle source place) ∧
    (∀ p before after : Parser, (p.wrap before after).chronicle source place
      = (before.andThen fun _ => p.andThen fun value => after.andThen fun _ => .ok value).chronicle
          source place) ∧
    (∀ p around : Parser, (p.trim around).chronicle source place
      = (around.andThen fun _ => p.andThen fun value => around.andThen fun _ => .ok value).chronicle
          source place) ∧
    ∀ (p : Parser) (name : String), (p.node name).chronicle source place
      = (Parser.location.andThen fun start => p.andThen fun value =>
          Parser.location.andThen fun stop =>
            .ok (.node name value (placeOf start) (placeOf stop))).chronicle source place := by
  refine ⟨fun value make => chronicle_ok_into source place value make,
    fun p => p.chronicle_into_ok source place,
    fun p make make' => p.chronicle_into_into source place make make',
    fun p fn => p.chronicle_map_eq_into source place fn, fun ps => ?_,
    fun nesting => nesting.chronicle_flat source place, fun early p late => ?_,
    fun p q => p.chronicle_next q source place, fun p q => p.chronicle_skip q source place,
    fun p before after => p.chronicle_wrap source place before after,
    fun p around => p.chronicle_wrap source place around around,
    fun p name => p.chronicle_node source place name⟩
  · rw [chronicle_seq, chronicle_chained]
    rfl
  · rw [chronicle_seq, chronicle_seq, inTurn_append, inTurn_goOn]
    congr 1
    funext stop values
    rw [pure_bind]
    refine goOn_congr _ fun stop' value => ?_
    rw [chronicle_chained]
    simp [Value.tupleItems?]

end Parser

end Descent
