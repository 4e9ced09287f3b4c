import Descent.Proofs.Endings

/-! # How repetitions end

A repetition that ends has run its parser a number of times with matches that moved, and then once
more. Nothing else is needed for it to end.

* **`Parser.Laps`** — some runs of a parser, each from where the one before has stopped.
* **`Parser.ends_many0_iff_laps`** — main statement: what a repetition ends with, whatever its
  parser.
* **`Parser.exists_ends_many0`** — that it returns, if its parser does. -/

namespace Descent.Parser

open Eval Engine

variable {source : Source} {place last : Position} {store finish after : Store}
  {ended : Except Raised Result} {p : Parser} {values : List Value}

/-- A parser is run from a place on a store, and again from where it has stopped, on the store that
it left. All these runs end with matches that move, with the given values. -/
inductive Laps (p : Parser) (source : Source) :
    Position → Store → List Value → Position → Store → Prop where
  /-- It is not run. -/
  | none (place : Position) (store : Store) : Laps p source place store [] place store
  /-- It is run once, and then as often as it is. -/
  | lap {place stop last : Position} {store middle finish : Store} {value : Value}
      {values : List Value}
      (hmatched : p.Ends source place store (.ok (.matched stop value)) middle)
      (hmoved : stop.index ≠ place.index) (hrest : Laps p source stop middle values last finish) :
      Laps p source place store (value :: values) last finish

/-- What a repetition ends with after some laps: with their values once the parser does not move on,
or with the error that it raises. -/
def Closes (p : Parser) (source : Source) (values : List Value) (last : Position) (finish : Store)
    (ended : Except Raised Result) (after : Store) : Prop :=
  (∃ result, p.Ends source last finish (.ok result) after ∧ result.Rests last ∧
    ended = .ok (.matched last (.list values))) ∨
  ∃ cause, p.Ends source last finish (.error cause) after ∧ ended = .error cause

/-- A further lap before some others puts its value before theirs. -/
theorem Closes.cons (h : p.Closes source values last finish ended after) (value : Value) :
    p.Closes source (value :: values) last finish (ended.map (·.mapValue (Value.consTo value)))
      after := by
  rcases h with ⟨result, hends, hrests, rfl⟩ | ⟨cause, hends, rfl⟩
  · exact .inl ⟨result, hends, hrests, rfl⟩
  · exact .inr ⟨cause, hends, rfl⟩

/-- A repetition that ends within some depth has gone through some laps. -/
theorem exists_laps {depth : Nat}
    (h : ((upTo depth).run (.many0 p) source place).on store = some (ended, after)) :
    ∃ values last finish, p.Laps source place store values last finish ∧
      p.Closes source values last finish ended after := by
  -- the rest of the repetition is a repetition one level further down
  induction depth generalizing place store ended with
  | zero => cases h
  | succ depth ih =>
    have hends : ∀ {first middle},
        ((upTo depth).run p source place).on store = some (first, middle) →
          p.Ends source place store first middle := fun hon => ends_iff_exists.mpr ⟨depth, hon⟩
    rw [upTo_succ_run, step_many0] at h
    rcases bind_eq_some h with ⟨cause, hfirst, rfl⟩ | ⟨result, middle, hfirst, hrest⟩
    · exact ⟨[], place, store, .none _ _, .inr ⟨cause, hends hfirst, rfl⟩⟩
    · by_cases hrests : result.Rests place
      · rw [goAgain_of_rests hrests] at hrest
        cases hrest
        exact ⟨[], place, store, .none _ _, .inl ⟨result, hends hfirst, hrests, rfl⟩⟩
      · obtain ⟨stop, value, rfl, hmoved⟩ := exists_of_not_rests hrests
        rw [goAgain, if_neg hmoved, map_on, Option.map_eq_some_iff] at hrest
        obtain ⟨⟨inner, _⟩, hinner, heq⟩ := hrest
        cases heq
        obtain ⟨values, last, finish, hlaps, hcloses⟩ := ih hinner
        exact ⟨value :: values, last, finish, .lap (hends hfirst) hmoved hlaps, hcloses.cons value⟩

/-- After some laps, a repetition ends as it does from there. -/
theorem Laps.ends_many0 (h : p.Laps source place store values last finish)
    (hcloses : p.Closes source values last finish ended after) :
    (Parser.many0 p).Ends source place store ended after := by
  induction h generalizing ended with
  | none =>
    rcases hcloses with ⟨result, hends, hrests, rfl⟩ | ⟨cause, hends, rfl⟩
    · exact ends_many0_iff.mpr (.inr (.inl ⟨result, hends, hrests, rfl⟩))
    · exact ends_many0_iff.mpr (.inl ⟨cause, hends, rfl⟩)
  | lap hmatched hmoved _ ih =>
    rcases hcloses with ⟨result, hends, hrests, rfl⟩ | ⟨cause, hends, rfl⟩
    · exact ends_many0_iff.mpr (.inr (.inr ⟨_, _, _, hmatched, hmoved, _,
        ih (.inl ⟨result, hends, hrests, rfl⟩), rfl⟩))
    · exact ends_many0_iff.mpr (.inr (.inr ⟨_, _, _, hmatched, hmoved, _,
        ih (.inr ⟨cause, hends, rfl⟩), rfl⟩))

/-- A repetition ends so just if there are laps after which it does. -/
theorem ends_many0_iff_laps : (Parser.many0 p).Ends source place store ended after ↔
    ∃ values last finish, p.Laps source place store values last finish ∧
      p.Closes source values last finish ended after := by
  refine ⟨fun h => ?_, fun ⟨values, last, finish, hlaps, hcloses⟩ => hlaps.ends_many0 hcloses⟩
  obtain ⟨depth, hon⟩ := ends_iff_exists.mp h
  exact exists_laps hon

/-- A repetition returns if its parser does wherever it is run, and the matches of that neither go
back nor leave the source: behind each that moves there are fewer characters left. -/
theorem exists_ends_many0 {inv : Position → Store → Prop}
    (hends : ∀ place store, inv place store →
      ∃ result after, p.Ends source place store (.ok result) after)
    (hadvances : ∀ place store stop value after, inv place store →
      p.Ends source place store (.ok (.matched stop value)) after →
        inv stop after ∧ place.index ≤ stop.index ∧ stop.index ≤ max place.index source.length)
    (hplace : inv place store) :
    ∃ result after, (Parser.many0 p).Ends source place store (.ok result) after := by
  induction hleft : ((source.length : Int) - place.index).toNat using Nat.strongRecOn
    generalizing place store with
  | ind left ih =>
    obtain ⟨result, middle, hfirst⟩ := hends place store hplace
    by_cases hrests : result.Rests place
    · exact ⟨_, middle, ends_many0_iff.mpr (.inr (.inl ⟨result, hfirst, hrests, rfl⟩))⟩
    · obtain ⟨stop, value, rfl, hmoved⟩ := exists_of_not_rests hrests
      obtain ⟨hstop, hle, hmax⟩ := hadvances place store stop value middle hplace hfirst
      obtain ⟨rest, after, hrest⟩ := ih _ (by omega) hstop rfl
      exact ⟨_, after,
        ends_many0_iff.mpr (.inr (.inr ⟨stop, value, middle, hfirst, hmoved, _, hrest, rfl⟩))⟩

end Descent.Parser
