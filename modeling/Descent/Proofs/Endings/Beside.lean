import Descent.Proofs.Cached
import Descent.Proofs.Endings

/-! # How runs end on stores with other histories

Whatever has been done with pure parsers, what is alike still ends alike. So the runs of the parts
of one parser can be compared with those of the parts of another one, although these stand elsewhere
in a longer course of runs.

* **`Store.Beside`** — what is paired in two stores is made alike, whatever has been made already.
* **`Store.Beside.uses`** — it stays so.
* **`Store.Beside.exists_ends`** — main statement: parsers that are alike end alike.
* **`Store.Beside.made`** — so do scripts, and the parsers that they make are alike. -/

namespace Descent

variable {store store' after after' : Store} {pairs : Pairing}

/-! ## Stores -/

/-- What is paired in two stores is made alike in them, whatever has been made already. -/
def Store.Beside (pairs : Pairing) (store store' : Store) : Prop :=
  ∃ known known', store.Tied known known' pairs store'

namespace Store

theorem Pure.beside (h : store.Pure pairs) : Beside pairs store store :=
  let ⟨known, htied⟩ := h
  ⟨known, known, htied⟩

/-- What is paired in one store is made alike in it, whatever is known on either side. -/
theorem Beside.pure (h : Beside pairs store store) : store.Pure pairs := by
  obtain ⟨known, known', htied⟩ := h
  have hlater := Store.Later.union htied.tracked htied.tracked'
  have hlater' := Store.Later.union htied.tracked' htied.tracked
  rw [Set.union_comm] at hlater'
  exact ⟨_, htied.later hlater' hlater⟩

theorem Beside.flip (h : Beside pairs store store') : Beside pairs.flip store' store :=
  let ⟨known, known', htied⟩ := h
  ⟨known', known, htied.flip⟩

/-- It stays so, whatever is done with pure parsers. -/
theorem Beside.uses (h : Beside pairs store store')
    (huses : Relation.ReflTransGen Uses store after)
    (huses' : Relation.ReflTransGen Uses store' after') : Beside pairs after after' := by
  obtain ⟨known, known', htied⟩ := h
  obtain ⟨larger, hlater⟩ := later_of_uses huses htied.tracked
  obtain ⟨larger', hlater'⟩ := later_of_uses huses' htied.tracked'
  exact ⟨larger, larger', htied.later hlater hlater'⟩

/-- What is made by pure builders stays so. -/
theorem Pure.uses (h : store.Pure pairs) (huses : Relation.ReflTransGen Uses store after) :
    after.Pure pairs :=
  (h.beside.uses huses huses).pure

end Store

/-! ## Parsers -/

variable {p p' : Parser} {source : Source} {place : Position} {ended : Except Raised Result}

/-- On stores in which what is paired is made alike, parsers that are alike end alike. -/
theorem Store.Beside.exists_ends (h : Store.Beside pairs store store')
    (hp : Parser.Alike .caching pairs p p') (hends : p.Ends source place store ended after) :
    ∃ ended' after', p'.Ends source place store' ended' after' ∧
      Outcomes .caching Eq ended ended' := by
  obtain ⟨known, known', htied⟩ := h
  obtain ⟨depth, hon⟩ := Parser.ends_iff_exists.mp hends
  have hagree := htied.agree hp Engine.builds_assemble Engine.builds_assemble source place
  rw [Engine.levels_assemble] at hagree
  obtain ⟨depth', ⟨ended', after'⟩, hon'⟩ := hagree.1.mp ⟨depth, _, hon⟩
  exact ⟨ended', after', Parser.ends_iff_exists.mpr ⟨depth', hon'⟩,
    hagree.2 _ _ _ _ _ _ hon hon'⟩

/-- A store after a pure parser has ended. -/
theorem Parser.Ends.uses (hends : p.Ends source place store ended after) (hp : p.Pure store) :
    Store.Uses store after :=
  let ⟨_, hon⟩ := Parser.ends_iff_exists.mp hends
  .of_run hp hon

/-- A pure parser stays so, whatever is done with pure parsers. -/
theorem Parser.Pure.uses (h : p.Pure store) (huses : Relation.ReflTransGen Store.Uses store after) :
    p.Pure after :=
  let ⟨pairs, hpure, hp⟩ := h
  ⟨pairs, hpure.uses huses, hp⟩

/-- Families of computations end alike on two stores if they do so whenever one of them ends. -/
theorem Eval.agree_of_ends {p' : Parser} {place' : Position}
    (h : (∃ ended after, p.Ends source place store ended after) →
      ∃ ended after ended' after', p.Ends source place store ended after ∧
        p'.Ends source place' store' ended' after' ∧ Outcomes .caching Eq ended ended')
    (h' : (∃ ended after, p'.Ends source place' store' ended after) →
      ∃ ended after, p.Ends source place store ended after) :
    Eval.Agree (fun depth => (Engine.upTo depth).run p source place) store
      (fun depth => (Engine.upTo depth).run p' source place') store' := by
  refine ⟨⟨?_, ?_⟩, ?_⟩
  · rintro ⟨depth, ⟨ended, after⟩, hon⟩
    obtain ⟨_, _, ended', after', -, hends', -⟩ :=
      h ⟨ended, after, Parser.ends_iff_exists.mpr ⟨depth, hon⟩⟩
    obtain ⟨depth', hon'⟩ := Parser.ends_iff_exists.mp hends'
    exact ⟨depth', _, hon'⟩
  · rintro ⟨depth, ⟨ended, after⟩, hon⟩
    obtain ⟨ended', after', hends'⟩ := h' ⟨ended, after, Parser.ends_iff_exists.mpr ⟨depth, hon⟩⟩
    obtain ⟨depth', hon'⟩ := Parser.ends_iff_exists.mp hends'
    exact ⟨depth', _, hon'⟩
  · intro depth depth' ended ended' after after' hon hon'
    have hends := Parser.ends_iff_exists.mpr ⟨depth, hon⟩
    obtain ⟨_, _, _, _, hfirst, hsecond, hsame⟩ := h ⟨_, _, hends⟩
    obtain ⟨rfl, -⟩ := hsecond.unique (Parser.ends_iff_exists.mpr ⟨depth', hon'⟩)
    obtain ⟨rfl, -⟩ := hfirst.unique hends
    exact hsame

/-! ## Scripts that make parsers -/

variable {action action' : Action Parser} {q : Parser}

/-- On such stores, scripts that are alike end alike, and the parsers that they make are alike. -/
theorem Store.Beside.made (h : Store.Beside pairs store store')
    (haction : Action.Alike .caching pairs action.object.objects action'.object.objects)
    (hends : action.Ends store (.ok q) after) :
    ∃ larger q' after', action'.Ends store' (.ok q') after' ∧ Store.Beside larger after after' ∧
      Parser.Alike .caching larger q q' := by
  obtain ⟨known, known', htied⟩ := h
  obtain ⟨depth, hon⟩ := (Action.ends_object_iff.mpr ⟨_, hends, rfl⟩).exists_on
  have hmimics : (Engine.upTo depth).Mimics (tracked store known store' known') Engine.upTo := by
    rw [← Engine.levels_assemble]
    exact Engine.builds_assemble.mimics_levels Engine.builds_assemble depth
  obtain ⟨larger, outcome, after', -, hends', ⟨_, _, -, -, htied'⟩, houtcome⟩ :=
    hmimics.objects haction store store'
      ⟨_, _, .refl htied.tracked, .refl htied.tracked', htied⟩ _ _ hon
  obtain ⟨inner, hinner, rfl⟩ := Action.ends_object_iff.mp hends'
  cases inner with
  | error cause => cases houtcome
  | ok q' =>
    cases houtcome with
    | ok hq => exact ⟨larger, q', after', hinner, ⟨_, _, htied'⟩, hq⟩

/-- The parser that a pure script makes is pure. -/
theorem Store.Pure.made (h : store.Pure pairs)
    (haction : Action.Alike .caching pairs action.object.objects action.object.objects)
    (hends : action.Ends store (.ok q) after) : q.Pure after := by
  -- performed beside itself, the script makes the same parser twice
  obtain ⟨larger, q', after', hends', hbeside, hq⟩ := h.beside.made haction hends
  obtain ⟨heq, rfl⟩ := hends.unique hends'
  cases heq
  exact ⟨larger, hbeside.pure, hq⟩

/-- A store after a pure script has ended. -/
theorem Action.Ends.uses {ended : Except Raised Parser} (hends : action.Ends store ended after)
    (h : store.Pure pairs)
    (haction : Action.Alike .caching pairs action.object.objects action.object.objects) :
    Store.Uses store after := by
  obtain ⟨depth, hon⟩ := (Action.ends_object_iff.mpr ⟨_, hends, rfl⟩).exists_on
  exact ⟨.perform action.object, depth, _, ⟨pairs, h, haction⟩,
    (Eval.map_on _ _ _).trans (congrArg _ hon)⟩

end Descent
