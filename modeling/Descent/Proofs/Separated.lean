import Descent.Proofs.Endings.Composed
import Descent.Proofs.Endings.Laps

/-! # Lists with separators

A list with separators is a first item, and then further ones, each behind a separator. It goes on
as long as a separator and an item behind it match and move on together. A separator behind which
there is no further item is given back: the list stops where its last item has stopped.

* **`Parser.Rounds`** — separators with the items behind them, one after another.
* **`Parser.Stuck`**, **`Parser.Breaks`** — where no further item is found, and where looking for
  one ends with an error.
* **`Parser.Composed.ends_rounds_iff`** — what such rounds come to in a repetition.
* **`Parser.Composed.sepBy1_rounds`** — main statement: lists of composed parsers. -/

namespace Descent.Parser

variable {item separator : Parser} {source : Source}

/-- A separator and an item behind it match and move on together, and then further ones do. The
values are those of the items. -/
inductive Rounds (item separator : Parser) (source : Source) :
    Position → Store → List Value → Position → Store → Prop where
  /-- There is none. -/
  | none (place : Position) (store : Store) :
      Rounds item separator source place store [] place store
  /-- The item stops behind the start of the separator; the item may be empty, or the separator. -/
  | round {place between stop last : Position} {store middle after finish : Store}
      {skipped value : Value} {values : List Value}
      (hseparator : separator.Ends source place store (.ok (.matched between skipped)) middle)
      (hitem : item.Ends source between middle (.ok (.matched stop value)) after)
      (hmoved : place.index < stop.index)
      (hrest : Rounds item separator source stop after values last finish) :
      Rounds item separator source place store (value :: values) last finish

/-- There is no further item from a place: the separator fails, or the item fails behind it, or both
of them match without moving on. -/
def Stuck (item separator : Parser) (source : Source) (place : Position) (store after : Store) :
    Prop :=
  (∃ failure, separator.Ends source place store (.ok (.failed failure)) after) ∨
  ∃ between skipped middle result,
    separator.Ends source place store (.ok (.matched between skipped)) middle ∧
    item.Ends source between middle (.ok result) after ∧ result.Rests place

/-- Looking for a further item from a place ends with an error. -/
def Breaks (item separator : Parser) (source : Source) (place : Position) (store : Store)
    (cause : Raised) (after : Store) : Prop :=
  separator.Ends source place store (.error cause) after ∨
  ∃ between skipped middle,
    separator.Ends source place store (.ok (.matched between skipped)) middle ∧
    item.Ends source between middle (.error cause) after

section Next

variable {place : Position} {store after : Store}

/-- The item behind a separator is not found just if there is none. -/
theorem stuck_iff : Stuck item separator source place store after ↔
    ∃ result, (separator.next item).Ends source place store (.ok result) after ∧
      result.Rests place := by
  constructor
  · rintro (⟨failure, hfailed⟩ | ⟨between, skipped, middle, result, hmatched, hitem, hrests⟩)
    · exact ⟨_, ends_next_iff.mpr (.inl ⟨hfailed, unmatched_failed failure⟩), nofun⟩
    · exact ⟨result, ends_next_iff.mpr (.inr ⟨between, skipped, middle, hmatched, hitem⟩), hrests⟩
  · rintro ⟨result, hends, hrests⟩
    rcases ends_next_iff.mp hends with ⟨hseparator, hended⟩ | ⟨between, skipped, middle, hboth⟩
    · cases result with
      | matched stop value => exact absurd rfl (hended stop value)
      | failed failure => exact .inl ⟨failure, hseparator⟩
    · exact .inr ⟨between, skipped, middle, result, hboth.1, hboth.2, hrests⟩

/-- The item behind a separator ends with an error just if looking for it does. -/
theorem breaks_iff {cause : Raised} : Breaks item separator source place store cause after ↔
    (separator.next item).Ends source place store (.error cause) after := by
  refine .trans ?_ ends_next_iff.symm
  exact or_congr_left (and_iff_left (unmatched_error cause)).symm

end Next

namespace Composed

variable {known : Known} {place : Position} {store after finish : Store}
  {ended : Except Raised Result} {values : List Value} {last : Position}

/-- Rounds are laps of the separator and the item behind it. -/
theorem rounds_iff_laps (hitem : item.Composed known) (hseparator : separator.Composed known)
    (hstore : store.HonoursMore known) :
    Rounds item separator source place store values last finish ↔
      (separator.next item).Laps source place store values last finish := by
  have hnext := hseparator.next hitem
  constructor
  · intro h
    clear hstore
    induction h with
    | none => exact .none _ _
    | round hskipped hvalue hmoved _ ih =>
      have hboth := ends_next_iff.mpr (.inr ⟨_, _, _, hskipped, hvalue⟩)
      exact .lap hboth (Int.ne_of_gt hmoved) ih
  · intro h
    induction h with
    | none => exact .none _ _
    | @lap place stop last store middle finish value values hmatched hmoved _ ih =>
      obtain ⟨hle, -⟩ := hnext.advances hstore hmatched
      have hrest := ih (hnext.honoursMore hstore hmatched)
      rcases ends_next_iff.mp hmatched with ⟨-, hended⟩ | ⟨between, skipped, inner, hboth⟩
      · exact absurd rfl (hended stop value)
      · exact .round hboth.1 hboth.2 (by omega) hrest

/-- What repeating a separator with an item behind it ends with, by the rounds that it goes
through. -/
theorem ends_rounds_iff (hitem : item.Composed known) (hseparator : separator.Composed known)
    (hstore : store.HonoursMore known) :
    (Parser.many0 (separator.next item)).Ends source place store ended after ↔
      ∃ values last finish, Rounds item separator source place store values last finish ∧
        ((Stuck item separator source last finish after ∧
            ended = .ok (.matched last (.list values))) ∨
          ∃ cause, Breaks item separator source last finish cause after ∧
            ended = .error cause) := by
  refine ends_many0_iff_laps.trans <| exists_congr fun values => exists_congr fun last =>
    exists_congr fun finish => and_congr (rounds_iff_laps hitem hseparator hstore).symm ?_
  rw [stuck_iff, ← exists_and_right]
  simp only [Closes, breaks_iff, and_assoc]

/-! ## Lists -/

/-- A list with separators ends as its first item does, or after a match of that with the rounds
behind it. -/
theorem ends_sepBy1_iff (hitem : item.Composed known) (hseparator : separator.Composed known)
    (hstore : store.HonoursMore known) :
    (item.sepBy1 separator).Ends source place store ended after ↔
      (item.Ends source place store ended after ∧ Unmatched ended) ∨
        ∃ start first middle, item.Ends source place store (.ok (.matched start first)) middle ∧
          ∃ values last finish, Rounds item separator source start middle values last finish ∧
            ((Stuck item separator source last finish after ∧
                ended = .ok (.matched last (.list (first :: values)))) ∨
              ∃ cause, Breaks item separator source last finish cause after ∧
                ended = .error cause) := by
  refine ends_consFrom_iff.trans <| or_congr_right <| exists_congr fun start =>
    exists_congr fun first => exists_congr fun middle => and_congr_right fun hfirst => ?_
  simp only [ends_rounds_iff hitem hseparator (hitem.honoursMore hstore hfirst)]
  constructor
  · rintro ⟨_, ⟨values, last, finish, hvalues, ⟨hstuck, rfl⟩ | ⟨cause, hbreaks, rfl⟩⟩, rfl⟩
    · exact ⟨values, last, finish, hvalues, .inl ⟨hstuck, rfl⟩⟩
    · exact ⟨values, last, finish, hvalues, .inr ⟨cause, hbreaks, rfl⟩⟩
  · rintro ⟨values, last, finish, hvalues, ⟨hstuck, rfl⟩ | ⟨cause, hbreaks, rfl⟩⟩
    · exact ⟨_, ⟨values, last, finish, hvalues, .inl ⟨hstuck, rfl⟩⟩, rfl⟩
    · exact ⟨_, ⟨values, last, finish, hvalues, .inr ⟨cause, hbreaks, rfl⟩⟩, rfl⟩

/-- The places between a start and the end of the source, or the start alone if it is behind that,
and the stores in which what is known has stayed composed. -/
def InReach (known : Known) (source : Source) (start place : Position) (store : Store) : Prop :=
  (start.index ≤ place.index ∧ place.index ≤ max start.index source.length) ∧
    store.HonoursMore known

/-- A composed parser stops in reach. -/
theorem inReach_of_ends {p : Parser} {start stop : Position} {value : Value}
    (hp : p.Composed known) (h : InReach known source start place store)
    (hends : p.Ends source place store (.ok (.matched stop value)) after) :
    InReach known source start stop after := by
  obtain ⟨⟨hle, hmax⟩, hstore⟩ := h
  obtain ⟨hle', hmax'⟩ := hp.advances hstore hends
  exact ⟨⟨by omega, by omega⟩, hp.honoursMore hstore hends⟩

/-- A list with separators returns if the item and the separator do wherever they are run. -/
theorem exists_ends_sepBy1 (hitem : item.Composed known) (hseparator : separator.Composed known)
    (hstore : store.HonoursMore known)
    (hitems : ∀ place' store', InReach known source place place' store' →
      ∃ result after, item.Ends source place' store' (.ok result) after)
    (hseparators : ∀ place' store', InReach known source place place' store' →
      ∃ result after, separator.Ends source place' store' (.ok result) after) :
    ∃ result after, (item.sepBy1 separator).Ends source place store (.ok result) after := by
  -- what is repeated behind the first item is a separator and an item
  have hnext := hseparator.next hitem
  have hplace : InReach known source place place store :=
    ⟨⟨Int.le_refl _, Int.le_max_left _ _⟩, hstore⟩
  have hboth : ∀ place' store', InReach known source place place' store' →
      ∃ result after, (separator.next item).Ends source place' store' (.ok result) after := by
    intro place' store' hplace'
    obtain ⟨result, middle, hskipped⟩ := hseparators place' store' hplace'
    cases result with
    | failed failure =>
      exact ⟨_, middle, ends_next_iff.mpr (.inl ⟨hskipped, unmatched_failed failure⟩)⟩
    | matched between skipped =>
      obtain ⟨result, after, hvalue⟩ :=
        hitems between middle (inReach_of_ends hseparator hplace' hskipped)
      exact ⟨result, after, ends_next_iff.mpr (.inr ⟨_, _, _, hskipped, hvalue⟩)⟩
  obtain ⟨result, middle, hfirst⟩ := hitems place store hplace
  cases result with
  | failed failure =>
    exact ⟨_, middle, ends_consFrom_iff.mpr (.inl ⟨hfirst, unmatched_failed failure⟩)⟩
  | matched start first =>
    obtain ⟨rest, after, hrest⟩ := exists_ends_many0 hboth (fun _ _ _ _ _ hplace' hends =>
      ⟨inReach_of_ends hnext hplace' hends, hnext.advances hplace'.2 hends⟩)
      (inReach_of_ends hitem hplace hfirst)
    exact ⟨_, after, ends_consFrom_iff.mpr (.inr ⟨start, first, middle, hfirst, _, hrest, rfl⟩)⟩

/-- The value of a list with separators is a list. -/
theorem exists_list_of_sepBy1 (hitem : item.Composed known) (hseparator : separator.Composed known)
    (hstore : store.HonoursMore known) {stop : Position} {value : Value}
    (h : (item.sepBy1 separator).Ends source place store (.ok (.matched stop value)) after) :
    ∃ values, value = .list values := by
  rcases (ends_sepBy1_iff hitem hseparator hstore).mp h with
    ⟨-, hended⟩ | ⟨_, first, _, -, values, _, _, -, ⟨-, heq⟩ | ⟨cause, -, heq⟩⟩
  · exact absurd rfl (hended stop value)
  · cases heq
    exact ⟨first :: values, rfl⟩
  · cases heq

/-- A list that may be empty ends as the other one does, but with no items where that fails. -/
theorem ends_sepBy0_iff (hitem : item.Composed known) (hseparator : separator.Composed known)
    (hstore : store.HonoursMore known) :
    (item.sepBy0 separator).Ends source place store ended after ↔
      ((item.sepBy1 separator).Ends source place store ended after ∧ Unfailed ended) ∨
        (∃ failure,
            (item.sepBy1 separator).Ends source place store (.ok (.failed failure)) after) ∧
          ended = .ok (.matched place (.list [])) := by
  -- a list is no empty value, so it is left as it is
  have hkept : ∀ {inner}, (item.sepBy1 separator).Ends source place store inner after →
      Unfailed inner → inner.map (·.mapValue Value.orEmpty) = inner := by
    rintro (cause | ⟨stop, value⟩ | failure) hinner hended
    · rfl
    · obtain ⟨values, rfl⟩ := exists_list_of_sepBy1 hitem hseparator hstore hinner
      rfl
    · exact absurd rfl (hended failure)
  refine (ends_mapValue_iff _).trans ⟨?_, ?_⟩
  · rintro ⟨inner, hinner, rfl⟩
    rcases ends_or_iff.mp hinner with ⟨hlist, hended⟩ | ⟨failure, middle, hlist, other, hok, rfl⟩
    · rw [hkept hlist hended]
      exact .inl ⟨hlist, hended⟩
    · obtain ⟨rfl, rfl⟩ := ends_ok_iff.mp hok
      exact .inr ⟨⟨failure, hlist⟩, rfl⟩
  · rintro (⟨hlist, hended⟩ | ⟨⟨failure, hlist⟩, rfl⟩)
    · exact ⟨ended, ends_or_iff.mpr (.inl ⟨hlist, hended⟩), (hkept hlist hended).symm⟩
    · have hok : (Parser.ok .nothing).Ends source place after (.ok (.matched place .nothing))
          after := ends_ok_iff.mpr ⟨rfl, rfl⟩
      exact ⟨_, ends_or_iff.mpr (.inr ⟨failure, after, hlist, _, hok, rfl⟩), rfl⟩

/-- A list of one or more items with separators fails just if its first item fails, in the same way.
It matches just if the first item does, with the items of the rounds of separators and items behind
it, as many as there are before no further one is found, and it stops where the last item has
stopped. It ends with an error just if the first item does or looking for a further one does. If the
item and the separator return wherever they can be run in its course, it returns. A list of any
number of items never fails: where the other one would, it matches nothing, and it is the same
otherwise. -/
theorem sepBy1_rounds (hitem : item.Composed known) (hseparator : separator.Composed known)
    (hstore : store.Honours known) :
    (∀ failure after,
      (item.sepBy1 separator).Ends source place store (.ok (.failed failure)) after ↔
        item.Ends source place store (.ok (.failed failure)) after) ∧
    (∀ last value after,
      (item.sepBy1 separator).Ends source place store (.ok (.matched last value)) after ↔
        ∃ start first middle, item.Ends source place store (.ok (.matched start first)) middle ∧
          ∃ values finish, Rounds item separator source start middle values last finish ∧
            Stuck item separator source last finish after ∧ value = .list (first :: values)) ∧
    (∀ cause after, (item.sepBy1 separator).Ends source place store (.error cause) after ↔
      item.Ends source place store (.error cause) after ∨
        ∃ start first middle, item.Ends source place store (.ok (.matched start first)) middle ∧
          ∃ values last finish, Rounds item separator source start middle values last finish ∧
            Breaks item separator source last finish cause after) ∧
    ((∀ place' store', InReach known source place place' store' →
        (∃ result after, item.Ends source place' store' (.ok result) after) ∧
          ∃ result after, separator.Ends source place' store' (.ok result) after) →
      ∃ result after, (item.sepBy1 separator).Ends source place store (.ok result) after) ∧
    ∀ ended after, (item.sepBy0 separator).Ends source place store ended after ↔
      ((item.sepBy1 separator).Ends source place store ended after ∧ Unfailed ended) ∨
        (∃ failure,
            (item.sepBy1 separator).Ends source place store (.ok (.failed failure)) after) ∧
          ended = .ok (.matched place (.list [])) := by
  have hmore := hstore.more
  refine ⟨fun failure after => ?_, fun last value after => ?_, fun cause after => ?_,
    fun hboth => ?_, fun ended after => ends_sepBy0_iff hitem hseparator hmore⟩
  · refine (ends_sepBy1_iff hitem hseparator hmore).trans
      ⟨?_, fun hfirst => .inl ⟨hfirst, unmatched_failed failure⟩⟩
    rintro (⟨hfirst, -⟩ | ⟨_, _, _, -, _, _, _, -, ⟨-, heq⟩ | ⟨_, -, heq⟩⟩)
    · exact hfirst
    · cases heq
    · cases heq
  · refine (ends_sepBy1_iff hitem hseparator hmore).trans ⟨?_, ?_⟩
    · rintro (⟨-, hended⟩ | ⟨start, first, middle, hfirst, values, last', finish, hrounds,
        ⟨hstuck, heq⟩ | ⟨_, -, heq⟩⟩)
      · exact absurd rfl (hended last value)
      · cases heq
        exact ⟨start, first, middle, hfirst, values, finish, hrounds, hstuck, rfl⟩
      · cases heq
    · rintro ⟨start, first, middle, hfirst, values, finish, hrounds, hstuck, rfl⟩
      exact .inr ⟨start, first, middle, hfirst, values, last, finish, hrounds, .inl ⟨hstuck, rfl⟩⟩
  · refine (ends_sepBy1_iff hitem hseparator hmore).trans ⟨?_, ?_⟩
    · rintro (⟨hfirst, -⟩ | ⟨start, first, middle, hfirst, values, last, finish, hrounds,
        ⟨-, heq⟩ | ⟨_, hbreaks, heq⟩⟩)
      · exact .inl hfirst
      · cases heq
      · cases heq
        exact .inr ⟨start, first, middle, hfirst, values, last, finish, hrounds, hbreaks⟩
    · rintro (hfirst | ⟨start, first, middle, hfirst, values, last, finish, hrounds, hbreaks⟩)
      · exact .inl ⟨hfirst, unmatched_error cause⟩
      · exact .inr ⟨start, first, middle, hfirst, values, last, finish, hrounds,
          .inr ⟨cause, hbreaks, rfl⟩⟩
  · exact exists_ends_sepBy1 hitem hseparator hmore
      (fun place' store' h => (hboth place' store' h).1)
      fun place' store' h => (hboth place' store' h).2

/-- A separator at the end of the source is given back. -/
theorem sepBy1_rounds_trailing :
    let item : Parser := .text "a"
    let separator : Parser := .text ","
    let source : Source := ['a', ',', 'a', ',']
    let known : Known := {.className Store.baseName}
    let store := Store.initial false
    item.Composed known ∧ separator.Composed known ∧ store.Honours known ∧
      (item.sepBy1 separator).Ends source .start store
        (.ok (.matched ⟨3, 1, 4⟩ (.list [.str "a", .str "a"]))) store ∧
      ∃ start first middle, item.Ends source .start store (.ok (.matched start first)) middle ∧
        ∃ values finish, Rounds item separator source start middle values ⟨3, 1, 4⟩ finish ∧
          Stuck item separator source ⟨3, 1, 4⟩ finish store ∧
          Value.list [.str "a", .str "a"] = .list (first :: values) := by
  intro item separator source known store
  have hitem : item.Composed known := .text "a"
  have hseparator : separator.Composed known := .text ","
  have hstore : store.Honours known := .initial false
  have hends : (item.sepBy1 separator).Ends source .start store
      (.ok (.matched ⟨3, 1, 4⟩ (.list [.str "a", .str "a"]))) store :=
    ends_iff_exists.mpr ⟨9, rfl⟩
  exact ⟨hitem, hseparator, hstore, hends,
    ((sepBy1_rounds hitem hseparator hstore).2.1 _ _ _).mp hends⟩

end Composed

end Descent.Parser
