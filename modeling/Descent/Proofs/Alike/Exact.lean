import Descent.Proofs.Alike.InStep

/-! # Stores on which everything ends the same

* **`Leeway.exact`** — two runs may not differ in anything.
* **`Store.results`** — what parsers end with that are run one after another.
* **`Store.InStep.sameResults`** — main statement: on stores that are in step without any leeway,
  that is the same.
* **`Store.Anonymous`** — a store in which lazy parsers and languages are not told apart by their
  numbers: it is in step with itself. -/

namespace Descent

/-- Two runs may not differ in anything. -/
def Leeway.exact : Leeway := ⟨False, False⟩

/-- Without any leeway, what two computations end with is the same. -/
theorem Outcomes.eq {ended ended' : Except Raised Result}
    (h : Outcomes .exact (Result.Alike .exact) ended ended') : ended' = ended := by
  cases h with
  | ok hresult => rw [hresult.eq not_false]
  | error hcause => rw [hcause.eq not_false]

namespace Store

variable {pairs : Pairing} {store store' after : Store}

/-- What parsers end with that are run one after another, each on a source from a place, if none of
them is endless. One that ends with an error leaves what it did so far, and the next one goes on
from there. -/
def results (depth : Nat) : List (Parser × Source × Position) → Store →
    Option (List (Except Raised Result))
  | [], _ => some []
  | (parser, source, place) :: rest, store =>
      (((Engine.upTo depth).run parser source place).on store).bind fun (ended, after) =>
        (results depth rest after).map (ended :: ·)

/-- What parsers end with on one store, they end with on another that is in step. -/
theorem InStep.results {runs : List (Parser × Source × Position)} {depth : Nat}
    {ended : List (Except Raised Result)} (h : store.InStep .exact pairs store')
    (hruns : ∀ run ∈ runs, Parser.Alike .exact pairs run.1 run.1)
    (hon : store.results depth runs = some ended) :
    ∃ depth', ∀ deeper, depth' ≤ deeper → store'.results deeper runs = some ended := by
  induction runs generalizing pairs store store' ended with
  | nil => exact ⟨0, fun _ _ => hon⟩
  | cons run rest ih =>
    obtain ⟨parser, source, place⟩ := run
    obtain ⟨⟨first, middle⟩, hfirst, hrest⟩ := Option.bind_eq_some_iff.mp hon
    obtain ⟨others, hothers, rfl⟩ := Option.map_eq_some_iff.mp hrest
    -- the first parser leaves stores that are in step, perhaps with more that is paired
    obtain ⟨larger, first', middle', hsub, ⟨depth₁, hdepth₁⟩, hmiddle, hended⟩ :=
      (Engine.mimics_inStep not_false depth).run source place (hruns _ List.mem_cons_self) store
        store' h first middle hfirst
    obtain ⟨depth₂, hdepth₂⟩ := ih hmiddle
      (fun run hrun => (hruns run (List.mem_cons_of_mem _ hrun)).mono hsub) hothers
    refine ⟨max depth₁ depth₂, fun deeper hle => ?_⟩
    have hfirst' := hdepth₁ deeper (Nat.le_trans (Nat.le_max_left _ _) hle)
    have hrest' := hdepth₂ deeper (Nat.le_trans (Nat.le_max_right _ _) hle)
    rw [hended.eq] at hfirst'
    rw [Store.results, hfirst', Option.bind_some]
    exact congrArg (Option.map (first :: ·)) hrest'

/-- Parsers that are run one after another end with the same on two stores, if the one ends just
where the other does. -/
def SameResults (pairs : Pairing) (store store' : Store) : Prop :=
  ∀ runs, (∀ run ∈ runs, Parser.Alike .exact pairs run.1 run.1) → ∀ ended,
    (∃ depth, store.results depth runs = some ended) ↔
      ∃ depth, store'.results depth runs = some ended

/-- On stores that are in step, whatever is run ends with the same. -/
theorem InStep.sameResults (h : store.InStep .exact pairs store') :
    store.SameResults pairs store' := by
  refine fun runs hruns ended => ⟨?_, ?_⟩
  · rintro ⟨depth, hon⟩
    obtain ⟨depth', hdepth'⟩ := h.results hruns hon
    exact ⟨depth', hdepth' depth' (Nat.le_refl _)⟩
  · rintro ⟨depth, hon⟩
    obtain ⟨depth', hdepth'⟩ := h.flip.results (fun run hrun => (hruns run hrun).flip) hon
    exact ⟨depth', hdepth' depth' (Nat.le_refl _)⟩

/-- A store in which lazy parsers and languages are not told apart by their numbers, as far as each
is paired with itself. -/
structure Anonymous (pairs : Pairing) (store : Store) : Prop where
  /-- It is in step with itself. -/
  inStep : store.InStep .exact pairs store
  /-- Lazy parsers are paired with themselves only. -/
  same : ∀ id id' : CellId, id.Pairs pairs id' → id = id'

namespace Anonymous

/-- They are not told apart either when something is added. -/
theorem of_adds (h : store.Anonymous pairs) (hadds : Adds store after) : after.Anonymous pairs :=
  ⟨h.inStep.of_adds hadds hadds fun _ => rfl, h.same⟩

/-- Nor are those of a new language, if its rules do not tell any apart. -/
theorem create (h : store.Anonymous pairs) {language : InstanceId} {className : String}
    {arguments : Table Value} {added : Table (Owner → Maker)}
    (hclass : (Reference.className className, Reference.className className) ∈ pairs)
    (hadded : RulesAlike .exact pairs added added)
    (hcreate : store.create className arguments added = .ok (language, after)) :
    after.Anonymous (after.pairLanguages pairs language language) := by
  refine ⟨h.inStep.create hclass hadded hcreate hcreate, fun id id' hid => ?_⟩
  by_cases hk : id.Pairs pairs id'
  · exact h.same id id' hk
  · obtain ⟨index, rfl, rfl⟩ := exists_of_pairLanguages hid hk
    rfl

end Anonymous

/-- Stores in step remain so when the same lazy parser is in another stage on both. -/
theorem InStep.setState_same {leeway : Leeway} (h : store.InStep leeway pairs store')
    (hsame : ∀ id id' : CellId, id.Pairs pairs id' → id = id') (id : CellId) (state : RuleState) :
    (store.setState id state).InStep leeway pairs (store'.setState id state) where
  alike := h.alike.of_grows
    (grows_modifyCell store id _ Cell.Still.refl fun _ => ⟨rfl, rfl⟩)
    (grows_modifyCell store' id _ Cell.Still.refl fun _ => ⟨rfl, rfl⟩)
  cell other other' hother cell cell' hcell hcell' := by
    obtain rfl := hsame other other' hother
    obtain ⟨old, old', hold, hold', -⟩ := h.alike.cell other other hother
    obtain ⟨hstate, hparser⟩ := h.cell other other hother old old' hold hold'
    rw [setState, cell?_modifyCell, hold] at hcell
    rw [setState, cell?_modifyCell, hold'] at hcell'
    split at hcell
    · cases hcell
      cases (if_pos ‹id = other›).symm.trans hcell'
      exact ⟨rfl, hparser⟩
    · cases hcell
      cases (if_neg ‹¬ id = other›).symm.trans hcell'
      exact ⟨hstate, hparser⟩
  unique := h.unique
  unique' := h.unique'
  counters := h.counters

end Store

end Descent
