import Descent.Proofs.Family.Grants
import Descent.Proofs.Store.Opens

/-! # Computations that uphold a family

* **`Store.Carries`** — from a store that grants a family for what is known to a later one that
  grants it for more, where everything that became known is new.
* **`Eval.Upholds`** — a computation carries each store that grants a family for what is known to
  such a store, and of its result something is said in terms of what is known then.
* **`Eval.Upholds.bind`** — one computation after another.
* **`Eval.Upholds.basic`** — what an engine does by itself. -/

namespace Descent

/-- A lazy parser is still made in the same way. -/
def Cell.SameMake (before after : Cell) : Prop := after.make = before.make

/-- From a store in which something is known to a later one in which more is known. -/
structure Store.Carries (family : Family) (store : Store) (known : Known) (after : Store)
    (larger : Known) : Prop where
  /-- Nothing has gone from the store. -/
  grows : Store.Grows Cell.SameMake store after
  /-- Nothing has been forgotten. -/
  subset : known ⊆ larger
  /-- The lazy parsers that became known were not there before. -/
  fresh : ∀ id, Reference.cell id ∈ larger → Reference.cell id ∈ known ∨ store.cell? id = none
  /-- All that is known leads to parsers of the family. -/
  grants : after.Grants family larger

namespace Store.Carries

variable {family : Family} {store middle after : Store} {known large larger : Known}

theorem trans (h : store.Carries family known middle large)
    (h' : middle.Carries family large after larger) : store.Carries family known after larger where
  grows := h.grows.trans (fun _ _ _ hab hbc => Eq.trans hbc hab) h'.grows
  subset := h.subset.trans h'.subset
  fresh id hid := by
    rcases h'.fresh id hid with hlarge | hnone
    · exact h.fresh id hlarge
    · exact .inr (h.grows.cell?_eq_none hnone)
  grants := h'.grants

/-- Adding to a store keeps what is known. -/
theorem of_adds (h : store.Grants family known) (hadds : Store.Adds store after) :
    store.Carries family known after known where
  grows := hadds.of_adds fun _ => rfl
  subset := subset_rfl
  fresh _ hid := .inl hid
  grants := h.of_adds hadds

theorem refl (h : store.Grants family known) : store.Carries family known store known :=
  of_adds h (.refl (fun _ => rfl) store)

/-- A change of one lazy parser, which gets a parser only if that is of the family or if the lazy
parser is not known. -/
theorem of_modifyCell (h : store.Grants family known) {id : CellId} {change : Cell → Cell}
    (hmake : ∀ cell, (change cell).make = cell.make)
    (hparser : Reference.cell id ∈ known → ∀ cell p, (change cell).parser = some p →
      cell.parser = some p ∨ family known p) :
    store.Carries family known (store.modifyCell id change) known where
  grows := Store.grows_modifyCell store id change (fun _ => rfl) hmake
  subset := subset_rfl
  fresh _ hid := .inl hid
  grants := h.modifyCell hmake hparser

/-- A lazy parser gets to another stage. -/
theorem of_setState (h : store.Grants family known) (id : CellId) (state : RuleState) :
    store.Carries family known (store.setState id state) known :=
  of_modifyCell h (fun _ => rfl) fun _ _ _ hp => .inl hp

/-- A lazy parser gets its parser, which is of the family if the lazy parser is known. -/
theorem of_setParser (h : store.Grants family known) {id : CellId} {parser : Parser}
    (hparser : Reference.cell id ∈ known → family known parser) :
    store.Carries family known (store.setParser id parser) known := by
  refine of_modifyCell h (fun _ => rfl) fun hid _ p hp => .inr ?_
  cases hp
  exact hparser hid

/-- Something is logged. -/
theorem of_log (h : store.Grants family known) (record : Record) :
    store.Carries family known (store.log record) known := of_adds h (Store.adds_log store record)

end Store.Carries

/-- A computation upholds a family, and `post` holds of its result and of what is known then. -/
def Eval.Upholds {α : Type} (family : Family) (known : Known) (post : Known → α → Prop)
    (computation : Eval α) : Prop :=
  ∀ store, store.Grants family known →
    ∀ outcome after, computation.on store = some (outcome, after) →
      ∃ larger, store.Carries family known after larger ∧
        ∀ result, outcome = .ok result → post larger result

namespace Eval.Upholds

variable {α β : Type} {family : Family} {known : Known} {post : Known → α → Prop}
  {post' : Known → β → Prop}

/-- Less may be said of the result. -/
theorem imp {first : Eval α} {weaker : Known → α → Prop} (h : first.Upholds family known post)
    (hpost : ∀ larger result, post larger result → weaker larger result) :
    first.Upholds family known weaker := by
  intro store hstore outcome after hon
  obtain ⟨larger, hcarries, hresult⟩ := h store hstore outcome after hon
  exact ⟨larger, hcarries, fun result hr => hpost larger result (hresult result hr)⟩

theorem pure {result : α} (h : post known result) :
    (Pure.pure result : Eval α).Upholds family known post := by
  intro store hstore outcome after hon
  rw [Eval.pure_on, Option.some.injEq, Prod.mk.injEq] at hon
  obtain ⟨rfl, rfl⟩ := hon
  refine ⟨known, .refl hstore, fun r hr => ?_⟩
  cases hr
  exact h

theorem raise (cause : Raised) : (Eval.raise cause : Eval α).Upholds family known post := by
  intro store hstore outcome after hon
  rw [Eval.raise_on, Option.some.injEq, Prod.mk.injEq] at hon
  obtain ⟨rfl, rfl⟩ := hon
  refine ⟨known, .refl hstore, fun r hr => ?_⟩
  cases hr

theorem diverge : (Eval.diverge : Eval α).Upholds family known post := by
  intro store _ outcome after hon
  rw [Eval.diverge_on] at hon
  cases hon

/-- Reading something off the store changes nothing. -/
theorem consult {view : Store → Except Raised α}
    (h : ∀ store result, store.Grants family known → view store = .ok result → post known result) :
    (Eval.consult view).Upholds family known post := by
  intro store hstore outcome after hon
  rw [Eval.consult_on, Option.some.injEq, Prod.mk.injEq] at hon
  obtain ⟨rfl, rfl⟩ := hon
  exact ⟨known, .refl hstore, fun r hr => h store r hstore hr⟩

theorem read {view : Store → α} (h : ∀ store, store.Grants family known → post known (view store)) :
    (Eval.read view).Upholds family known post :=
  consult fun store result hstore hr => by
    cases hr
    exact h store hstore

/-- What was put aside under a known number is a parser of the family. -/
theorem kept {number : Nat} (hnumber : Reference.kept number ∈ known) :
    (Eval.read (·.kept.getD number default)).Upholds family known family :=
  read fun _ hstore => hstore.kept number hnumber

/-- What an attribute of a known language leads to is known. -/
theorem lookUp (language : InstanceId) (name : String) :
    (Eval.consult (·.lookUp language name)).Upholds family known fun larger found =>
      Reference.language language ∈ known → found.Within larger (Reference.cell · ∈ larger) :=
  consult fun _ _ hstore hfound hlanguage => hstore.lookUp hlanguage hfound

/-- The rules of a known language are known. -/
theorem getRule (language : InstanceId) (name : String) :
    (Eval.consult (·.getRule language name)).Upholds family known fun larger cell =>
      Reference.language language ∈ known → Reference.cell cell ∈ larger :=
  consult fun _ _ hstore hfound hlanguage => hstore.getRule hlanguage hfound

/-- What was put aside under a known name leads to what is known. -/
theorem fetch (name : String) :
    (Eval.consult (·.fetch name)).Upholds family known fun larger found =>
      Reference.shelved name ∈ known → found.Within larger (Handle.Within larger) :=
  consult fun _ _ hstore hfound hshelved => hstore.shelved name _ hshelved hfound

/-- What an engine does by itself only adds to the store. -/
theorem basic {computation : Eval α} (h : computation.Basic) :
    computation.Upholds family known fun _ _ => True := by
  intro store hstore outcome after hon
  exact ⟨known, .of_adds hstore (h.opens hon).adds, fun _ _ => trivial⟩

/-- A change of the store that gives a result. -/
theorem draw {change : Store → α × Store}
    (h : ∀ store, store.Grants family known →
      ∃ larger, store.Carries family known (change store).2 larger ∧ post larger (change store).1) :
    (Eval.draw change).Upholds family known post := by
  intro store hstore outcome after hon
  obtain ⟨larger, hcarries, hpost⟩ := h store hstore
  cases hon
  refine ⟨larger, hcarries, fun r hr => ?_⟩
  cases hr
  exact hpost

/-- A change of the store that gives a result or fails. -/
theorem attempt {change : Store → Except Raised (α × Store)}
    (h : ∀ store result after, store.Grants family known → change store = .ok (result, after) →
      ∃ larger, store.Carries family known after larger ∧ post larger result) :
    (Eval.attempt change).Upholds family known post := by
  intro store hstore outcome after hon
  rcases Eval.attempt_on_eq_some hon with ⟨result, hchange, rfl⟩ | ⟨cause, rfl, rfl⟩
  · obtain ⟨larger, hcarries, hpost⟩ := h store result after hstore hchange
    refine ⟨larger, hcarries, fun r hr => ?_⟩
    cases hr
    exact hpost
  · refine ⟨known, .refl hstore, fun r hr => ?_⟩
    cases hr

/-- One computation after another: the second starts with all that is known by then. -/
theorem bind {first : Eval α} {next : α → Eval β} (h : first.Upholds family known post)
    (hnext : ∀ larger result, known ⊆ larger → post larger result →
      (next result).Upholds family larger post') : (first >>= next).Upholds family known post' := by
  intro store hstore outcome after hon
  rw [Eval.bind_on] at hon
  cases hfirst : first.on store with
  | none =>
    rw [hfirst] at hon
    cases hon
  | some ended =>
    rw [hfirst] at hon
    obtain ⟨result | result, middle⟩ := ended
    · -- the first one ended with an error, and so does the whole
      cases hon
      obtain ⟨larger, hcarries, -⟩ := h store hstore _ _ hfirst
      exact ⟨larger, hcarries, fun r hr => by cases hr⟩
    -- the second one starts with what the first one got known
    · obtain ⟨large, hcarries, hpost⟩ := h store hstore _ _ hfirst
      obtain ⟨larger, hcarries', hresult⟩ := hnext large result hcarries.subset
        (hpost result rfl) middle hcarries.grants outcome after hon
      exact ⟨larger, hcarries.trans hcarries', hresult⟩

/-- A second computation of which nothing but that it upholds the family has to be said. -/
theorem bind_any {first : Eval α} {next : α → Eval β}
    (h : first.Upholds family known fun _ _ => True)
    (hnext : ∀ larger result, known ⊆ larger → (next result).Upholds family larger post') :
    (first >>= next).Upholds family known post' :=
  h.bind fun larger result hsub _ => hnext larger result hsub

/-- Putting computations together keeps up that they uphold a family. -/
theorem compatible_any : Engine.Compatible
    fun α (first _ : Eval α) => ∀ known, first.Upholds family known fun _ _ => True where
  pure _ _ := pure trivial
  basic h _ := basic h
  bind h hnext known := (h known).bind_any fun larger result _ => hnext result larger

end Eval.Upholds

end Descent
