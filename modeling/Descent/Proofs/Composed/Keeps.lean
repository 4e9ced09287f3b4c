import Descent.Proofs.Composed.Honours
import Descent.Proofs.Family.Engines

/-! # Computations that keep what is known

* **`Store.Leads`** — from a store that honours what is known to a later one that honours more,
  where everything that became known is new.
* **`Eval.Keeps`** — a computation leads from each store that honours what is known to such a store,
  and of its result something is said in terms of what is known then.
* **`Store.leads_iff`**, **`Eval.keeps_iff`** — this is what it is to carry and to uphold the family
  of composed parsers, so the rest is known of that. -/

namespace Descent

/-- From a store in which something is known to a later one in which more is known. -/
structure Store.Leads (store : Store) (known : Known) (after : Store) (larger : Known) : Prop where
  /-- Nothing has gone from the store. -/
  grows : Store.Grows Cell.SameMake store after
  /-- Nothing has been forgotten. -/
  subset : known ⊆ larger
  /-- The lazy parsers that became known were not there before. -/
  fresh : ∀ id, Reference.cell id ∈ larger → Reference.cell id ∈ known ∨ store.cell? id = none
  /-- All that is known is honoured. -/
  honours : after.Honours larger

/-- What leads to a later store carries the family of composed parsers there. -/
theorem Store.leads_iff {store after : Store} {known larger : Known} :
    store.Leads known after larger ↔ store.Carries Parser.Composed known after larger :=
  ⟨fun h => ⟨h.grows, h.subset, h.fresh, honours_iff.mp h.honours⟩,
    fun h => ⟨h.grows, h.subset, h.fresh, honours_iff.mpr h.grants⟩⟩

namespace Store.Leads

variable {store middle after : Store} {known large larger : Known}

theorem trans (h : store.Leads known middle large) (h' : middle.Leads large after larger) :
    store.Leads known after larger :=
  leads_iff.mpr ((leads_iff.mp h).trans (leads_iff.mp h'))

theorem refl (h : store.Honours known) : store.Leads known store known :=
  leads_iff.mpr (.refl (honours_iff.mp h))

end Store.Leads

/-- A computation keeps what is known, and `post` holds of its result and of what is known then. -/
def Eval.Keeps {α : Type} (known : Known) (post : Known → α → Prop) (computation : Eval α) :
    Prop :=
  ∀ store, store.Honours known → ∀ outcome after, computation.on store = some (outcome, after) →
    ∃ larger, store.Leads known after larger ∧ ∀ result, outcome = .ok result → post larger result

/-- What keeps what is known upholds the family of composed parsers. -/
theorem Eval.keeps_iff {α : Type} {known : Known} {post : Known → α → Prop}
    {computation : Eval α} :
    computation.Keeps known post ↔ computation.Upholds Parser.Composed known post := by
  unfold Eval.Keeps Eval.Upholds
  simp only [Store.honours_iff, Store.leads_iff]

namespace Eval.Keeps

variable {α β : Type} {known : Known} {post : Known → α → Prop} {post' : Known → β → Prop}

/-- Less may be said of the result. -/
theorem imp {first : Eval α} {weaker : Known → α → Prop} (h : first.Keeps known post)
    (hpost : ∀ larger result, post larger result → weaker larger result) :
    first.Keeps known weaker := keeps_iff.mpr ((keeps_iff.mp h).imp hpost)

theorem pure {result : α} (h : post known result) :
    (Pure.pure result : Eval α).Keeps known post := keeps_iff.mpr (.pure h)

theorem raise (cause : Raised) : (Eval.raise cause : Eval α).Keeps known post :=
  keeps_iff.mpr (.raise cause)

theorem diverge : (Eval.diverge : Eval α).Keeps known post := keeps_iff.mpr .diverge

/-- Reading something off the store changes nothing. -/
theorem consult {view : Store → Except Raised α}
    (h : ∀ store result, store.Honours known → view store = .ok result → post known result) :
    (Eval.consult view).Keeps known post :=
  keeps_iff.mpr <| .consult fun store result hstore => h store result (Store.honours_iff.mpr hstore)

/-- What was put aside under a known number is composed. -/
theorem kept {number : Nat} (hnumber : Reference.kept number ∈ known) :
    (Eval.read (·.kept.getD number default)).Keeps known fun larger p => p.Composed larger :=
  keeps_iff.mpr (.kept hnumber)

/-- What an engine does by itself only adds to the store. -/
theorem basic {computation : Eval α} (h : computation.Basic) :
    computation.Keeps known fun _ _ => True := keeps_iff.mpr (.basic h)

/-- One computation after another: the second starts with all that is known by then. -/
theorem bind {first : Eval α} {next : α → Eval β} (h : first.Keeps known post)
    (hnext : ∀ larger result, known ⊆ larger → post larger result →
      (next result).Keeps larger post') : (first >>= next).Keeps known post' :=
  keeps_iff.mpr <| (keeps_iff.mp h).bind fun larger result hsub hpost =>
    keeps_iff.mp (hnext larger result hsub hpost)

/-- A second computation of which nothing but that it keeps what is known has to be said. -/
theorem bind_any {first : Eval α} {next : α → Eval β} (h : first.Keeps known fun _ _ => True)
    (hnext : ∀ larger result, known ⊆ larger → (next result).Keeps larger post') :
    (first >>= next).Keeps known post' :=
  h.bind fun larger result hsub _ => hnext larger result hsub

end Eval.Keeps

end Descent
