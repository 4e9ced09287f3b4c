import Descent.Proofs.Alike.Created
import Descent.Proofs.Triples

/-! # Computations that mimic others

One computation mimics another if, on stores that fit, it ends with the like whenever the other one
ends, and leaves stores that fit again, perhaps with more paired.

* **`Store.SameLog`** — the log is as it was.
* **`Regime`** — when stores fit, and that they do so when something is added to both.
* **`Eval.Mimics`** — a family of computations, at greater and greater depths, mimics a computation.
* **`Eval.Mimics.bind`** — main statement: so it is with one computation after another. -/

namespace Descent

/-- The log is as it was. -/
structure Store.SameLog (store after : Store) : Prop where
  /-- It has the same entries. -/
  records : after.records = store.records
  /-- It is kept or not, as before. -/
  logging : after.logging = store.logging

/-- When two stores fit, so that running what is alike on them leads to the like. -/
structure Regime (leeway : Leeway) where
  /-- The stores fit. -/
  fits : Pairing → Store → Store → Prop
  /-- What is paired in stores that fit is made alike. -/
  alike : ∀ {pairs : Pairing} {store store' : Store}, fits pairs store store' →
    store.Alike leeway pairs store'
  /-- Without leeway in stages, paired lazy parsers are in the same stage. -/
  state : ∀ {pairs : Pairing} {store store' : Store}, fits pairs store store' →
    ¬ leeway.stages → ∀ id id', id.Pairs pairs id' →
      (store'.cellAt id').state = (store.cellAt id).state
  /-- Without leeway in stages, counters answer the same. -/
  counts : ∀ {pairs : Pairing} {store store' : Store}, fits pairs store store' →
    ¬ leeway.stages → ∀ counter, store'.countOf counter = store.countOf counter
  /-- Stores to which something besides the log is added still fit, if their counters do. -/
  adds : ∀ {pairs : Pairing} {store store' after after' : Store}, fits pairs store store' →
    Store.Adds store after → Store.Adds store' after' → store.SameLog after →
    store'.SameLog after' →
    (¬ leeway.stages → ∀ counter, after'.countOf counter = after.countOf counter) →
    fits pairs after after'
  /-- New lazy parsers that are made alike may be paired. -/
  addCell : ∀ {pairs : Pairing} {store store' : Store} {language language' : InstanceId}
    {name : String} {make make' : Maker}, fits pairs store store' →
    (Reference.home language, Reference.home language') ∈ pairs →
    Store.MakersAlike leeway pairs make make' →
    fits (insert (.cell (store.addCell language name make).1,
        .cell (store'.addCell language' name make').1) pairs)
      (store.addCell language name make).2 (store'.addCell language' name make').2
  /-- New languages with rules that are made alike may be paired. -/
  create : ∀ {pairs : Pairing} {store store' after after' : Store}
    {language language' : InstanceId} {className : String} {arguments : Table Value}
    {added added' : Table (Owner → Maker)}, fits pairs store store' →
    (Reference.className className, Reference.className className) ∈ pairs →
    Store.RulesAlike leeway pairs added added' →
    store.create className arguments added = .ok (language, after) →
    store'.create className arguments added' = .ok (language', after') →
    fits (after.pairLanguages pairs language language') after after'

namespace Regime

variable {leeway : Leeway} (regime : Regime leeway) {pairs : Pairing} {store store' : Store}

include regime in
/-- Stores in which notes are left still fit. -/
theorem note (h : regime.fits pairs store store') {event event' : Event} :
    regime.fits pairs (store.note event) (store'.note event') :=
  regime.adds h (Store.adds_note store event) (Store.adds_note store' event') ⟨rfl, rfl⟩ ⟨rfl, rfl⟩
    fun hstages counter => regime.counts h hstages counter

/-- Stores in which the same counter is asked still fit, and so do those in which any are asked if
there is leeway in stages. -/
theorem count (h : regime.fits pairs store store') {counter counter' : Nat}
    (hcounter : ¬ leeway.stages → counter' = counter) :
    regime.fits pairs (store.count counter).2 (store'.count counter').2 := by
  refine regime.adds h (Store.adds_count store counter) (Store.adds_count store' counter')
    ⟨rfl, rfl⟩ ⟨rfl, rfl⟩ ?_
  intro hstages other
  rw [hcounter hstages, Store.countOf_count, Store.countOf_count, regime.counts h hstages,
    regime.counts h hstages]

/-- Without leeway in stages, paired lazy parsers are shown the same. -/
theorem inspected (h : regime.fits pairs store store') (hstages : ¬ leeway.stages)
    {id id' : CellId} (hid : id.Pairs pairs id') :
    (store'.cellAt id').state = (store.cellAt id).state ∧
      (store'.cellAt id').shown = (store.cellAt id).shown := by
  have hstate := regime.state h hstages id id' hid
  refine ⟨hstate, ?_⟩
  unfold Cell.shown
  rw [hstate, (regime.alike h).cellAt_name hid]

/-- New languages of a paired class are made on both stores, or on neither for the same reason. -/
theorem created (h : regime.fits pairs store store') {className : String} {arguments : Table Value}
    {added added' : Table (Owner → Maker)}
    (hclass : (Reference.className className, Reference.className className) ∈ pairs)
    (hadded : Store.RulesAlike leeway pairs added added') :
    (∃ larger language after language' after', pairs ⊆ larger ∧
      store.create className arguments added = .ok (language, after) ∧
      store'.create className arguments added' = .ok (language', after') ∧
      regime.fits larger after after' ∧
      (Reference.language language, Reference.language language') ∈ larger ∧
        (Reference.home language, Reference.home language') ∈ larger) ∨
    ∃ cause, store.create className arguments added = .error cause ∧
      store'.create className arguments added' = .error cause := by
  have halike := regime.alike h
  cases hcreate : store.create className arguments added with
  | error cause =>
    exact .inr ⟨cause, rfl, Store.create_eq_error halike.classes halike.classNames hadded.names
      hcreate⟩
  | ok made =>
    obtain ⟨language, after⟩ := made
    cases hcreate' : store'.create className arguments added' with
    | error cause =>
      -- it depends on the classes and the names alone, which are the same on both sides
      have hfails := Store.create_eq_error halike.classes.symm halike.classNames.symm
        hadded.names.symm hcreate'
      rw [hcreate] at hfails
      cases hfails
    | ok made' =>
      obtain ⟨language', after'⟩ := made'
      exact .inl ⟨_, language, after, language', after', Store.subset_pairLanguages, rfl, rfl,
        regime.create h hclass hadded hcreate hcreate', Store.language_mem_pairLanguages,
        Store.home_mem_pairLanguages⟩

end Regime

/-- Where a computation ends, a family of computations ends with what is related, on stores that
fit. -/
def Eval.Mimics {leeway : Leeway} (regime : Regime leeway) (pairs : Pairing) {α β : Type}
    (R : Pairing → α → β → Prop) (first : Eval α) (family : Nat → Eval β) : Prop :=
  ∀ store store', regime.fits pairs store store' → ∀ outcome after,
    first.on store = some (outcome, after) →
      ∃ larger outcome' after', pairs ⊆ larger ∧ Eventually family store' (outcome', after') ∧
        regime.fits larger after after' ∧ Outcomes leeway (R larger) outcome outcome'

namespace Eval.Mimics

variable {leeway : Leeway} {regime : Regime leeway} {pairs : Pairing} {α β γ δ : Type}
  {R : Pairing → α → β → Prop} {R' : Pairing → γ → δ → Prop}

theorem pure {result : α} {result' : β} (h : R pairs result result') :
    Mimics regime pairs R (Pure.pure result) fun _ => Pure.pure result' := by
  intro store store' hfits outcome after hon
  cases hon
  exact ⟨pairs, .ok result', store', .rfl, ⟨0, fun _ _ => rfl⟩, hfits, .ok h⟩

/-- Nothing mimics more easily what never ends. -/
theorem diverge {family : Nat → Eval β} : Mimics regime pairs R Eval.diverge family := by
  intro store store' hfits outcome after hon
  cases hon

/-- More may be related. -/
theorem imp {R₁ : Pairing → α → β → Prop} {first : Eval α} {family : Nat → Eval β}
    (h : Mimics regime pairs R first family)
    (hR : ∀ larger result result', R larger result result' → R₁ larger result result') :
    Mimics regime pairs R₁ first family := by
  intro store store' hfits outcome after hon
  obtain ⟨larger, outcome', after', hsub, hon', hafter, hout⟩ :=
    h store store' hfits outcome after hon
  exact ⟨larger, outcome', after', hsub, hon', hafter, hout.imp (hR larger)⟩

/-- What mimics one level further down does so. -/
theorem succ {first : Eval α} {family : Nat → Eval β}
    (h : Mimics regime pairs R first fun depth => family (depth + 1)) :
    Mimics regime pairs R first family := by
  intro store store' hfits outcome after hon
  obtain ⟨larger, outcome', after', hsub, heventually, hafter, hout⟩ :=
    h store store' hfits outcome after hon
  exact ⟨larger, outcome', after', hsub, heventually.succ, hafter, hout⟩

/-- One computation after another: what comes next may rely on all that is paired by then. -/
theorem bind {first : Eval α} {family : Nat → Eval β} {next : α → Eval γ}
    {next' : Nat → β → Eval δ} (h : Mimics regime pairs R first family)
    (hnext : ∀ larger result result', pairs ⊆ larger → R larger result result' →
      Mimics regime larger R' (next result) fun depth => next' depth result') :
    Mimics regime pairs R' (first >>= next) fun depth => family depth >>= next' depth := by
  intro store store' hfits outcome after hon
  rcases bind_eq_some hon with ⟨cause, hfirst, rfl⟩ | ⟨result, middle, hfirst, hrest⟩
  · obtain ⟨larger, _, after', hsub, ⟨depth, hdepth⟩, hafter, hout⟩ :=
      h store store' hfits (.error cause) after hfirst
    cases hout with
    | error hcause =>
      exact ⟨larger, _, after', hsub, ⟨depth, fun deeper hle => bind_error (hdepth deeper hle)⟩,
        hafter, .error hcause⟩
  · obtain ⟨larger, _, middle', hsub, heventually, hmiddle, hout⟩ :=
      h store store' hfits (.ok result) middle hfirst
    cases hout with
    | ok hresult =>
      obtain ⟨largest, outcome', after', hsub', hafter, hfits', hout⟩ :=
        hnext larger _ _ hsub hresult middle middle' hmiddle outcome after hrest
      exact ⟨largest, outcome', after', hsub.trans hsub', heventually.bind hafter, hfits', hout⟩

/-- Something may be done with the results of the first. -/
theorem map_left {R' : Pairing → γ → β → Prop} {first : Eval α} {family : Nat → Eval β} {f : α → γ}
    (h : Mimics regime pairs R first family)
    (hf : ∀ larger result result', R larger result result' → R' larger (f result) result') :
    Mimics regime pairs R' (first >>= fun result => Pure.pure (f result)) family := by
  have hbind : Mimics regime pairs R' (first >>= fun result => Pure.pure (f result))
      fun depth => family depth >>= fun result' => Pure.pure result' :=
    h.bind fun larger result result' _ hR => .pure (hf larger result result' hR)
  simpa only [bind_pure] using hbind

/-- Something may be done with the results of the second. -/
theorem map_right {R' : Pairing → α → δ → Prop} {first : Eval α} {family : Nat → Eval β}
    {f : β → δ} (h : Mimics regime pairs R first family)
    (hf : ∀ larger result result', R larger result result' → R' larger result (f result')) :
    Mimics regime pairs R' first
      fun depth => family depth >>= fun result => Pure.pure (f result) := by
  have hbind : Mimics regime pairs R' (first >>= fun result => Pure.pure result)
      fun depth => family depth >>= fun result => Pure.pure (f result) :=
    h.bind fun larger result result' _ hR => .pure (hf larger result result' hR)
  simpa only [bind_pure] using hbind

/-- Outcomes are the same if they are so once something reversible is done with the results. -/
theorem map_injective {f : α → γ} (hf : Function.Injective f) :
    Function.Injective (Except.map f : Except Raised α → Except Raised γ) := by
  intro outcome outcome' h
  cases outcome with
  | ok result =>
    cases outcome' with
    | ok result' => exact congrArg _ (hf (Except.ok.inj h))
    | error cause => cases h
  | error cause =>
    cases outcome' with
    | ok result => cases h
    | error cause' => exact congrArg _ (Except.error.inj h)

/-- A computation mimics another if it does so once something reversible is done with the
results. -/
theorem unwrap {R' : Pairing → γ → δ → Prop} {f : α → γ} {f' : β → δ} {first : Eval α}
    {family : Nat → Eval β} (hf' : Function.Injective f')
    (h : Mimics regime pairs R' (first >>= fun result => Pure.pure (f result))
      fun depth => family depth >>= fun result => Pure.pure (f' result)) :
    Mimics regime pairs (fun larger result result' => R' larger (f result) (f' result')) first
      family := by
  intro store store' hfits outcome after hon
  have hwrapped : (first >>= fun result => Pure.pure (f result)).on store
      = some (outcome.map f, after) := by
    rw [map_on, hon]
    rfl
  obtain ⟨larger, wrapped', after', hsub, ⟨depth, hdepth⟩, hafter, hout⟩ :=
    h store store' hfits _ after hwrapped
  -- whatever the depth, the family ends with the one thing that is wrapped
  have hunwrapped : ∀ deeper, depth ≤ deeper → ∃ outcome',
      (family deeper).on store' = some (outcome', after') ∧ outcome'.map f' = wrapped' := by
    intro deeper hle
    have hmap := hdepth deeper hle
    rw [map_on, Option.map_eq_some_iff] at hmap
    obtain ⟨⟨outcome', middle⟩, hfamily, heq⟩ := hmap
    cases heq
    exact ⟨outcome', hfamily, rfl⟩
  obtain ⟨outcome', -, hmap⟩ := hunwrapped depth (Nat.le_refl _)
  refine ⟨larger, outcome', after', hsub, ⟨depth, fun deeper hle => ?_⟩, hafter, ?_⟩
  · obtain ⟨other, hother, hmap'⟩ := hunwrapped deeper hle
    rw [hother, map_injective hf' (hmap'.trans hmap.symm)]
  · rw [← hmap] at hout
    cases outcome with
    | ok result =>
      cases outcome' with
      | ok result' =>
        cases hout with
        | ok hresult => exact .ok hresult
      | error cause => cases hout
    | error cause =>
      cases outcome' with
      | ok result' => cases hout
      | error cause' =>
        cases hout with
        | error hcause => exact .error hcause

/-- Two errors that are alike. -/
theorem raise {cause cause' : Raised} (h : Raised.Alike leeway cause cause') :
    Mimics regime pairs R (Eval.raise cause) fun _ => Eval.raise cause' := by
  intro store store' hfits outcome after hon
  cases hon
  exact ⟨pairs, _, store', .rfl, ⟨0, fun _ _ => rfl⟩, hfits, .error h⟩

/-- What is read off stores that fit. -/
theorem consult {view : Store → Except Raised α} {view' : Store → Except Raised β}
    (h : ∀ store store', regime.fits pairs store store' →
      Outcomes leeway (R pairs) (view store) (view' store')) :
    Mimics regime pairs R (Eval.consult view) fun _ => Eval.consult view' := by
  intro store store' hfits outcome after hon
  cases hon
  exact ⟨pairs, _, store', .rfl, ⟨0, fun _ _ => rfl⟩, hfits, h store store' hfits⟩

/-- What is read off stores that fit and is there for certain. -/
theorem read {view : Store → α} {view' : Store → β}
    (h : ∀ store store', regime.fits pairs store store' → R pairs (view store) (view' store')) :
    Mimics regime pairs R (Eval.read view) fun _ => Eval.read view' := by
  intro store store' hfits outcome after hon
  cases hon
  exact ⟨pairs, _, store', .rfl, ⟨0, fun _ _ => rfl⟩, hfits, .ok (h store store' hfits)⟩

/-- A change to stores that fit. -/
theorem update {change change' : Store → Store}
    (h : ∀ store store', regime.fits pairs store store' →
      regime.fits pairs (change store) (change' store')) :
    Mimics regime pairs (fun _ _ _ => True) (Eval.update change) fun _ => Eval.update change' := by
  intro store store' hfits outcome after hon
  cases hon
  exact ⟨pairs, _, _, .rfl, ⟨0, fun _ _ => rfl⟩, h store store' hfits, .ok trivial⟩

/-- What is taken from stores that fit, or fails on both. -/
theorem attempt {change : Store → Except Raised (α × Store)}
    {change' : Store → Except Raised (β × Store)}
    (h : ∀ store store', regime.fits pairs store store' →
      (∃ larger result after result' after', pairs ⊆ larger ∧ change store = .ok (result, after) ∧
        change' store' = .ok (result', after') ∧ regime.fits larger after after' ∧
        R larger result result') ∨
      ∃ cause, change store = .error cause ∧ change' store' = .error cause) :
    Mimics regime pairs R (Eval.attempt change) fun _ => Eval.attempt change' := by
  intro store store' hfits outcome after hon
  rcases h store store' hfits with
    ⟨larger, result, middle, result', middle', hsub, hchange, hchange', hmiddle, hresult⟩
    | ⟨cause, hchange, hchange'⟩
  · rw [attempt_ok hchange] at hon
    cases hon
    exact ⟨larger, .ok result', middle', hsub, ⟨0, fun _ _ => attempt_ok hchange'⟩, hmiddle,
      .ok hresult⟩
  · rw [attempt_error hchange] at hon
    cases hon
    exact ⟨pairs, .error cause, store', .rfl, ⟨0, fun _ _ => attempt_error hchange'⟩, hfits,
      .error (.same cause)⟩

/-- What is taken from stores that fit. -/
theorem draw {change : Store → α × Store} {change' : Store → β × Store}
    (h : ∀ store store', regime.fits pairs store store' → ∃ larger, pairs ⊆ larger ∧
      regime.fits larger (change store).2 (change' store').2 ∧
      R larger (change store).1 (change' store').1) :
    Mimics regime pairs R (Eval.draw change) fun _ => Eval.draw change' := by
  intro store store' hfits outcome after hon
  cases hon
  obtain ⟨larger, hsub, hafter, hresult⟩ := h store store' hfits
  exact ⟨larger, _, _, hsub, ⟨0, fun _ _ => rfl⟩, hafter, .ok hresult⟩

end Eval.Mimics

end Descent
