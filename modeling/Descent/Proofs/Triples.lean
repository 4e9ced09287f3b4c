import Descent.Eval

/-! # Computations with an invariant

* **`Eval.Meets`** — a computation keeps an invariant of the store, and if it ends with a result,
  something is true of the result.
* **`Eval.Eventually`** — the computations of a family agree on what they end with, from some member
  on. The members are meant to be the same computation at greater and greater depths.
* **`Eval.Ends`** — a family of computations does end, keeps an invariant, and something is true of
  what it ends with. -/

namespace Descent.Eval

variable {α β : Type} {inv : Store → Prop}

/-! ## If it ends -/

/-- A computation keeps an invariant, and `post` holds of its result, if any. -/
def Meets (inv : Store → Prop) (post : α → Prop) (computation : Eval α) : Prop :=
  ∀ store, inv store → ∀ outcome after, computation.on store = some (outcome, after) →
    inv after ∧ ∀ result, outcome = .ok result → post result

namespace Meets

variable {post : α → Prop} {post' : β → Prop}

theorem pure {result : α} (h : post result) : (Pure.pure result : Eval α).Meets inv post := by
  intro store hstore outcome after hon
  rw [pure_on, Option.some.injEq, Prod.mk.injEq] at hon
  obtain ⟨rfl, rfl⟩ := hon
  refine ⟨hstore, ?_⟩
  rintro r ⟨⟩
  exact h

/-- Less may be said of the result. -/
theorem imp {computation : Eval α} {weaker : α → Prop} (h : computation.Meets inv post)
    (hpost : ∀ result, post result → weaker result) : computation.Meets inv weaker := by
  intro store hstore outcome after hon
  obtain ⟨hafter, hresult⟩ := h store hstore outcome after hon
  exact ⟨hafter, fun result hr => hpost result (hresult result hr)⟩

theorem diverge : (Eval.diverge : Eval α).Meets inv post := by
  intro store _ outcome after hon
  cases hon

/-- Reading something off the store changes nothing. -/
theorem consult {view : Store → Except Raised α}
    (h : ∀ store result, inv store → view store = .ok result → post result) :
    (Eval.consult view).Meets inv post := by
  intro store hstore outcome after hon
  rw [consult_on, Option.some.injEq, Prod.mk.injEq] at hon
  obtain ⟨rfl, rfl⟩ := hon
  exact ⟨hstore, fun result hresult => h store result hstore hresult⟩

/-- One computation after another. -/
theorem bind {first : Eval α} {next : α → Eval β} (h : first.Meets inv post)
    (hnext : ∀ result, post result → (next result).Meets inv post') :
    (first >>= next).Meets inv post' := by
  intro store hstore outcome after hon
  rcases bind_eq_some hon with ⟨cause, hfirst, rfl⟩ | ⟨result, middle, hfirst, hrest⟩
  · exact ⟨(h store hstore _ _ hfirst).1, nofun⟩
  · obtain ⟨hmiddle, hpost⟩ := h store hstore _ _ hfirst
    exact hnext result (hpost result rfl) middle hmiddle outcome after hrest

end Meets

/-! ## That it ends -/

/-- From some depth on, a computation ends with the same in a store. -/
def Eventually (family : Nat → Eval α) (store : Store) (ended : Except Raised α × Store) : Prop :=
  ∃ depth, ∀ deeper, depth ≤ deeper → (family deeper).on store = some ended

/-- One computation after another: the deeper of two depths is enough. -/
theorem Eventually.bind {first : Nat → Eval α} {next : Nat → α → Eval β} {store middle : Store}
    {result : α} {ended : Except Raised β × Store}
    (h : Eventually first store (.ok result, middle))
    (hnext : Eventually (fun depth => next depth result) middle ended) :
    Eventually (fun depth => first depth >>= next depth) store ended := by
  obtain ⟨depth, hdepth⟩ := h
  obtain ⟨depth', hdepth'⟩ := hnext
  refine ⟨max depth depth', fun deeper hle => ?_⟩
  rw [bind_ok (hdepth deeper (Nat.le_trans (Nat.le_max_left _ _) hle))]
  exact hdepth' deeper (Nat.le_trans (Nat.le_max_right _ _) hle)

/-- What a computation ends with one level further down, it ends with. -/
theorem Eventually.succ {family : Nat → Eval α} {store : Store} {ended : Except Raised α × Store}
    (h : Eventually (fun depth => family (depth + 1)) store ended) :
    Eventually family store ended := by
  obtain ⟨depth, hdepth⟩ := h
  refine ⟨depth + 1, fun deeper hle => ?_⟩
  cases deeper with
  | zero => omega
  | succ deeper => exact hdepth deeper (by omega)

/-- From some depth on, a computation ends and keeps an invariant, and `post` holds of what it ends
with. -/
def Ends (inv : Store → Prop) (post : Except Raised α → Prop) (family : Nat → Eval α) : Prop :=
  ∀ store, inv store → ∃ outcome after, Eventually family store (outcome, after) ∧ inv after ∧
    post outcome

namespace Ends

variable {post : Except Raised α → Prop} {post' : Except Raised β → Prop}

/-- A computation that is the same at all depths and changes nothing. -/
theorem consult {view : Store → Except Raised α} (h : ∀ store, inv store → post (view store)) :
    Ends inv post fun _ => Eval.consult view :=
  fun store hstore => ⟨view store, store, ⟨0, fun _ _ => rfl⟩, hstore, h store hstore⟩

theorem pure {result : α} (h : post (.ok result)) :
    Ends inv post fun _ => (Pure.pure result : Eval α) :=
  fun store hstore => ⟨.ok result, store, ⟨0, fun _ _ => rfl⟩, hstore, h⟩

/-- More may be true of what a computation ends with. -/
theorem imp {family : Nat → Eval α} {weaker : Except Raised α → Prop} (h : Ends inv post family)
    (hpost : ∀ outcome, post outcome → weaker outcome) : Ends inv weaker family := by
  intro store hstore
  obtain ⟨outcome, after, heventually, hafter, hout⟩ := h store hstore
  exact ⟨outcome, after, heventually, hafter, hpost outcome hout⟩

/-- What ends one level further down ends. -/
theorem succ {family : Nat → Eval α} (h : Ends inv post fun depth => family (depth + 1)) :
    Ends inv post family := by
  intro store hstore
  obtain ⟨outcome, after, heventually, hafter, hout⟩ := h store hstore
  exact ⟨outcome, after, heventually.succ, hafter, hout⟩

/-- What ends does so one level further down. -/
theorem shift {family : Nat → Eval α} (h : Ends inv post family) :
    Ends inv post fun depth => family (depth + 1) := by
  intro store hstore
  obtain ⟨outcome, after, ⟨depth, hdepth⟩, hafter, hout⟩ := h store hstore
  exact ⟨outcome, after, ⟨depth, fun deeper hle => hdepth (deeper + 1) (by omega)⟩, hafter, hout⟩

/-- One computation after another: both end, and the deeper of two depths is enough. -/
theorem bind {first : Nat → Eval α} {next : Nat → α → Eval β} (h : Ends inv post first)
    (hnext : ∀ result, post (.ok result) → Ends inv post' fun depth => next depth result)
    (herror : ∀ cause, post (.error cause) → post' (.error cause)) :
    Ends inv post' fun depth => first depth >>= next depth := by
  intro store hstore
  obtain ⟨outcome, middle, hmiddle, hinv, hout⟩ := h store hstore
  cases outcome with
  | error cause =>
    obtain ⟨depth, hdepth⟩ := hmiddle
    exact ⟨.error cause, middle, ⟨depth, fun deeper hle => bind_error (hdepth deeper hle)⟩, hinv,
      herror cause hout⟩
  | ok result =>
    obtain ⟨outcome', after, hafter, hinv', hout'⟩ := hnext result hout middle hinv
    exact ⟨outcome', after, hmiddle.bind hafter, hinv', hout'⟩

end Ends

end Descent.Eval
