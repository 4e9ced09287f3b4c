import Descent.Language

/-! # Evaluation

* **`Eval`** — a computation on a store. It gives no answer (`none`) if it would have to go deeper
  than it may; otherwise it ends with a result or an error, and either way with a store: what
  happened before an error is not undone.
* **`Eval.bind`** — one computation after another; an error ends the whole. -/

namespace Descent

/-- A computation on a store. -/
structure Eval (α : Type) : Type where
  /-- What the computation ends with, and the store that it leaves. -/
  on : Store → Option (Except Raised α × Store)

namespace Eval

variable {α β γ : Type}

@[ext] theorem ext {first second : Eval α} (h : ∀ store, first.on store = second.on store) :
    first = second := by
  cases first
  cases second
  congr
  funext store
  exact h store

/-- End with a result. -/
def pure (result : α) : Eval α := ⟨fun store => some (.ok result, store)⟩

/-- End with an error. -/
def raise (cause : Raised) : Eval α := ⟨fun store => some (.error cause, store)⟩

/-- Give no answer. -/
def diverge : Eval α := ⟨fun _ => none⟩

/-- One computation, then another that depends on the result. -/
def bind (first : Eval α) (next : α → Eval β) : Eval β :=
  ⟨fun store =>
    match first.on store with
    | none => none
    | some (.ok result, store) => (next result).on store
    | some (.error cause, store) => some (.error cause, store)⟩

instance : Monad Eval where
  pure := pure
  bind := bind

/-- Change the store. -/
def update (change : Store → Store) : Eval Unit := ⟨fun store => some (.ok (), change store)⟩

/-- Read something off the store. -/
def read (view : Store → α) : Eval α := ⟨fun store => some (.ok (view store), store)⟩

/-- Take a result from the store and change it. -/
def draw (change : Store → α × Store) : Eval α :=
  ⟨fun store => some (.ok (change store).1, (change store).2)⟩

/-- Read something off the store that may not be there. -/
def consult (view : Store → Except Raised α) : Eval α := ⟨fun store => some (view store, store)⟩

/-- Take a result from the store and change it, which may fail and then changes nothing. -/
def attempt (change : Store → Except Raised (α × Store)) : Eval α :=
  ⟨fun store =>
    match change store with
    | .ok (result, store) => some (.ok result, store)
    | .error cause => some (.error cause, store)⟩

@[simp] theorem pure_on (result : α) (store : Store) :
    (Pure.pure result : Eval α).on store = some (.ok result, store) := rfl

@[simp] theorem raise_on (cause : Raised) (store : Store) :
    (raise cause : Eval α).on store = some (.error cause, store) := rfl

@[simp] theorem diverge_on (store : Store) : (diverge : Eval α).on store = none := rfl

@[simp] theorem update_on (change : Store → Store) (store : Store) :
    (update change).on store = some (.ok (), change store) := rfl

@[simp] theorem read_on (view : Store → α) (store : Store) :
    (read view).on store = some (.ok (view store), store) := rfl

@[simp] theorem consult_on (view : Store → Except Raised α) (store : Store) :
    (consult view).on store = some (view store, store) := rfl

/-- What is read off a store is the answer. -/
theorem consult_of {view : Store → Except Raised α} {store : Store} {answer : Except Raised α}
    (h : view store = answer) : (consult view).on store = some (answer, store) := by
  rw [consult_on, h]

/-- What does not fail gives its result and its store. -/
theorem attempt_ok {change : Store → Except Raised (α × Store)} {store after : Store} {result : α}
    (h : change store = .ok (result, after)) :
    (attempt change).on store = some (.ok result, after) := by
  simp only [attempt, h]

/-- What fails leaves the store. -/
theorem attempt_error {change : Store → Except Raised (α × Store)} {store : Store} {cause : Raised}
    (h : change store = .error cause) :
    (attempt change).on store = some (.error cause, store) := by
  simp only [attempt, h]

/-- What can fail gives its result and its store, or else it leaves the store. -/
theorem attempt_on_eq_some {change : Store → Except Raised (α × Store)} {store after : Store}
    {ended : Except Raised α} (h : (attempt change).on store = some (ended, after)) :
    (∃ result, change store = .ok (result, after) ∧ ended = .ok result) ∨
      ∃ cause, ended = .error cause ∧ after = store := by
  unfold attempt at h
  simp only at h
  cases hchange : change store with
  | ok made =>
    rw [hchange] at h
    cases h
    exact .inl ⟨_, rfl, rfl⟩
  | error cause =>
    rw [hchange] at h
    cases h
    exact .inr ⟨cause, rfl, rfl⟩

theorem bind_on (first : Eval α) (next : α → Eval β) (store : Store) :
    (first >>= next).on store =
      match first.on store with
      | none => none
      | some (.ok result, store) => (next result).on store
      | some (.error cause, store) => some (.error cause, store) := rfl

/-- After a result, the next computation goes on in the store that was left. -/
theorem bind_ok {first : Eval α} {next : α → Eval β} {store after : Store} {result : α}
    (h : first.on store = some (.ok result, after)) :
    (first >>= next).on store = (next result).on after := by
  simp [bind_on, h]

/-- After an error there is no next computation. -/
theorem bind_error {first : Eval α} {next : α → Eval β} {store after : Store} {cause : Raised}
    (h : first.on store = some (.error cause, after)) :
    (first >>= next).on store = some (.error cause, after) := by
  simp [bind_on, h]

/-- Without an answer there is no next computation. -/
theorem bind_none {first : Eval α} {next : α → Eval β} {store : Store}
    (h : first.on store = none) : (first >>= next).on store = none := by
  simp [bind_on, h]

/-- One computation after another ends with the error of the first, or as the second does. -/
theorem bind_eq_some {first : Eval α} {next : α → Eval β} {store after : Store}
    {ended : Except Raised β} (h : (first >>= next).on store = some (ended, after)) :
    (∃ cause, first.on store = some (.error cause, after) ∧ ended = .error cause) ∨
      ∃ result middle, first.on store = some (.ok result, middle) ∧
        (next result).on middle = some (ended, after) := by
  rw [bind_on] at h
  split at h
  · cases h
  · rename_i result middle hfirst
    exact .inr ⟨result, middle, hfirst, h⟩
  · rename_i cause middle hfirst
    cases h
    exact .inl ⟨cause, hfirst, rfl⟩

/-- What is done with the result of a computation does not change the store. -/
theorem map_on (first : Eval α) (f : α → β) (store : Store) :
    (first >>= fun result => Pure.pure (f result)).on store
      = (first.on store).map fun (ended, after) => (ended.map f, after) := by
  rw [bind_on]
  rcases first.on store with _ | ⟨_ | _, _⟩ <;> rfl

@[simp] theorem raise_bind (cause : Raised) (next : α → Eval β) :
    (raise cause : Eval α) >>= next = raise cause := rfl

@[simp] theorem diverge_bind (next : α → Eval β) : (diverge : Eval α) >>= next = diverge := rfl

instance : LawfulMonad Eval :=
  LawfulMonad.mk' Eval
    (fun first => by
      ext1 store
      change (first >>= Pure.pure).on store = first.on store
      rw [bind_on]
      rcases first.on store with _ | ⟨_ | _, _⟩ <;> rfl)
    (fun _ _ => rfl)
    (fun first second third => by
      ext1 store
      rw [bind_on, bind_on, bind_on]
      rcases first.on store with _ | ⟨_ | _, _⟩ <;> rfl)

end Eval

end Descent
