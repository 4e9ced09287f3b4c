import Descent.Proofs.Journal.Erases
import Descent.Proofs.Store.Opens

/-! # Accounts of runs

Errors are raised deep inside a run and pass through everything that is in progress there. An
account of a computation lists the errors where they are raised, and the attempts at making lazy
parsers when they are over, whichever way they ended.

* **`Attempt`**, **`Incident`** — what is listed.
* **`Account`** — computations of which an account is given, if they give an answer.
* **`Account.upTo`** — the engines that give accounts.
* **`Account.related_upTo`** — they are the engines with accounts besides.
* **`Account.Law`** — what can be said of all accounts, put together from what can be said of each
  thing that happens.
* **`Account.Law.apply`** — main statement: so it is true of the accounts of operations. -/

namespace Descent

/-- An attempt at making a lazy parser. -/
structure Attempt where
  /-- The lazy parser. -/
  cell : CellId
  /-- The store in which it was asked for its parser. -/
  before : Store
  /-- The lazy parsers that were asked for theirs in the meantime. -/
  within : List CellId
  /-- What the attempt ended with. -/
  ended : Except Raised Parser
  /-- The store that it left. -/
  after : Store

/-- What is listed in an account. -/
inductive Incident : Type where
  /-- An error was raised. -/
  | raised (cause : Raised)
  /-- An attempt at making a lazy parser is over. -/
  | attempted (attempt : Attempt)

namespace Incident

/-- The errors that were raised. -/
def errors (incidents : List Incident) : List Raised :=
  incidents.filterMap fun
    | raised cause => some cause
    | attempted _ => none

/-- The attempts that were made. -/
def attempts (incidents : List Incident) : List Attempt :=
  incidents.filterMap fun
    | raised _ => none
    | attempted attempt => some attempt

/-- The lazy parsers that were asked for their parsers. -/
def asked (incidents : List Incident) : List CellId := (attempts incidents).map Attempt.cell

@[simp] theorem errors_nil : errors [] = [] := rfl

@[simp] theorem errors_raised (cause : Raised) (rest : List Incident) :
    errors (raised cause :: rest) = cause :: errors rest := rfl

@[simp] theorem errors_attempted (attempt : Attempt) (rest : List Incident) :
    errors (attempted attempt :: rest) = errors rest := rfl

@[simp] theorem errors_append (first second : List Incident) :
    errors (first ++ second) = errors first ++ errors second := List.filterMap_append

@[simp] theorem attempts_nil : attempts [] = [] := rfl

@[simp] theorem attempts_raised (cause : Raised) (rest : List Incident) :
    attempts (raised cause :: rest) = attempts rest := rfl

@[simp] theorem attempts_attempted (attempt : Attempt) (rest : List Incident) :
    attempts (attempted attempt :: rest) = attempt :: attempts rest := rfl

@[simp] theorem attempts_append (first second : List Incident) :
    attempts (first ++ second) = attempts first ++ attempts second := List.filterMap_append

@[simp] theorem asked_append (first second : List Incident) :
    asked (first ++ second) = asked first ++ asked second := by
  unfold asked
  rw [attempts_append, List.map_append]

end Incident

/-- The error that a computation ended with, if any. -/
def causeOf {α : Type} : Except Raised α → Option Raised
  | .ok _ => none
  | .error cause => some cause

/-- A computation on a store of which an account is given. -/
structure Account (α : Type) where
  /-- What the computation ends with, if it gives an answer, and what happened. -/
  on : Store → Option ((Except Raised α × Store) × List Incident)

/-- The store in which the function of a lazy parser begins. -/
def Store.begun (store : Store) (cell : CellId) (name : String) (state : RuleState) : Store :=
  (store.log (.building name state)).setState cell .building

namespace Account

variable {α β : Type}

/-- End with a result; nothing happens. -/
def pure (result : α) : Account α := ⟨fun store => some ((.ok result, store), [])⟩

/-- One computation, then another that depends on the result. -/
def bind (first : Account α) (next : α → Account β) : Account β :=
  ⟨fun store =>
    match first.on store with
    | none => none
    | some ((.ok result, store), incidents) =>
        ((next result).on store).map fun (ended, rest) => (ended, incidents ++ rest)
    | some ((.error cause, store), incidents) => some ((.error cause, store), incidents)⟩

instance : Monad Account where
  pure := pure
  bind := bind

/-- A computation in which no lazy parser is made. If it ends with an error, that is raised
there. -/
def plain (computation : Eval α) : Account α :=
  ⟨fun store => (computation.on store).map fun (ended, after) =>
    ((ended, after), ((causeOf ended).map Incident.raised).toList)⟩

instance : MonadLift Eval Account := ⟨plain⟩

theorem lift_on (computation : Eval α) (store : Store) :
    (liftM computation : Account α).on store = (computation.on store).map fun (ended, after) =>
      ((ended, after), ((causeOf ended).map Incident.raised).toList) := rfl

theorem bind_on (first : Account α) (next : α → Account β) (store : Store) :
    (first >>= next).on store =
      match first.on store with
      | none => none
      | some ((.ok result, store), incidents) =>
          ((next result).on store).map fun (ended, rest) => (ended, incidents ++ rest)
      | some ((.error cause, store), incidents) => some ((.error cause, store), incidents) := rfl

/-- One computation after another ends with the error of the first, or as the second does, and then
both accounts are given. -/
theorem bind_eq_some {first : Account α} {next : α → Account β} {store after : Store}
    {ended : Except Raised β} {incidents : List Incident}
    (h : (first >>= next).on store = some ((ended, after), incidents)) :
    (∃ cause, first.on store = some ((.error cause, after), incidents) ∧ ended = .error cause) ∨
      ∃ result middle earlier later, first.on store = some ((.ok result, middle), earlier) ∧
        (next result).on middle = some ((ended, after), later) ∧ incidents = earlier ++ later := by
  rw [bind_on] at h
  split at h
  · cases h
  · rename_i result middle earlier hfirst
    obtain ⟨⟨outcome, later⟩, hnext, heq⟩ := Option.map_eq_some_iff.mp h
    cases heq
    exact .inr ⟨result, middle, earlier, later, hfirst, hnext, rfl⟩
  · rename_i cause middle earlier hfirst
    cases h
    exact .inl ⟨cause, hfirst, rfl⟩

/-! ## Engines -/

/-- What happens when a lazy parser's function is over: if it has ended with what is no parser, that
is an error, and in any case the attempt is over. -/
def closing (cell : CellId) (before : Store) (within : List CellId) :
    Except Raised (Object Parser) → Except Raised Parser × Store → List Incident
  | .ok _, (.error cause, after) =>
      [.raised cause, .attempted ⟨cell, before, within, .error cause, after⟩]
  | _, (ended, after) => [.attempted ⟨cell, before, within, ended, after⟩]

/-- The parser of a lazy parser, with an account of how it is made. -/
def assemble (engine : Engine Account) (cell : CellId) : Account Parser :=
  ⟨fun store =>
    match store.cell? cell with
    | none => none
    | some ⟨_, _, _, some parser⟩ =>
        some ((.ok parser, store), [.attempted ⟨cell, store, [], .ok parser, store⟩])
    | some ⟨name, state, make, none⟩ =>
        let begun := store.begun cell name state
        ((engine.perform make.action).on begun).map fun (made, incidents) =>
          let settled := Engine.settle cell name made
          (settled, incidents ++ closing cell store (Incident.asked incidents) made.1 settled)⟩

section Assemble

variable {engine : Engine Account} {cell : CellId} {store : Store} {name : String}
  {state : RuleState} {make : Maker}

/-- What is no lazy parser is not made. -/
theorem assemble_of_none (h : store.cell? cell = none) :
    (assemble engine cell).on store = none := by
  simp only [assemble, h]

/-- The parser of a lazy parser that has been made is used again. -/
theorem assemble_of_made {parser : Parser}
    (h : store.cell? cell = some ⟨name, state, make, some parser⟩) :
    (assemble engine cell).on store
      = some ((.ok parser, store), [.attempted ⟨cell, store, [], .ok parser, store⟩]) := by
  simp only [assemble, h]

/-- The function of any other lazy parser is called. -/
theorem assemble_of_unmade (h : store.cell? cell = some ⟨name, state, make, none⟩) :
    (assemble engine cell).on store =
      ((engine.perform make.action).on (store.begun cell name state)).map fun (made, incidents) =>
        (Engine.settle cell name made,
          incidents ++ closing cell store (Incident.asked incidents) made.1
            (Engine.settle cell name made)) := by
  simp only [assemble, h]

end Assemble

/-- What happens when a lazy parser's function has ended without a parser. -/
theorem exists_closing_eq (cell : CellId) (name : String) {made : Except Raised (Object Parser)}
    (h : ∀ p, made ≠ .ok (.parser p)) (before middle : Store) (within : List CellId) :
    ∃ cause late, (causeOf made = some cause ∧ late = [] ∨
        causeOf made = none ∧ late = [Incident.raised cause]) ∧
      Engine.settle cell name (made, middle) = (.error cause, middle.setState cell .unbuilt) ∧
      closing cell before within made (Engine.settle cell name (made, middle)) = late ++
        [.attempted ⟨cell, before, within, .error cause, middle.setState cell .unbuilt⟩] := by
  obtain ⟨cause, hsettle⟩ := Engine.settle_of_ne cell name h middle
  rw [hsettle]
  cases made with
  | error =>
    cases hsettle
    exact ⟨cause, [], .inl ⟨rfl, rfl⟩, rfl, rfl⟩
  | ok object => exact ⟨cause, [.raised cause], .inr ⟨rfl, rfl⟩, rfl, rfl⟩

/-- The engine that may go so many levels deep and gives an account. -/
def upTo : Nat → Engine Account
  | 0 => ⟨fun _ _ _ => plain Eval.diverge, fun _ => plain Eval.diverge⟩
  | depth + 1 => ⟨(upTo depth).step, assemble (upTo depth)⟩

/-! ## Giving an account changes nothing -/

/-- Without its account, a computation does what another one does. -/
def Erases {α : Type} (account : Account α) (bare : Eval α) : Prop :=
  ∀ store, (account.on store).map Prod.fst = bare.on store

/-- Putting computations together keeps this up. -/
theorem compatible_erases : Engine.Compatible (fun α => Erases (α := α)) where
  pure _ _ := rfl
  basic {α computation} _ store := by
    rw [lift_on]
    cases computation.on store <;> rfl
  bind {α β first first' next next'} h hnext := by
    intro store
    rw [bind_on, Eval.bind_on, ← h store]
    rcases first.on store with _ | ⟨⟨cause | result, after⟩, incidents⟩
    · rfl
    · rfl
    · have hrest := hnext result after
      simp only [Option.map_some, Option.map_map]
      exact hrest

/-- Lazy parsers are made as they are without an account. -/
theorem erases_assemble {engine : Engine Account} {bare : Engine Eval}
    (h : Engine.Related (fun _ => Erases) engine bare) (cell : CellId) :
    (assemble engine cell).Erases (bare.assemble cell) := by
  intro store
  cases hcell : store.cell? cell with
  | none => rw [assemble_of_none hcell, Engine.assemble_of_none hcell, Option.map_none]
  | some found =>
    obtain ⟨name, state, make, _ | parser⟩ := found
    · have hmade := h.perform compatible_erases make.action
      rw [assemble_of_unmade hcell, Engine.assemble_of_unmade hcell, ← hmade, Option.map_map,
        Option.map_map]
      rfl
    · rw [assemble_of_made hcell, Engine.assemble_of_made hcell, Option.map_some]

/-- Engines that give accounts are the engines with accounts besides. -/
theorem related_upTo (depth : Nat) :
    Engine.Related (fun _ => Erases) (upTo depth) (Engine.upTo depth) := by
  induction depth with
  | zero => exact ⟨fun _ _ _ _ => rfl, fun _ _ => rfl⟩
  | succ depth ih => exact ⟨ih.step compatible_erases, erases_assemble ih⟩

end Account

/-- What an operation ends with does not depend on whether an account is given. -/
theorem Operation.exists_account (operation : Operation) {depth : Nat} {store : Store}
    {ended : Except Raised Unit × Store}
    (hon : (operation.apply (Engine.upTo depth)).on store = some ended) :
    ∃ incidents, (operation.apply (Account.upTo depth)).on store = some (ended, incidents) := by
  have herases := operation.related Account.compatible_erases (Account.related_upTo depth) store
  rw [hon] at herases
  obtain ⟨⟨_, incidents⟩, haccount, rfl⟩ := Option.map_eq_some_iff.mp herases
  exact ⟨incidents, haccount⟩

/-! ## Laws -/

namespace Account

/-- What can be said of computations: of the store in which one begins, of the error that it ends
with, if any, of the store that it leaves, and of what happens. -/
abbrev Report := Store → Option Raised → Store → List Incident → Prop

/-- What can be said of all computations, because it can be said of what they are put together
from. -/
structure Law (P : Report) : Prop where
  /-- Nothing happens. -/
  quiet : ∀ {store after}, store.Opens after → P store none after []
  /-- An error is raised. -/
  raised : ∀ {store after}, store.Opens after → ∀ cause, P store (some cause) after [.raised cause]
  /-- One computation comes after another. -/
  bind : ∀ {store middle after first second cause?}, P store none middle first →
    P middle cause? after second → P store cause? after (first ++ second)
  /-- A lazy parser has been made already. -/
  reused : ∀ {store cell parser}, store.stored cell = some parser →
    P store none store [.attempted ⟨cell, store, [], .ok parser, store⟩]
  /-- The function of a lazy parser has ended with a parser. -/
  made : ∀ {engine : Engine Account} {store cell name state make parser middle incidents},
    store.cell? cell = some ⟨name, state, make, none⟩ →
    (engine.perform make.action).on (store.begun cell name state)
      = some ((.ok (.parser parser), middle), incidents) →
    P (store.begun cell name state) none middle incidents → ∀ {after},
    after = (middle.setParser cell parser).log (.ready name) → P store none after
      (incidents ++ [.attempted ⟨cell, store, Incident.asked incidents, .ok parser, after⟩])
  /-- It has ended without one. If that is an error by itself, it is raised late. -/
  failed : ∀ {engine : Engine Account} {store cell name state make ended middle incidents},
    store.cell? cell = some ⟨name, state, make, none⟩ →
    (engine.perform make.action).on (store.begun cell name state)
      = some ((ended, middle), incidents) →
    P (store.begun cell name state) (causeOf ended) middle incidents → ∀ {cause late after},
    (causeOf ended = some cause ∧ late = [] ∨ causeOf ended = none ∧ late = [.raised cause]) →
    after = middle.setState cell .unbuilt → P store (some cause) after (incidents ++ (late ++
      [.attempted ⟨cell, store, Incident.asked incidents, .error cause, after⟩]))

/-- So much can be said of a computation. -/
def Follows (P : Report) {α : Type} (account : Account α) : Prop :=
  ∀ store ended after incidents, account.on store = some ((ended, after), incidents) →
    P store (causeOf ended) after incidents

namespace Law

variable {P : Report}

/-- Putting computations together keeps this up. -/
theorem compatible (hP : Law P) :
    Engine.Compatible fun α (account _ : Account α) => account.Follows P where
  pure result store ended after incidents hon := by
    cases hon
    exact hP.quiet (.refl store)
  basic {α computation} hbasic store ended after incidents hon := by
    rw [lift_on] at hon
    obtain ⟨⟨outcome, _⟩, hcomputation, heq⟩ := Option.map_eq_some_iff.mp hon
    cases heq
    have hopens := hbasic.opens hcomputation
    cases ended with
    | ok result => exact hP.quiet hopens
    | error cause => exact hP.raised hopens cause
  bind {α β first _ next _} h hnext store ended after incidents hon := by
    rcases bind_eq_some hon with
      ⟨cause, hfirst, rfl⟩ | ⟨result, middle, earlier, later, hfirst, hsecond, rfl⟩
    · exact h store _ after incidents hfirst
    · exact hP.bind (h store _ middle earlier hfirst)
        (hnext result middle ended after later hsecond)

/-- It can be said of making a lazy parser if it can be said of performing scripts. -/
theorem assemble (hP : Law P) {engine : Engine Account}
    (h : ∀ action : Action (Object Parser), (engine.perform action).Follows P) (cell : CellId) :
    (Account.assemble engine cell).Follows P := by
  intro store ended after incidents hon
  cases hcell : store.cell? cell with
  | none =>
    rw [assemble_of_none hcell] at hon
    cases hon
  | some found =>
    obtain ⟨name, state, make, _ | parser⟩ := found
    · rw [assemble_of_unmade hcell] at hon
      obtain ⟨⟨⟨made, middle⟩, earlier⟩, hperform, heq⟩ := Option.map_eq_some_iff.mp hon
      have hmade := h make.action _ made middle earlier hperform
      by_cases hparser : ∃ p, made = .ok (.parser p)
      · obtain ⟨p, rfl⟩ := hparser
        cases heq
        exact hP.made hcell hperform hmade rfl
      · obtain ⟨cause, late, hlate, hsettle, hclosing⟩ :=
          exists_closing_eq cell name (not_exists.mp hparser) store middle (Incident.asked earlier)
        dsimp only at heq
        rw [hclosing, hsettle] at heq
        cases heq
        exact hP.failed hcell hperform hmade hlate rfl
    · rw [assemble_of_made hcell] at hon
      cases hon
      exact hP.reused (Store.stored_of_cell? hcell)

/-- It can be said of what engines do. -/
theorem related_upTo (hP : Law P) (depth : Nat) :
    Engine.Related (fun _ (account _ : Account _) => account.Follows P) (upTo depth)
      (upTo depth) := by
  induction depth with
  | zero => exact ⟨fun _ _ _ _ _ _ _ => nofun, fun _ _ _ _ _ => nofun⟩
  | succ depth ih =>
    exact ⟨ih.step hP.compatible, hP.assemble (ih.perform hP.compatible)⟩

/-- So it can be said of operations. -/
theorem apply (hP : Law P) (operation : Operation) (depth : Nat) :
    (operation.apply (upTo depth)).Follows P :=
  operation.related hP.compatible (hP.related_upTo depth)

end Law

end Account

end Descent
