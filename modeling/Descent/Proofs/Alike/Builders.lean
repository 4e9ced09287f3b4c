import Descent.Engine.Depth
import Descent.Proofs.Alike.Replays
import Descent.Proofs.Alike.Results
import Descent.Proofs.Scripts
import Descent.Proofs.Triples

/-! # Ways of making lazy parsers

An engine keeps the parser of a lazy parser once it is made. An engine that keeps nothing performs
the script of a lazy parser anew each time the lazy parser is run. To compare the two, they are
taken as two ways of making lazy parsers, each with engines of all depths.

* **`Engine.callAnew`** — a lazy parser is made by performing its script, and nothing is kept.
* **`Engine.levels`**, **`Engine.anew`** — the engines of all depths that make lazy parsers in a
  given way, and those that keep nothing.
* **`Engine.Calls`**, **`Engine.Builds`** — what the ways of making lazy parsers have in common.
* **`Engine.builds_assemble`**, **`Engine.builds_callAnew`** — main statements: both ways are of
  this kind.
* **`Engine.Builds.below_levels`** — deeper engines give the same answers, and perhaps more. -/

namespace Descent.Engine

/-! ## The ways -/

/-- The parser that the script of a lazy parser makes. What was made before is left aside, and
nothing is kept. -/
def callAnew (engine : Engine Eval) (cell : CellId) : Eval Parser :=
  ⟨fun store =>
    match store.cell? cell with
    | none => none
    | some found =>
        ((engine.perform found.make.action).on store).map fun (ended, after) =>
          (parserOf found.name after ended, after)⟩

/-- The engine that may go so many levels deep and makes lazy parsers in a given way. -/
def levels (build : Engine Eval → CellId → Eval Parser) : Nat → Engine Eval
  | 0 => silent
  | depth + 1 =>
      ⟨fun parser source place => (levels build depth).step parser source place,
        fun cell => build (levels build depth) cell⟩

/-- The engine that may go so many levels deep and performs the script of a lazy parser anew each
time the lazy parser is run. -/
def anew : Nat → Engine Eval := levels callAnew

/-- The engine that keeps what it makes is one of these. -/
theorem levels_assemble : levels assemble = upTo := by
  funext depth
  induction depth with
  | zero => rfl
  | succ depth ih => rw [levels, upTo, ih]

/-! ## What they have in common -/

variable {store : Store} {cell : CellId} {found : Cell}

/-- A lazy parser is made by performing its script in a store that is made ready for it, and
something is done with the store when the script has ended. -/
structure Calls (build : Engine Eval → CellId → Eval Parser) (store : Store) (cell : CellId)
    (found : Cell) (started : Store) (finish : Except Raised (Object Parser) → Store → Store) :
    Prop where
  /-- The script is performed. -/
  on : ∀ engine, (build engine cell).on store = ((engine.perform found.make.action).on started).map
    fun (ended, after) => (parserOf found.name (finish ended after) ended, finish ended after)
  /-- Making the store ready takes nothing from it. -/
  grows : Store.Grows Cell.Still store started
  /-- What was tracked still is. -/
  tracked : ∀ known, store.Tracked known → started.Tracked known
  /-- What is done in the end takes nothing from the store. -/
  finish_grows : ∀ ended after, Store.Grows Cell.Still after (finish ended after)
  /-- What was tracked still is, if the script replays. -/
  finish_tracked : ∀ known ended after, after.Tracked known →
    (∀ later, after.cell? cell = some later → later.make = found.make) →
    (∀ p, ended = .ok (.parser p) →
      found.make.action.objects.Replays known after (.object (.parser p))) →
    (finish ended after).Tracked known

/-- A lazy parser is there already, or it is made by performing its script. -/
structure Builds (build : Engine Eval → CellId → Eval Parser) : Prop where
  /-- What is no lazy parser is not made. -/
  absent : ∀ store cell, store.cell? cell = none → ∀ engine, (build engine cell).on store = none
  /-- A lazy parser is there already, or it is made by performing its script. -/
  present : ∀ store cell found, store.cell? cell = some found →
    (∃ p, found.parser = some p ∧ ∀ engine, (build engine cell).on store = some (.ok p, store)) ∨
      ∃ started finish, Calls build store cell found started finish

/-- A lazy parser in another stage is tracked as before. -/
theorem tracked_setState {known : Known} (h : store.Tracked known) (cell : CellId)
    (state : RuleState) : (store.setState cell state).Tracked known :=
  h.modifyCell (fun _ => ⟨rfl, rfl⟩) fun _ _ _ hp => .inl hp

/-- A lazy parser that is made once and kept performs its script the first time. -/
theorem calls_assemble (hfound : store.cell? cell = some found) (hnone : found.parser = none) :
    Calls assemble store cell found
      ((store.log (.building found.name found.state)).setState cell .building)
      fun ended after => (settle cell found.name (ended, after)).2 where
  on engine := by
    obtain ⟨name, state, make, parser⟩ := found
    obtain rfl : parser = none := hnone
    rw [assemble_of_unmade hfound]
    congr 1
    funext ⟨ended, after⟩
    exact Prod.ext (settle_fst cell name ended after) rfl
  grows :=
    (Store.Grows.of_adds Cell.Still.refl (Store.adds_log _ _)).still_trans
      (Store.grows_modifyCell _ _ _ Cell.Still.refl fun _ => ⟨rfl, rfl⟩)
  tracked known h := tracked_setState (h.of_adds (Store.adds_log _ _)) cell .building
  finish_grows ended after := by
    by_cases hmade : ∃ p, ended = .ok (.parser p)
    · obtain ⟨p, rfl⟩ := hmade
      have hset : Store.Grows Cell.Still after (after.setParser cell p) :=
        Store.grows_modifyCell _ _ _ Cell.Still.refl fun _ => ⟨rfl, rfl⟩
      exact hset.still_trans (.of_adds Cell.Still.refl (Store.adds_log _ _))
    · rw [settle_snd cell found.name (fun p hp => hmade ⟨p, hp⟩)]
      exact Store.grows_modifyCell _ _ _ Cell.Still.refl fun _ => ⟨rfl, rfl⟩
  finish_tracked known ended after h hmake hreplays := by
    by_cases hmade : ∃ p, ended = .ok (.parser p)
    · obtain ⟨p, rfl⟩ := hmade
      have hset : (after.setParser cell p).Tracked known := by
        refine h.modifyCell (fun _ => ⟨rfl, rfl⟩) fun later p' hlater hp' => .inr ?_
        obtain rfl : p = p' := Option.some.inj hp'
        rw [hmake later hlater]
        exact hreplays p rfl
      exact hset.of_adds (Store.adds_log _ _)
    · rw [settle_snd cell found.name (fun p hp => hmade ⟨p, hp⟩)]
      exact tracked_setState h cell .unbuilt

/-- An engine that keeps what it makes is a way of making lazy parsers. -/
theorem builds_assemble : Builds assemble where
  absent _ _ hnone _ := assemble_of_none hnone
  present store cell found hfound := by
    cases hparser : found.parser with
    | some p =>
      refine .inl ⟨p, rfl, fun engine => ?_⟩
      obtain ⟨name, state, make, parser⟩ := found
      obtain rfl : parser = some p := hparser
      exact assemble_of_made hfound
    | none => exact .inr ⟨_, _, calls_assemble hfound hparser⟩

/-- So is an engine that keeps nothing. -/
theorem builds_callAnew : Builds callAnew where
  absent _ _ hnone _ := by
    unfold callAnew
    simp only [hnone]
  present store cell found hfound :=
    .inr ⟨store, fun _ after => after,
      { on := fun _ => by
          unfold callAnew
          simp only [hfound]
        grows := .refl Cell.Still.refl store
        tracked := fun _ h => h
        finish_grows := fun _ after => .refl Cell.Still.refl after
        finish_tracked := fun _ _ _ h _ _ => h }⟩

/-! ## Depth -/

namespace Builds

variable {build : Engine Eval → CellId → Eval Parser} {first second : Engine Eval}

/-- Lazy parsers are made as far with the better engine. -/
theorem below (h : Builds build) (hbelow : first.Below second) (cell : CellId) :
    (build first cell).Below (build second cell) := by
  intro store ended hon
  cases hcell : store.cell? cell with
  | none =>
    rw [h.absent store cell hcell] at hon
    cases hon
  | some found =>
    rcases h.present store cell found hcell with ⟨p, -, hmade⟩ | ⟨started, finish, hcalls⟩
    · rw [hmade] at hon ⊢
      exact hon
    · rw [hcalls.on, Option.map_eq_some_iff] at hon
      obtain ⟨outcome, hperform, rfl⟩ := hon
      rw [hcalls.on, perform_below hbelow _ _ _ hperform]
      rfl

/-- Answers within some depth are answers within every greater depth. -/
theorem below_levels (h : Builds build) {depth depth' : Nat} (hle : depth ≤ depth') :
    (levels build depth).Below (levels build depth') := by
  induction depth generalizing depth' with
  | zero => exact ⟨fun _ _ _ => .diverge _, fun _ => .diverge _⟩
  | succ depth ih =>
    cases depth' with
    | zero => omega
    | succ depth' =>
      have hbelow := ih (Nat.le_of_succ_le_succ hle)
      exact ⟨step_below hbelow, h.below hbelow⟩

end Builds

end Descent.Engine
