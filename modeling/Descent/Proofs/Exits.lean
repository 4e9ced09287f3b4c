import Descent.Proofs.Account.Alone
import Descent.Proofs.Alike.Exact
import Descent.Proofs.Film.Truth
import Descent.Proofs.Invariants

/-! # What is left when an operation is over

However an operation of a session ends, no lazy parser is being built afterwards, and those that
were ready are ready with the parsers that they had. If it ends with an error, that is the one error
that was raised. It passes through everything that was in progress, and the lazy parsers that were
being made then are unbuilt. If their functions neither run parsers nor have them made, that is all
that is left of it.

* **`Plays.eq_of_kept`** — nothing happens any more to a lazy parser that has been made.
* **`Store.Reached.sound`** — between the deeds of a session, stages are what they should be.
* **`Attempt.spared`** — the store as it would be without a certain attempt.
* **`Attempt.sameResults_spared`** — whatever is run later ends as it would then.
* **`Operation.exits_cleanly`** — main statement: all of this together. -/

namespace Descent

/-! ## Lazy parsers that have been made -/

section Kept

variable {cell : CellId} {before after : Posture}

/-- Nothing happens any more to a lazy parser that holds a parser, if none of its calls is in
progress. -/
theorem Posture.Step.eq_of_kept {noted : Option Entry} (step : Posture.Step cell before noted after)
    (hkept : before.kept.isSome) (hcalls : before.calls = 0) : after = before := by
  cases step with
  | still | reused | other => rfl
  | called => cases hkept
  | made | failed => cases hcalls

/-- So it is in a whole film. -/
theorem Plays.eq_of_kept {scenes : List Scene} (h : Plays cell before scenes after)
    (hkept : before.kept.isSome) (hcalls : before.calls = 0) : after = before := by
  induction h with
  | nil => rfl
  | cons step _ ih =>
    have hsame := step.eq_of_kept hkept hcalls
    rw [hsame] at ih
    rw [ih hkept hcalls]

end Kept

/-! ## Stages between deeds -/

/-- A deed that comes to an end changes a lazy parser as films do. -/
theorem Deed.exists_plays {deed : Deed} {depth : Nat} {store after : Store}
    {ended : Except Raised Unit}
    (hon : (deed.apply (Engine.upTo depth)).on store = some (ended, after)) (cell : CellId) :
    ∃ scenes, Plays cell (store.posture cell 0) scenes (after.posture cell 0) := by
  have hshown := Film.shows_apply cell depth deed store 0
  have hfst := deed.fst_apply_on depth store
  rw [hon] at hfst
  generalize (deed.apply (Film.upTo depth)).on store = done at hshown hfst
  obtain ⟨_, scenes⟩ := done
  cases hfst
  exact ⟨scenes, hshown.2⟩

namespace Store

variable {store after : Store} {cell : CellId}

/-- Between the deeds of a session, stages are what they should be. -/
theorem Reached.sound (h : store.Reached) (cell : CellId) : (store.posture cell 0).Sound := by
  induction h with
  | initial logging =>
    rw [posture_initial]
    exact Posture.sound_absent
  | after _ _ hdeed ih =>
    obtain ⟨scenes, hplays⟩ := Deed.exists_plays hdeed cell
    exact hplays.sound ih

/-- Stages that are what they should be let lazy parsers rest. -/
theorem rests_of_sound (h : (store.posture cell 0).Sound) : store.Rests cell := by
  intro found hfound
  have hstage : store.stage cell = found.state := by
    rw [stage, cellAt, hfound]
    rfl
  have hready := h.ready
  have hbuilding := h.building
  unfold posture at hready hbuilding
  rw [hstage] at hready hbuilding
  rw [stored_of_cell? hfound] at hready
  exact ⟨fun hstate => absurd (hbuilding hstate) (Nat.lt_irrefl 0),
    fun hstate => Option.isSome_iff_ne_none.mp (hready hstate)⟩

end Store

/-! ## As if there had been no attempt -/

namespace Store

variable {pairs : Pairing} {store store' : Store}

/-- Nothing is counted when attempts fail. -/
@[simp] theorem counters_abandon (store : Store) (around : List Attempt) :
    (store.abandon around).counters = store.counters := by
  unfold abandon
  induction around generalizing store with
  | nil => rfl
  | cons outer rest ih => exact ih _

/-- Stores in step remain so when the same attempts fail on both. -/
theorem InStep.abandon {leeway : Leeway} (h : store.InStep leeway pairs store')
    (hsame : ∀ id id' : CellId, id.Pairs pairs id' → id = id') (around : List Attempt) :
    (store.abandon around).InStep leeway pairs (store'.abandon around) := by
  unfold Store.abandon
  induction around generalizing store store' with
  | nil => exact h
  | cons outer rest ih => exact ih (h.setState_same hsame outer.cell .unbuilt)

end Store

/-- The store as it would be if there had not been an attempt and the attempts around it had failed
all the same, except that the counters, which are not part of any grammar, stand where they stand in
a store. -/
def Attempt.spared (attempt : Attempt) (around : List Attempt) (store : Store) : Store :=
  { attempt.before with counters := store.counters }.abandon around

/-- If nothing but new lazy parsers, new languages, notes, counts and entries in the log is left of
an attempt, then whatever is run later ends as it would without the attempt. -/
theorem Attempt.sameResults_spared {attempt : Attempt} {around : List Attempt} {after : Store}
    {pairs : Pairing} (hopens : attempt.before.Opens attempt.after)
    (hafter : after = attempt.after.abandon around) (h : attempt.before.Anonymous pairs) :
    (attempt.spared around after).SameResults pairs after := by
  have hcounters : after.counters = attempt.after.counters := by
    rw [hafter, Store.counters_abandon]
  have hcounted : Store.Adds attempt.before { attempt.before with counters := after.counters } :=
    Store.adds_of_instances_eq rfl rfl rfl rfl rfl rfl
  have hinStep : Store.InStep .exact pairs { attempt.before with counters := after.counters }
      attempt.after := by
    refine h.inStep.of_adds hcounted hopens.adds fun counter => ?_
    unfold Store.countOf
    rw [hcounters]
  have hboth := hinStep.abandon h.same around
  rw [← hafter] at hboth
  exact hboth.sameResults

/-! ## Operations -/

/-- The attempts among incidents that are all attempts. -/
@[simp] theorem Incident.attempts_map_attempted (around : List Attempt) :
    Incident.attempts (around.map .attempted) = around := by
  unfold Incident.attempts
  rw [List.filterMap_map]
  exact List.filterMap_some

/-- What is left of an attempt that failed: if its lazy parser is never asked for while it is being
made, it is as it was before the attempt, unbuilt, and its function is called when it is run next;
if moreover no other lazy parser was asked for during the attempt, whatever is run later ends as it
would without the attempt. Attempts with functions that neither run parsers nor have them made are
such attempts. -/
structure Attempt.Traceless (attempt : Attempt) (incidents : List Incident)
    (around : List Attempt) (after : Store) : Prop where
  /-- Functions that neither run parsers nor have them made ask for no lazy parser. -/
  passive : attempt.Passive → attempt.within = [] ∧ ¬ Incident.Reenters attempt.cell incidents
  /-- The lazy parser is unbuilt, as it was, and holds nothing. -/
  undone : ¬ Incident.Reenters attempt.cell incidents → attempt.Undone ∧
    after.cell? attempt.cell = attempt.before.cell? attempt.cell
  /-- The next run calls the function again. -/
  callsNext : ¬ Incident.Reenters attempt.cell incidents → after.CallsNext attempt.cell
  /-- Whatever is run later ends as it would without the attempt. -/
  sameResults : ¬ Incident.Reenters attempt.cell incidents → attempt.within = [] →
    ∀ pairs, attempt.before.Anonymous pairs → (attempt.spared around after).SameResults pairs after

namespace Operation

variable {operation : Operation} {depth : Nat} {store after : Store} {ended : Except Raised Unit}
  {incidents earlier : List Incident} {attempt : Attempt} {around : List Attempt} {cause : Raised}

/-- Every attempt that failed in an operation is like that. -/
theorem traceless (hsound : ∀ cell, (store.posture cell 0).Sound)
    (haccount : (operation.apply (Account.upTo depth)).on store = some ((ended, after), incidents))
    (hsplit : incidents = earlier ++ .attempted attempt :: around.map .attempted)
    (hended : attempt.ended = .error cause)
    (hunwinds : (Incident.attempted attempt).Unwinds cause around after) :
    attempt.Traceless incidents around after := by
  have hattempts : Incident.attempts incidents
      = Incident.attempts earlier ++ attempt :: around := by
    rw [hsplit, Incident.attempts_append, Incident.attempts_attempted,
      Incident.attempts_map_attempted]
  have hmem : attempt ∈ Incident.attempts incidents := by
    rw [hattempts]
    exact List.mem_append_right _ List.mem_cons_self
  have hafter := hunwinds.left attempt rfl
  have hundoes := (Account.law_undoes attempt.cell).apply operation depth _ _ _ _ haccount
  have hundone : ¬ Incident.Reenters attempt.cell incidents → attempt.Undone := fun hreenters =>
    (hundoes.2 (Store.rests_of_sound (hsound _)) hreenters).2 attempt hmem rfl cause hended
  have hcell : ¬ Incident.Reenters attempt.cell incidents →
      after.cell? attempt.cell = attempt.before.cell? attempt.cell := by
    intro hreenters
    obtain ⟨name, make, hbefore, hlast⟩ := hundone hreenters
    -- the attempts around this one are at other lazy parsers
    rw [hafter, Store.cell?_abandon, hlast, hbefore]
    intro outer houter hsame
    refine hreenters ⟨outer, ?_, hsame, hunwinds.within attempt rfl outer houter⟩
    rw [hattempts]
    exact List.mem_append_right _ (List.mem_cons_of_mem _ houter)
  refine ⟨fun hpassive => ?_, fun hreenters => ⟨hundone hreenters, hcell hreenters⟩,
    fun hreenters => ?_, fun hreenters hwithin pairs hanonymous => ?_⟩
  · have hwithin := Account.law_passive.apply operation depth _ _ _ _ haccount
    have hmakes := Account.law_makes.apply operation depth _ _ _ _ haccount
    exact ⟨hwithin attempt hmem hpassive, Account.not_reenters hmakes.2 hwithin hmem hpassive⟩
  · obtain ⟨name, make, hbefore, -⟩ := hundone hreenters
    have hfound := (hcell hreenters).trans hbefore
    exact Store.callsNext_of_stored (Option.isSome_of_eq_some hfound) (Store.stored_of_cell? hfound)
  · have halone := Account.law_alone.apply operation depth _ _ _ _ haccount
    have hopens := (halone.2 attempt hmem hwithin cause hended).opens (hundone hreenters)
    exact Attempt.sameResults_spared hopens hafter hanonymous

/-- However an operation of a session ends, no lazy parser is being built afterwards, and those that
were ready are ready with the parsers that they had. The only error that is raised in it is the one
that it ends with: once it is raised, or an attempt at making a lazy parser fails with it, nothing
happens any more but that the attempts in progress fail with it, too. Attempts that fail with it
leave no trace, provided that their functions neither run parsers nor have them made. -/
theorem exits_cleanly (operation : Operation) {depth : Nat} {store after : Store}
    {ended : Except Raised Unit} (hstore : store.Reached)
    (hon : (operation.apply (Engine.upTo depth)).on store = some (ended, after)) :
    (∀ cell, after.stage cell ≠ .building) ∧
      (∀ cell, store.stage cell = .ready → after.stage cell = .ready ∧
        ∃ parser, store.stored cell = some parser ∧ after.stored cell = some parser) ∧
      ∃ incidents,
        (operation.apply (Account.upTo depth)).on store = some ((ended, after), incidents) ∧
        Incident.errors incidents = (causeOf ended).toList ∧
        ∀ earlier incident later cause, incidents = earlier ++ incident :: later →
          incident.cause? = some cause → ended = .error cause ∧
            ∃ around : List Attempt, later = around.map .attempted ∧
              incident.Unwinds cause around after ∧
              ∀ attempt, incident = .attempted attempt →
                attempt.Traceless incidents around after := by
  have hdeed : ((Deed.operate operation).apply (Engine.upTo depth)).on store
      = some (ended, after) := hon
  have hsound := hstore.sound
  have hsound' := Store.Reached.sound (hstore.after trivial hdeed)
  obtain ⟨incidents, haccount⟩ := operation.exists_account hon
  refine ⟨fun cell hstage => ?_, fun cell hstage => ?_, incidents, haccount, ?_, ?_⟩
  · exact absurd ((hsound' cell).building hstage) (Nat.lt_irrefl 0)
  · have hkept := (hsound cell).ready hstage
    obtain ⟨scenes, hplays⟩ := Deed.exists_plays hdeed cell
    have hsame := hplays.eq_of_kept hkept rfl
    obtain ⟨parser, hparser⟩ := Option.isSome_iff_exists.mp hkept
    exact ⟨(congrArg Posture.stage hsame).trans hstage, parser, hparser,
      (congrArg (fun posture => posture.kept) hsame).trans hparser⟩
  · exact Account.law_errors.apply operation depth _ _ _ _ haccount
  · intro earlier incident later cause hsplit hcause
    obtain ⟨hended, around, rfl, hunwinds⟩ :=
      Account.law_unwinds.apply operation depth _ _ _ _ haccount earlier incident later cause
        hsplit hcause
    refine ⟨?_, around, rfl, hunwinds, ?_⟩
    · cases ended with
      | ok => cases hended
      | error => rw [Option.some.inj hended]
    · rintro attempt rfl
      have hfailed : attempt.ended = .error cause := by
        cases hattempt : attempt.ended with
        | ok => rw [Incident.cause?, hattempt] at hcause; cases hcause
        | error => rw [Incident.cause?, hattempt] at hcause; rw [Option.some.inj hcause]
      exact traceless hsound haccount hsplit hfailed hunwinds

end Operation

/-! ## A rule that cannot be made at first -/

/-- Two rules: the first one raises an error the first time that it is to be made, and is a text
from then on; the second one runs the first one when it is to be made, and is the first one. -/
def wakingRules : Table (Owner → Maker) :=
  [("waking", fun _ => .mk (.count 0 fun before =>
      if before = 0 then .raise (.own .value "asleep") else .done (.parser (.text "b")))),
    ("calling", fun owner => .mk (.rule owner.language "waking" fun cell =>
      .run (.lazy cell) ['b'] .start fun _ => .done (.parser (.lazy cell))))]

/-- A store with a language that has these rules. -/
def wakingStore : Store :=
  { Store.initial false with
    instances := #[⟨0, [], some [("waking", ⟨0, 0⟩), ("calling", ⟨0, 1⟩)],
      (Store.cellsOf (wakingRules.map fun rule => (rule.1, rule.2 ⟨0, []⟩))).toArray⟩] }

theorem create_waking :
    (Store.initial false).create Store.baseName [] wakingRules = .ok (0, wakingStore) := rfl

/-- There is a session in which such a language is made. -/
theorem reached_wakingStore : wakingStore.Reached := by
  have hdeeds : (Store.initial false).afterDeeds 1
      [.operate (.perform (.create Store.baseName [] wakingRules fun _ => .done (.value .nothing)))]
      = some wakingStore := rfl
  exact (Store.ReachedBy.initial false).afterDeeds (fun _ _ => trivial) hdeeds

/-- These rules do not tell lazy parsers apart by their numbers. -/
theorem wakingRules_alike (pairs : Pairing) :
    Store.RulesAlike .exact pairs wakingRules wakingRules := by
  refine .cons ⟨rfl, fun larger owner owner' _ howner => ⟨?_, fun hstages => hstages.elim⟩⟩
    (.cons ⟨rfl, fun larger owner owner' _ howner => ⟨?_, fun hstages => hstages.elim⟩⟩ .nil)
  · refine .count not_false fun before => ?_
    by_cases hfirst : before = 0
    · simp only [hfirst, if_pos]
      exact .raise _
    · simp only [hfirst, if_false]
      exact .parser (.text "b")
  · refine .rule howner.language fun larger' cell cell' _ hcell => ?_
    exact .run (.lazy hcell) fun _ _ _ => .parser (.lazy hcell)

/-- What is paired with itself once the language is there. -/
def wakingPairs : Pairing :=
  wakingStore.pairLanguages {(.className Store.baseName, .className Store.baseName)} 0 0

/-- So the store does not tell them apart, nor does it when the second rule is being made. -/
theorem anonymous_waking (state : RuleState) :
    (wakingStore.begun ⟨0, 1⟩ "calling" state).Anonymous wakingPairs := by
  have hsame : ∀ id id' : CellId, id.Pairs wakingPairs id' → id = id' := by
    rintro id id' (hbase | hlanguage | hhome | ⟨index, -, hcell⟩)
    · cases hbase
    · cases hlanguage
    · cases hhome
    · cases hcell
      rfl
  have hstore : wakingStore.InStep .exact wakingPairs wakingStore :=
    (Store.InStep.initial .exact false false).create rfl (wakingRules_alike _) create_waking
      create_waking
  exact ⟨hstore.setState_same hsame ⟨0, 1⟩ .building, hsame⟩

/-- The account of the first run of the second rule: an error, and two attempts that fail with it,
one within the other. The next run ends with a match. -/
theorem exists_account_waking : ∃ (after : Store) (attempt outer : Attempt),
    ((Operation.run (.lazy ⟨0, 1⟩) ['b'] .start).apply (Account.upTo 8)).on wakingStore
      = some ((.error (.own .value "asleep"), after),
        [.raised (.own .value "asleep"), .attempted attempt, .attempted outer]) ∧
    attempt.cell = ⟨0, 0⟩ ∧ attempt.before = wakingStore.begun ⟨0, 1⟩ "calling" .unbuilt ∧
    attempt.ended = .error (.own .value "asleep") ∧ outer.cell = ⟨0, 1⟩ ∧
    after.results 8 [(.lazy ⟨0, 1⟩, ['b'], .start)]
      = some [.ok (.matched ⟨1, 1, 2⟩ (.str "b"))] :=
  ⟨_, _, _, rfl, rfl, rfl, rfl, rfl, rfl⟩

/-- The function of the first rule neither runs parsers nor has them made. -/
theorem passive_waking {attempt : Attempt} (hcell : attempt.cell = ⟨0, 0⟩)
    (hbefore : attempt.before = wakingStore.begun ⟨0, 1⟩ "calling" .unbuilt) :
    attempt.Passive := by
  intro found hfound
  rw [hbefore, hcell] at hfound
  cases hfound
  intro before
  dsimp only
  split
  · trivial
  · trivial

/-- The first run of the second rule ends with the error of the first one, while the second one is
being made as well. A second run makes both, and ends as it would if the first one had not been
tried before. -/
theorem Operation.exits_cleanly_waking :
    ∃ (after : Store) (attempt outer : Attempt),
      ((Operation.run (.lazy ⟨0, 1⟩) ['b'] .start).apply (Engine.upTo 8)).on wakingStore
        = some (.error (.own .value "asleep"), after) ∧
      (∀ cell, after.stage cell ≠ .building) ∧
      attempt.cell = ⟨0, 0⟩ ∧ outer.cell = ⟨0, 1⟩ ∧ attempt.Undone ∧ after.CallsNext ⟨0, 0⟩ ∧
      after.results 8 [(.lazy ⟨0, 1⟩, ['b'], .start)]
        = some [.ok (.matched ⟨1, 1, 2⟩ (.str "b"))] ∧
      ∃ depth, (attempt.spared [outer] after).results depth [(.lazy ⟨0, 1⟩, ['b'], .start)]
        = some [.ok (.matched ⟨1, 1, 2⟩ (.str "b"))] := by
  obtain ⟨after, attempt, outer, haccount, hcell, hbefore, hfailed, houter, hlater⟩ :=
    exists_account_waking
  have hon := (Operation.run (.lazy ⟨0, 1⟩) ['b'] .start).related Account.compatible_erases
    (Account.related_upTo 8) wakingStore
  rw [haccount] at hon
  obtain ⟨hbuilding, -, incidents, haccount', -, herror⟩ :=
    Operation.exits_cleanly _ reached_wakingStore hon.symm
  obtain rfl := congrArg Prod.snd (Option.some.inj (haccount.symm.trans haccount'))
  -- the attempt around the first one is that at the second rule
  obtain ⟨-, around, haround, -, htraceless⟩ :=
    herror [.raised (.own .value "asleep")] (.attempted attempt) [.attempted outer] _ rfl
      (congrArg causeOf hfailed)
  obtain rfl : [outer] = around :=
    (congrArg Incident.attempts haround).trans (Incident.attempts_map_attempted around)
  have hattempt := htraceless attempt rfl
  obtain ⟨hwithin, hreenters⟩ := hattempt.passive (passive_waking hcell hbefore)
  have hcallsNext := hattempt.callsNext hreenters
  rw [hcell] at hcallsNext
  have hanonymous : attempt.before.Anonymous wakingPairs := by
    rw [hbefore]
    exact anonymous_waking .unbuilt
  refine ⟨after, attempt, outer, hon.symm, hbuilding, hcell, houter, (hattempt.undone hreenters).1,
    hcallsNext, hlater, ?_⟩
  refine (hattempt.sameResults hreenters hwithin wakingPairs hanonymous _ ?_ _).mpr ⟨8, hlater⟩
  intro run hrun
  rw [List.mem_singleton.mp hrun]
  exact .lazy (.inr (.inr (.inr ⟨1, Nat.lt_succ_self 1, rfl⟩)))

end Descent
