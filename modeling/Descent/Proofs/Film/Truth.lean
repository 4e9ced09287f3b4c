import Descent.Grammar.Build
import Descent.Proofs.Film.Depth
import Descent.Proofs.Film.Shows
import Mathlib.Data.List.Induction

/-! # Whether the stage of a lazy parser tells the truth

The stage of a lazy parser and the parser that it holds are written separately. When a call of its
function ends, the stage says so, even if an outer call of the same function is still in progress;
and when such an outer call fails, the stage forgets the parser that an inner call has left.

* **`Store.TellsTruth`** — the stage says what there is to say: whether a parser is held and whether
  a call is in progress.
* **`tellsTruth_ofSession_iff`** — main statement: what the stage tells in any case, and exactly
  when it tells all of the truth.
* **`not_forall_tellsTruth_ofSession`** — it does not do so always. -/

namespace Descent

/-- The stage of a lazy parser says whether it holds a parser and whether calls of its function, of
which there are so many, are in progress. -/
def Store.TellsTruth (store : Store) (cell : CellId) (calls : Nat) : Prop :=
  (store.stage cell = .ready ↔ (store.stored cell).isSome ∧ calls = 0) ∧
    (store.stage cell = .building ↔ 0 < calls) ∧
    (store.stage cell = .unbuilt ↔ store.stored cell = none ∧ calls = 0)

/-- The next run of a lazy parser begins with a call of its function. -/
def Store.CallsNext (store : Store) (cell : CellId) : Prop :=
  ∀ depth source place,
    (((Film.upTo (depth + 2)).run (.lazy cell) source place).on store).2.head?.bind Scene.recorded?
      = some (.called cell)

/-- A call of the function of a lazy parser ends in a scene. -/
def Scene.EndsCall (cell : CellId) (scene : Scene) : Prop :=
  ∃ entry, scene.recorded? = some entry ∧ entry.isEnd cell = true

/-! ## Postures that tell the truth -/

namespace Posture

variable {cell : CellId} {before after : Posture} {noted : Option Entry}

/-- What the stage of a lazy parser tells in any case. -/
structure Sound (posture : Posture) : Prop where
  /-- A lazy parser that is ready holds a parser. -/
  ready : posture.stage = .ready → posture.kept.isSome
  /-- While a lazy parser is being built, a call of its function is in progress. -/
  building : posture.stage = .building → 0 < posture.calls

/-- All of the truth. -/
def Calm (posture : Posture) : Prop :=
  (posture.stage = .unbuilt ∧ posture.kept = none ∧ posture.calls = 0) ∨
    (posture.stage = .building ∧ posture.kept = none ∧ 0 < posture.calls) ∨
    (posture.stage = .ready ∧ posture.kept.isSome ∧ posture.calls = 0)

/-- Whatever happens, a lazy parser is ready or being built only with reason. -/
theorem Sound.step (h : before.Sound) (step : Step cell before noted after) : after.Sound := by
  cases step with
  | still | reused | other => exact h
  | called => exact ⟨fun hready => (by cases hready), fun _ => Nat.succ_pos _⟩
  | made => exact ⟨fun _ => rfl, fun hbuilding => (by cases hbuilding)⟩
  | failed => exact ⟨fun hready => (by cases hready), fun hbuilding => (by cases hbuilding)⟩

/-- All of the truth is told as long as no call ends while another one is in progress. -/
theorem Calm.step (h : before.Calm) (step : Step cell before noted after)
    (hend : ∀ entry, noted = some entry → entry.isEnd cell = true → after.calls = 0) :
    after.Calm := by
  cases step with
  | still | reused | other => exact h
  | called => exact .inr (.inl ⟨rfl, rfl, Nat.succ_pos _⟩)
  | made =>
    have hcalls := hend _ rfl (decide_eq_true rfl)
    exact .inr (.inr ⟨rfl, rfl, hcalls⟩)
  | failed =>
    have hcalls := hend _ rfl (decide_eq_true rfl)
    -- the call that ends has been in progress, so nothing is held
    rcases h with ⟨-, -, hzero⟩ | ⟨-, hkept, -⟩ | ⟨-, -, hzero⟩
    · cases hzero
    · exact .inl ⟨rfl, hkept, hcalls⟩
    · cases hzero

/-- After the end of a call, no lazy parser is said to be being built. -/
theorem Step.stage_of_isEnd {entry : Entry} (step : Step cell before (some entry) after)
    (hend : entry.isEnd cell = true) : after.stage = .ready ∨ after.stage = .unbuilt := by
  cases step with
  | called | reused => cases hend
  | made => exact .inl rfl
  | failed => exact .inr rfl
  | other hother =>
    cases entry with
    | called | reused => cases hend
    | made | failed => exact absurd (of_decide_eq_true hend) hother

/-- Before there is a lazy parser, there is nothing to tell. -/
theorem calm_absent : Posture.absent.Calm := .inl ⟨rfl, rfl, rfl⟩

theorem sound_absent : Posture.absent.Sound :=
  ⟨fun hready => (by cases hready), fun hbuilding => (by cases hbuilding)⟩

/-- A posture that tells all of the truth is that of a lazy parser whose stage does. -/
theorem Calm.tellsTruth {store : Store} {calls : Nat} (h : (store.posture cell calls).Calm) :
    store.TellsTruth cell calls := by
  unfold Calm Store.posture at h
  unfold Store.TellsTruth
  rcases h with ⟨hstage, hkept, hcalls⟩ | ⟨hstage, hkept, hcalls⟩ | ⟨hstage, hkept, hcalls⟩
  · simp only at hstage hkept hcalls
    simp [hstage, hkept, hcalls]
  · simp only at hstage hkept hcalls
    simp [hstage, hkept, hcalls, Nat.ne_of_gt hcalls]
  · simp only at hstage hkept hcalls
    simp [hstage, hkept, hcalls, Option.isSome_iff_ne_none.mp hkept]

end Posture

/-! ## Films that show the truth -/

namespace Plays

variable {cell : CellId} {before after : Posture} {scenes : List Scene}

/-- A lazy parser goes on to be ready or being built only with reason. -/
theorem sound (h : Plays cell before scenes after) (hbefore : before.Sound) : after.Sound := by
  induction h with
  | nil => exact hbefore
  | cons step _ ih => exact ih (hbefore.step step)

/-- As long as no call ends while another one is in progress, all of the truth goes on to be
told. -/
theorem calm (h : Plays cell before scenes after) (hbefore : before.Calm)
    (hcalls : before.calls = 0)
    (hend : ∀ first scene rest, scenes = first ++ scene :: rest → scene.EndsCall cell →
      callsIn cell (Scene.journal (first ++ [scene])) = 0) : after.Calm := by
  induction scenes using List.reverseRecOn generalizing after with
  | nil =>
    cases h
    exact hbefore
  | append_singleton scenes scene ih =>
    -- the last scene ends a call only if that leaves none in progress
    have hlast := h.calls_eq hcalls
    obtain ⟨middle, hscenes, step, -⟩ := h.exists_of_append_singleton
    have hmiddle : middle.Calm := by
      refine ih hscenes fun first scene' rest hsplit => hend first scene' (rest ++ [scene]) ?_
      rw [hsplit, List.append_assoc, List.cons_append]
    refine hmiddle.step step fun entry hentry hisEnd => ?_
    rw [hlast]
    exact hend scenes scene [] rfl ⟨entry, hentry, hisEnd⟩

end Plays

/-- A lazy parser that holds nothing is made when it is run next. -/
theorem Store.callsNext_of_stored {store : Store} {cell : CellId}
    (hthere : (store.cell? cell).isSome) (hnone : store.stored cell = none) :
    store.CallsNext cell := by
  intro depth source place
  obtain ⟨⟨name, state, make, kept⟩, hcell⟩ := Option.isSome_iff_exists.mp hthere
  rw [Store.stored_of_cell? hcell] at hnone
  obtain rfl : kept = none := hnone
  -- the lazy parser is made before anything else is done
  obtain ⟨rest, hrest⟩ := Film.exists_append_of_bind ((Film.upTo (depth + 1)).build cell)
    (fun p => (Film.upTo (depth + 1)).run p source place) store
  rw [Film.upTo_succ_build, Film.assemble_of_unmade hcell] at hrest
  rw [Film.upTo_succ_run, Film.asRun]
  simp only [Engine.step, hrest, Film.upTo_succ_build]
  rfl

/-- The stage of a lazy parser tells in any case that it is ready or being built only with reason;
and where it tells all of the truth, an unbuilt lazy parser is made when it is run next. It tells
all of the truth for as long as no call of the function of the lazy parser ends while another one is
in progress, and no longer. -/
theorem tellsTruth_ofSession_iff (cell : CellId) (depth : Nat) (logging : Bool)
    (deeds : List Deed) :
    let film := Film.ofSession depth logging deeds
    (∀ first scene rest, film = first ++ scene :: rest →
      let calls := callsIn cell (Scene.journal (first ++ [scene]))
      (scene.store.stage cell = .ready → (scene.store.stored cell).isSome) ∧
        (scene.store.stage cell = .building → 0 < calls) ∧
        (scene.store.TellsTruth cell calls → scene.store.stage cell = .unbuilt →
          (scene.store.cell? cell).isSome → scene.store.CallsNext cell)) ∧
      ∀ past future, film = past ++ future →
        ((∀ first scene rest, past = first ++ scene :: rest →
            scene.store.TellsTruth cell (callsIn cell (Scene.journal (first ++ [scene])))) ↔
          ∀ first scene rest, past = first ++ scene :: rest → scene.EndsCall cell →
            callsIn cell (Scene.journal (first ++ [scene])) = 0) := by
  intro film
  obtain ⟨final, hfilm⟩ := plays_ofSession cell depth logging deeds
  -- up to any scene, the film shows what the store of that scene holds
  have hat : ∀ first scene rest, film = first ++ scene :: rest → Plays cell .absent
      (first ++ [scene])
      (scene.store.posture cell (callsIn cell (Scene.journal (first ++ [scene])))) := by
    intro first scene rest hsplit
    change Plays cell .absent film final at hfilm
    rw [hsplit, ← List.singleton_append, ← List.append_assoc] at hfilm
    obtain ⟨middle, hfirst, -⟩ := hfilm.exists_of_append
    obtain ⟨-, -, -, hmiddle⟩ := hfirst.exists_of_append_singleton
    rw [hfirst.calls_eq rfl] at hmiddle
    rw [← hmiddle]
    exact hfirst
  refine ⟨fun first scene rest hsplit => ?_, fun past future hpast => ⟨fun h => ?_, fun h => ?_⟩⟩
  · have hsound := (hat first scene rest hsplit).sound Posture.sound_absent
    refine ⟨hsound.ready, hsound.building, fun htruth hstage hthere => ?_⟩
    exact Store.callsNext_of_stored hthere (htruth.2.2.mp hstage).1
  · rintro first scene rest hsplit ⟨entry, hentry, hisEnd⟩
    have hplays := hat first scene (rest ++ future) (by rw [hpast, hsplit]; simp)
    obtain ⟨middle, -, step, -⟩ := hplays.exists_of_append_singleton
    rw [hentry] at step
    -- the stage is no longer `building`, which is the truth only if no call is in progress
    obtain ⟨hready, -, hunbuilt⟩ := h first scene rest hsplit
    rcases step.stage_of_isEnd hisEnd with hstage | hstage
    · exact (hready.mp hstage).2
    · exact (hunbuilt.mp hstage).2
  · intro first scene rest hsplit
    have hplays := hat first scene (rest ++ future) (by rw [hpast, hsplit]; simp)
    refine (hplays.calm Posture.calm_absent rfl fun first' scene' rest' hsplit' => ?_).tellsTruth
    refine h first' scene' (rest' ++ rest) ?_
    rw [hsplit, ← List.singleton_append, ← List.append_assoc, hsplit']
    simp

/-! ## A rule that fails after it has been made -/

/-- A rule that runs itself on a source the first time that it is asked for its parser, and then
ends with an error instead of a parser. -/
def selfFailing : Grammar :=
  .nth 0 [.runNow "r" "b" (.raise .value "no"), .text (.const (.str "b"))]

/-- A session in which a language of that rule is made and the rule is run. -/
def selfFailingDeeds : List Deed :=
  [.operate (.perform (.create Store.baseName []
      [("r", fun owner => .mk (selfFailing.build ⟨owner, []⟩))] fun _ => .done (.value .nothing))),
    .operate (.run (.lazy ⟨0, 0⟩) ['b'] .start)]

/-- The last scene of that session: the parser of the inner call is there, no call is in progress,
and still the rule is said to be unbuilt. -/
theorem getLast_selfFailing :
    let film := Film.ofSession 6 false selfFailingDeeds
    callsIn ⟨0, 0⟩ (Scene.journal film) = 0 ∧
      ∃ scene, film.getLast? = some scene ∧ scene.store.stage ⟨0, 0⟩ = .unbuilt ∧
        scene.store.stored ⟨0, 0⟩ = some (.text "b") :=
  ⟨rfl, _, rfl, rfl, rfl⟩

/-- The stage of a lazy parser does not always tell the truth. -/
theorem not_forall_tellsTruth_ofSession :
    ¬ ∀ (cell : CellId) (depth : Nat) (logging : Bool) (deeds : List Deed)
        (first : List Scene) (scene : Scene) (rest : List Scene),
      Film.ofSession depth logging deeds = first ++ scene :: rest →
        scene.store.TellsTruth cell (callsIn cell (Scene.journal (first ++ [scene]))) := by
  intro h
  obtain ⟨hcalls, scene, hlast, hstage, hstored⟩ := getLast_selfFailing
  obtain ⟨first, hsplit⟩ := List.getLast?_eq_some_iff.mp hlast
  obtain ⟨hready, -, -⟩ := h ⟨0, 0⟩ 6 false selfFailingDeeds first scene [] hsplit
  -- with a parser there and no call in progress, the rule would have to be ready
  rw [hsplit] at hcalls
  have hstage' := hready.mpr ⟨Option.isSome_of_eq_some hstored, hcalls⟩
  rw [hstage] at hstage'
  cases hstage'

end Descent
