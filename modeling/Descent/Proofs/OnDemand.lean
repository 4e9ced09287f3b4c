import Descent.Proofs.Film.Asked
import Descent.Proofs.Film.Logged
import Descent.Proofs.Tried

/-! # Lazy parsers are built on demand

The function of a lazy parser that neither runs parsers nor has them made is called when the lazy
parser is asked for its parser, unless it is ready. Looking at it is not asking for its parser, and
neither is standing somewhere in a larger parser where a run does not get.

* **`BuiltOnDemand`** — what is to be seen of such a lazy parser, scene by scene.
* **`Film.built_on_demand`** — main statement: this is to be seen in every session; and neither
  looking at languages nor running parsers in which it is not tried asks for it. -/

namespace Descent

/-- In a film that begins in a given store, a lazy parser is built on demand. -/
structure BuiltOnDemand (cell : CellId) (start : Store) (film : List Scene) : Prop where
  /-- When it is asked for its parser, its function is called, unless it is ready: then the parser
  that it holds is used again. -/
  asked : ∀ scene ∈ film, ∀ found, scene.store.cell? cell = some found →
    (found.state ≠ .ready → scene.store.Responds cell (.called cell)) ∧
    (found.state = .ready → ∃ parser, found.parser = some parser ∧
      scene.store.Responds cell (.reused cell parser))
  /-- Its function is called at no other time: a call is the beginning of building it, when it is
  unbuilt. -/
  called : ∀ first before scene rest, film = first ++ before :: scene :: rest →
    scene.recorded? = some (.called cell) → before.store.stage cell = .unbuilt ∧
      ∃ depth, (((Film.upTo depth).build cell).on before.store).2 <+: scene :: rest
  /-- Its stages follow from one another. -/
  step : ∀ first before scene rest, film = first ++ before :: scene :: rest →
    RuleState.Step cell (before.store.stage cell) scene.recorded? (scene.store.stage cell)
  /-- It is ready once a call has ended with a parser, and only then. -/
  ready : ∀ first scene rest, film = first ++ scene :: rest →
    (scene.store.stage cell = .ready ↔
      ∃ parser, Entry.made cell parser ∈ Scene.journal (first ++ [scene]))
  /-- That happens once at most. -/
  once : (Scene.journal film).countP (·.isMade cell) ≤ 1
  /-- In the log there is one entry for each call of its function, and behind these there is one
  more if it is ready. -/
  logged : ∀ first scene rest found, film = first ++ scene :: rest →
    scene.store.logging = true → scene.store.cell? cell = some found →
      Scene.written cell start (first ++ [scene])
        = List.replicate ((Scene.journal (first ++ [scene])).countP (·.isCall cell))
            (.building found.name .unbuilt)
          ++ if found.state = .ready then [.ready found.name] else []
  /-- Where nothing happens to lazy parsers, the log is about sources. -/
  reported : ∀ first before scene rest, film = first ++ before :: scene :: rest →
    scene.recorded? = none →
      ∀ record ∈ before.store.newRecords scene.store, record.isReport = true

namespace BuiltOnDemand

variable {cell : CellId} {start last : Store} {first rest film : List Scene} {scene : Scene}
  {stage : RuleState}

/-- A lazy parser whose stages follow from one another holds a parser when it is ready, and only
then. That decides what happens when it is asked for its parser. -/
theorem responds (hreel : Reel (·.isReport = true) start film last)
    (hlives : Lives cell (start.stage cell) film stage) (hholds : start.HoldsIfReady cell)
    (hscene : scene ∈ film) {found : Cell} (hfound : scene.store.cell? cell = some found) :
    (found.state ≠ .ready → scene.store.Responds cell (.called cell)) ∧
    (found.state = .ready → ∃ parser, found.parser = some parser ∧
      scene.store.Responds cell (.reused cell parser)) := by
  have hready := hreel.holdsIfReady hlives hholds scene hscene
  unfold Store.HoldsIfReady at hready
  rw [Store.stored_of_cell? hfound, Store.stage_of_cell? hfound] at hready
  refine ⟨fun hstate => Store.responds_called hfound ?_, fun hstate => ?_⟩
  · exact Option.not_isSome_iff_eq_none.mp fun hsome => hstate (hready.mp hsome)
  · obtain ⟨parser, hparser⟩ := Option.isSome_iff_exists.mp (hready.mpr hstate)
    exact ⟨parser, hparser, Store.responds_reused hfound hparser⟩

/-- Of a lazy parser in some scenes whose stages follow from one another, the log says what there is
to say. -/
theorem written_eq (hreel : Reel (·.isReport = true) start (first ++ scene :: rest) last)
    (hlives : Lives cell .unbuilt (first ++ scene :: rest) stage)
    (hstart : start.stage cell = .unbuilt) (hlogging : scene.store.logging = true) {found : Cell}
    (hfound : scene.store.cell? cell = some found) :
    Scene.written cell start (first ++ [scene])
      = List.replicate ((Scene.journal (first ++ [scene])).countP (·.isCall cell))
          (.building found.name .unbuilt)
        ++ if found.state = .ready then [.ready found.name] else [] := by
  obtain ⟨hreel, -⟩ := hreel.of_append_cons
  obtain ⟨hlives, -⟩ := hlives.of_append_cons
  have hmade := hlives.made_add
  rw [RuleState.made_unbuilt, Nat.zero_add] at hmade
  have hkept : start.logging = true := by
    obtain ⟨records, hwrites, -⟩ := hreel.exists_writes
    exact hwrites.logging.symm.trans hlogging
  rw [hreel.written_eq (hstart.symm ▸ hlives) hkept fun other hother => by
    rw [hfound] at hother
    cases hother
    rfl]
  rw [hlives.flatMap_words, hmade, Store.stage_of_cell? hfound]
  cases found.state with
  | unbuilt | building | ready => rfl

/-- In scenes in which the stages of a lazy parser follow from one another and its calls are
announced, it is built on demand. -/
theorem of_lives (hreel : Reel (·.isReport = true) start film last)
    (hlives : Lives cell .unbuilt film stage) (hannounced : Scene.Announced cell start film)
    (hstart : start.stage cell = .unbuilt) (hnone : start.stored cell = none) :
    BuiltOnDemand cell start film := by
  -- each scene is one step of the lazy parser on from the scene before
  have hstep : ∀ first before scene rest, film = first ++ before :: scene :: rest →
      RuleState.Step cell (before.store.stage cell) scene.recorded? (scene.store.stage cell) := by
    rintro first before scene rest rfl
    cases hlives.of_append_cons.2 with
    | cons step => exact step
  have hholds : start.HoldsIfReady cell := by
    unfold Store.HoldsIfReady
    rw [hnone, hstart]
    exact iff_of_false nofun nofun
  constructor
  case asked =>
    exact fun scene hscene found hfound =>
      responds hreel (hstart.symm ▸ hlives) hholds hscene hfound
  case called =>
    intro first before scene rest hsplit hcalled
    have hunbuilt := hstep first before scene rest hsplit
    rw [hcalled] at hunbuilt
    obtain ⟨depth, hprefix⟩ :=
      hannounced (first ++ [before]) scene rest (by simpa using hsplit) hcalled
    rw [Scene.leaves_append] at hprefix
    exact ⟨hunbuilt.eq_unbuilt (decide_eq_true rfl), depth, hprefix⟩
  case step => exact hstep
  case ready =>
    rintro first scene rest rfl
    exact hlives.of_append_cons.1.eq_ready_iff
  case once => exact hlives.countP_isMade_le
  case logged =>
    rintro first scene rest found rfl hlogging hfound
    exact written_eq hreel hlives hstart hlogging hfound
  case reported =>
    rintro first before scene rest rfl hquiet
    cases hreel.of_append_cons.2 with
    | cons turn =>
      refine turn.isReport_of_quiet fun entry hentry => ?_
      rw [Scene.recorded?, hentry] at hquiet
      cases hquiet

end BuiltOnDemand

/-- In every session a lazy parser whose function neither runs parsers nor has them made is built on
demand. No step of a session in which parsers are only looked at, made or put together needs an
engine, so it leaves every lazy parser as it is. In a run in which it is not tried, an unbuilt lazy
parser stays so; and it is not tried behind an alternative that matches or behind a parser that
fails. -/
theorem Film.built_on_demand {cell : CellId} {depth : Nat} {logging : Bool} {deeds : List Deed}
    (hpassive : ∀ scene ∈ ofSession depth logging deeds, scene.store.Passive cell) :
    BuiltOnDemand cell (Store.initial logging) (ofSession depth logging deeds) ∧
    (∀ (session : Session) (step : Session.Step), step.Looks session → ∀ store : Store,
      ∃ ended after, store.Spares after ∧
        ∀ engine, (step.perform engine session).on store = some (ended, after)) ∧
    (∀ (source : Source) (trial : Trial) (ended : Except Raised Result) (after : Store),
      trial.Shuns source cell →
        trial.parser.Ends source trial.place trial.store ended after →
          trial.store.stage cell = .unbuilt → after.stage cell = .unbuilt) ∧
    ∀ (part whole : Parser) (result : Result), part.Suffices result whole →
      ∀ source place store after, part.Ends source place store (.ok result) after →
        whole.Ends source place store (.ok result) after ∧
          (∀ other, Trial.Tries source ⟨whole, place, store⟩ other →
            other = ⟨whole, place, store⟩ ∨ Trial.Tries source ⟨part, place, store⟩ other) ∧
          (Trial.Shuns source cell ⟨part, place, store⟩ →
            Trial.Shuns source cell ⟨whole, place, store⟩) := by
  obtain ⟨last, hreel⟩ := reel_ofSession depth logging deeds
  obtain ⟨stage, hlives⟩ := lives_ofSession hpassive
  have hnone : (Store.initial logging).cell? cell = none := Store.cell?_of_size_le _ (Nat.zero_le _)
  have hbuilt : BuiltOnDemand cell (Store.initial logging) (ofSession depth logging deeds) := by
    refine .of_lives hreel hlives (announced_ofSession cell depth logging deeds) ?_ ?_
    · rw [Store.stage, Store.cellAt, hnone]
      rfl
    · rw [Store.stored, hnone]
      rfl
  refine ⟨hbuilt, fun session step hlooks => hlooks.idle, ?_, ?_⟩
  · intro source trial ended after hshuns hends hunbuilt
    exact (hshuns.leavesAlone hends).stage.trans hunbuilt
  · intro part whole result hsuffices source place store after hpart
    exact ⟨hsuffices.ends hpart, fun other hother => hsuffices.tries hpart hother,
      hsuffices.shuns hpart⟩

/-! ## A rule that takes two calls -/

/-- The rules of a language: a letter, the function of which fails when it is called for the first
time; a digit; and a choice between the two. -/
def fickleRules : Table (Owner → Maker) :=
  [("letter", fun _ => .mk <| .count 0 fun
      | 0 => .raise (.own .value "not yet")
      | _ + 1 => .done (.parser (.text "a"))),
    ("digit", fun _ => .mk <| .done (.parser (.text "0"))),
    ("either", fun owner => .mk <| .rule owner.language "letter" fun letter =>
      .rule owner.language "digit" fun digit =>
        .done (.parser (.or (.lazy letter) (.lazy digit))))]

/-- A session in which the choice is run on a letter three times. -/
def fickleDeeds : List Deed :=
  [.operate (.perform (.create Store.baseName [] fickleRules fun _ => .done (.value .nothing))),
    .operate (.run (.lazy ⟨0, 2⟩) ['a'] .start), .operate (.run (.lazy ⟨0, 2⟩) ['a'] .start),
    .operate (.run (.lazy ⟨0, 2⟩) ['a'] .start)]

/-- The function of the letter is called twice and that of the digit never. -/
theorem Film.built_on_demand_fickle :
    let film := ofSession 5 true fickleDeeds
    (∀ scene ∈ film, scene.store.Passive ⟨0, 0⟩) ∧
      BuiltOnDemand ⟨0, 0⟩ (Store.initial true) film ∧
      Scene.written ⟨0, 0⟩ (Store.initial true) film
        = [.building "letter" .unbuilt, .building "letter" .unbuilt, .ready "letter"] ∧
      ∃ scene, film.getLast? = some scene ∧ scene.store.stage ⟨0, 0⟩ = .ready ∧
        scene.store.stage ⟨0, 1⟩ = .unbuilt := by
  intro film
  have hpassive : ∀ scene ∈ film, scene.store.Passive ⟨0, 0⟩ := by
    obtain ⟨last, hreel⟩ := reel_ofSession 5 true fickleDeeds
    -- a lazy parser keeps its function, so that of the last store is enough
    refine hreel.passive fun found hfound => ?_
    obtain ⟨first, hfilm⟩ := List.getLast?_eq_some_iff.mp (rfl : film.getLast? = some _)
    change ofSession 5 true fickleDeeds = _ at hfilm
    rw [hfilm] at hreel
    cases hreel.of_append_cons.2
    cases hfound
    intro before
    cases before with
    | zero | succ => trivial
  exact ⟨hpassive, (Film.built_on_demand hpassive).1, rfl, _, rfl, rfl, rfl⟩

end Descent
