import Descent.Proofs.Endings
import Descent.Proofs.Film.Depth
import Descent.Proofs.Film.Erases

/-! # Which parsers a run runs

A run of a parser that is made of others consists of runs of these. How many there are, in which
order, and from where, shows in the film of the whole: it is made up of the films of the parts.

* **`Run`** — a run that has ended, with its film.
* **`Run.InTurn`** — runs one after another, each on the store that the one before left.
* **`Run.Consists`** — a run that consists of others: nothing happened in it but these.
* **`Run.Happens.or_failed`**, **`Run.Happens.many0_moved`** … — the films of choices and
  repetitions. -/

namespace Descent

/-- A run of a parser that has ended, on a source that is known. -/
structure Run where
  /-- The parser. -/
  parser : Parser
  /-- Where the parser was started. -/
  start : Position
  /-- The store before. -/
  before : Store
  /-- The film of the run. -/
  scenes : List Scene
  /-- What the run ended with. -/
  ended : Except Raised Result
  /-- The store afterwards. -/
  after : Store

namespace Run

variable {source : Source}

/-- On the source, the run takes place like this. -/
def Happens (source : Source) (run : Run) : Prop :=
  ∃ depth, ((Film.upTo depth).run run.parser source run.start).on run.before
    = (some (run.ended, run.after), run.scenes)

/-- Runs take place one after another, each on the store that the one before left. -/
inductive InTurn (source : Source) : Store → List Run → Store → Prop where
  /-- No runs leave the store as it is. -/
  | nil (store : Store) : InTurn source store [] store
  /-- The first run, then the others. -/
  | cons {run : Run} {runs : List Run} {after : Store} (hrun : run.Happens source)
      (hruns : InTurn source run.after runs after) : InTurn source run.before (run :: runs) after

/-- The films of some runs one after another, with scenes of some sort of their own in between. -/
inductive Shown (own : Scene → Prop) : List Run → List Scene → Prop where
  /-- There is nothing to show. -/
  | nil : Shown own [] []
  /-- The film of the first run, then the others. -/
  | part {run : Run} {runs : List Run} {scenes : List Scene} (h : Shown own runs scenes) :
      Shown own (run :: runs) (run.scenes ++ scenes)
  /-- A scene that belongs to none of the runs. -/
  | own {runs : List Run} {scene : Scene} {scenes : List Scene} (hown : own scene)
      (h : Shown own runs scenes) : Shown own runs (scene :: scenes)

/-- A run consists of other runs, one after another: its film is made up of theirs, and of scenes
of some sort of its own. -/
structure Consists (source : Source) (own : Scene → Prop) (whole : Run) (parts : List Run) :
    Prop where
  /-- The run takes place. -/
  happens : whole.Happens source
  /-- The parts take place between its start and its end. -/
  inTurn : InTurn source whole.before parts whole.after
  /-- Its film shows nothing else. -/
  shown : Shown own parts whole.scenes

variable {p q : Parser} {place : Position} {store middle after : Store} {scenes early late :
  List Scene} {ended : Except Raised Result}

/-! ## Runs and what they end with -/

/-- What takes place in a film takes place. -/
theorem Happens.ends {run : Run} (h : run.Happens source) :
    run.parser.Ends source run.start run.before run.ended run.after := by
  obtain ⟨depth, hon⟩ := h
  refine Parser.ends_iff_exists.mpr ⟨depth, ?_⟩
  rw [← Film.fst_run_on, hon]

/-- A film can be made of what takes place. -/
theorem exists_happens (h : p.Ends source place store ended after) :
    ∃ scenes, Happens source ⟨p, place, store, scenes, ended, after⟩ := by
  obtain ⟨depth, hon⟩ := Parser.ends_iff_exists.mp h
  rw [← Film.fst_run_on] at hon
  exact ⟨(((Film.upTo depth).run p source place).on store).2, depth, Prod.ext hon rfl⟩

/-- What takes place in a film does so at all greater depths. -/
theorem Happens.deeper {run : Run} (h : run.Happens source) : ∃ depth, ∀ deeper, depth ≤ deeper →
    ((Film.upTo deeper).run run.parser source run.start).on run.before
      = (some (run.ended, run.after), run.scenes) := by
  obtain ⟨depth, hon⟩ := h
  exact ⟨depth, fun deeper hle => (Film.below_upTo hle).run _ _ _ _ _ _ hon⟩

/-- A run from a store takes place in one way only. -/
theorem Happens.unique {run run' : Run} (h : run.Happens source) (h' : run'.Happens source)
    (hparser : run.parser = run'.parser) (hstart : run.start = run'.start)
    (hbefore : run.before = run'.before) : run = run' := by
  obtain ⟨depth, hdepth⟩ := h.deeper
  obtain ⟨depth', hdepth'⟩ := h'.deeper
  have left := hdepth (max depth depth') (Nat.le_max_left _ _)
  have right := hdepth' (max depth depth') (Nat.le_max_right _ _)
  obtain ⟨_, _, _, scenes, ended, after⟩ := run
  obtain ⟨_, _, _, scenes', ended', after'⟩ := run'
  cases hparser
  cases hstart
  cases hbefore
  cases left.symm.trans right
  rfl

/-! ## Runs in turn -/

/-- No runs have changed nothing. -/
theorem InTurn.eq_of_nil (h : InTurn source store [] after) : after = store := by
  cases h
  rfl

/-- The first of some runs in turn, and the others. -/
theorem InTurn.of_cons {run : Run} {runs : List Run} (h : InTurn source store (run :: runs) after) :
    run.before = store ∧ run.Happens source ∧ InTurn source run.after runs after := by
  cases h with
  | cons hrun hruns => exact ⟨rfl, hrun, hruns⟩

/-- Runs in turn, then further ones. -/
theorem InTurn.append {runs others : List Run} (h : InTurn source store runs middle)
    (h' : InTurn source middle others after) : InTurn source store (runs ++ others) after := by
  induction h with
  | nil => exact h'
  | cons hrun _ ih => exact .cons hrun (ih h')

/-- The first few of some runs in turn, and the rest of them. -/
theorem InTurn.of_append {runs others : List Run} (h : InTurn source store (runs ++ others) after) :
    ∃ middle, InTurn source store runs middle ∧ InTurn source middle others after := by
  induction runs generalizing store with
  | nil => exact ⟨store, .nil store, h⟩
  | cons run runs ih =>
    obtain ⟨rfl, hrun, hruns⟩ := h.of_cons
    obtain ⟨middle, hfirst, hrest⟩ := ih hruns
    exact ⟨middle, .cons hrun hfirst, hrest⟩

/-- One run alone. -/
theorem InTurn.single {run : Run} (h : run.Happens source) :
    InTurn source run.before [run] run.after := .cons h (.nil _)

/-- One run alone shows what is in its film. -/
theorem Shown.single {own : Scene → Prop} (run : Run) : Shown own [run] run.scenes := by
  have h : Shown own [run] (run.scenes ++ []) := .part .nil
  rwa [List.append_nil] at h

/-- What is shown of some runs, then of others. -/
theorem Shown.append {own : Scene → Prop} {runs others : List Run} (h : Shown own runs early)
    (h' : Shown own others late) : Shown own (runs ++ others) (early ++ late) := by
  induction h with
  | nil => exact h'
  | part _ ih =>
    rw [List.append_assoc]
    exact .part ih
  | own hown _ ih => exact .own hown ih

/-- Scenes of its own may follow. -/
theorem Shown.end {own : Scene → Prop} {runs : List Run} (h : Shown own runs scenes)
    (hlate : ∀ scene ∈ late, own scene) : Shown own runs (scenes ++ late) := by
  have hrest : Shown own [] late := by
    clear h
    induction late with
    | nil => exact .nil
    | cons scene late ih =>
      exact .own (hlate scene List.mem_cons_self)
        (ih fun s hs => hlate s (List.mem_cons_of_mem _ hs))
  have happended := h.append hrest
  rwa [List.append_nil] at happended

/-! ## Films of choices and repetitions -/

/-- The run of a parser is what its step does, with a scene for its own end. -/
theorem happens_of_step (depth : Nat)
    (h : ((Film.upTo depth).step p source place).on store = (some (ended, after), scenes)) :
    Happens source ⟨p, place, store,
      scenes ++ Film.arrival p source place (some (ended, after)), ended, after⟩ := by
  refine ⟨depth + 1, ?_⟩
  show (Film.asRun p source place _).on store = _
  rw [Film.asRun_on, h]

/-- If the first alternative does not fail, there is no more to a choice. -/
theorem Happens.or_unfailed (h : Happens source ⟨p, place, store, scenes, ended, after⟩)
    (hended : Unfailed ended) (q : Parser) :
    Happens source ⟨.or p q, place, store,
      scenes ++ Film.arrival (.or p q) source place (some (ended, after)), ended, after⟩ := by
  obtain ⟨depth, hon⟩ := h
  refine happens_of_step depth ?_
  rw [Engine.step_or]
  rcases ended with cause | ⟨stop, value⟩ | failure
  · exact Film.bind_error hon
  · rw [Film.bind_ok hon]
    simp only [Engine.goElse, Film.pure_on, List.append_nil]
  · exact absurd rfl (hended failure)

/-- If the first alternative fails, the second is run on the store that it left. -/
theorem Happens.or_failed {failure : Failure}
    (h : Happens source ⟨p, place, store, early, .ok (.failed failure), middle⟩)
    (h' : Happens source ⟨q, place, middle, late, ended, after⟩) :
    Happens source ⟨.or p q, place, store, early ++ late ++
        Film.arrival (.or p q) source place (some (ended.map failure.orResult, after)),
      ended.map failure.orResult, after⟩ := by
  obtain ⟨depth, hdepth⟩ := h.deeper
  obtain ⟨depth', hdepth'⟩ := h'.deeper
  have hfirst := hdepth (max depth depth') (Nat.le_max_left _ _)
  have hsecond := hdepth' (max depth depth') (Nat.le_max_right _ _)
  refine happens_of_step (max depth depth') ?_
  rw [Engine.step_or, Film.bind_ok hfirst]
  simp only [Engine.goElse, Film.map_on, hsecond, Option.map_some]

/-- If the parser fails or matches without moving, there is no more to its repetition. -/
theorem Happens.many0_rests {result : Result}
    (h : Happens source ⟨p, place, store, scenes, .ok result, after⟩)
    (hrests : result.Rests place) :
    Happens source ⟨.many0 p, place, store,
      scenes ++ [⟨.ran (.many0 p) source place (.matched place (.list [])), after⟩],
      .ok (.matched place (.list [])), after⟩ := by
  obtain ⟨depth, hon⟩ := h
  refine happens_of_step depth ?_
  rw [Engine.step_many0, Film.bind_ok hon, Engine.goAgain_of_rests hrests, Film.pure_on,
    List.append_nil]

/-- If the parser matches and moves, it is repeated from where it has stopped. -/
theorem Happens.many0_moved {stop : Position} {value : Value} {result : Result}
    (h : Happens source ⟨p, place, store, early, .ok (.matched stop value), middle⟩)
    (hmoved : stop.index ≠ place.index)
    (h' : Happens source ⟨.many0 p, stop, middle, late, .ok result, after⟩) :
    Happens source ⟨.many0 p, place, store, early ++ late ++
        [⟨.ran (.many0 p) source place (result.mapValue (Value.consTo value)), after⟩],
      .ok (result.mapValue (Value.consTo value)), after⟩ := by
  obtain ⟨depth, hdepth⟩ := h.deeper
  obtain ⟨depth', hdepth'⟩ := h'.deeper
  have hfirst := hdepth (max depth depth') (Nat.le_max_left _ _)
  have hsecond := hdepth' (max depth depth') (Nat.le_max_right _ _)
  refine happens_of_step (max depth depth') ?_
  rw [Engine.step_many0, Film.bind_ok hfirst]
  simp only [Engine.goAgain, if_neg hmoved, Film.map_on, hsecond, Option.map_some]
  rfl

end Run

end Descent
