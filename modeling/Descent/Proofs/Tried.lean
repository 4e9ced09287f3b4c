import Descent.Proofs.Endings
import Descent.Proofs.Film.Orderly
import Descent.Proofs.Looking

/-! # What is tried in a run

A run of a parser consists of runs of other parsers, each from a place and in the store that the
runs before it have left. What stands in a parser but is not run is not tried.

* **`Trial.Tries`** — the runs of which a run consists.
* **`Trial.Shuns`** — a lazy parser is not tried in a run, and the functions that are called in it
  leave it alone.
* **`Trial.Shuns.leavesAlone`** — main statement: then the whole run leaves it alone.
* **`Parser.Suffices`** — a part of a parser that decides what the whole comes to: an alternative
  that matches, or a parser that fails before anything else is run.
* **`Parser.Suffices.ends`**, **`Parser.Suffices.tries`** — the whole ends as the part does, and
  nothing is tried but that part.
* **`Parser.Suffices.shuns`** — so what is shunned in the part is shunned in the whole. -/

namespace Descent

/-! ## Trials -/

/-- A parser that is run from a place in a store. -/
structure Trial where
  /-- The parser. -/
  parser : Parser
  /-- Where it is run. -/
  place : Position
  /-- The store before. -/
  store : Store

/-- Parsers match one after another, from a place in a store up to another place. -/
inductive Parser.Passes (source : Source) :
    List Parser → Position → Store → Position → Store → Prop where
  /-- There are none. -/
  | nil (place : Position) (store : Store) : Parser.Passes source [] place store place store
  /-- The first matches, and so do the others from where it has stopped. -/
  | cons {first : Parser} {rest : List Parser} {place middle stop : Position}
      {store between after : Store} {value : Value}
      (hfirst : first.Ends source place store (.ok (.matched middle value)) between)
      (hrest : Parser.Passes source rest middle between stop after) :
      Parser.Passes source (first :: rest) place store stop after

/-- In the course of one run there is another one, or it is that one. What is run by functions is
not counted. -/
inductive Trial.Tries (source : Source) : Trial → Trial → Prop where
  /-- The run itself. -/
  | self (trial : Trial) : Trial.Tries source trial trial
  /-- A part of a sequence, where the parts before it have stopped. -/
  | seq {front behind : List Parser} {part : Parser} {place stop : Position} {store middle : Store}
      {other : Trial} (hfront : Parser.Passes source front place store stop middle)
      (h : Trial.Tries source ⟨part, stop, middle⟩ other) :
      Trial.Tries source ⟨.seq (front ++ part :: behind), place, store⟩ other
  /-- The first of two alternatives. -/
  | first {first second : Parser} {place : Position} {store : Store} {other : Trial}
      (h : Trial.Tries source ⟨first, place, store⟩ other) :
      Trial.Tries source ⟨.or first second, place, store⟩ other
  /-- The second of them, if the first has failed. -/
  | second {first second : Parser} {place : Position} {store middle : Store} {failure : Failure}
      {other : Trial} (hfirst : first.Ends source place store (.ok (.failed failure)) middle)
      (h : Trial.Tries source ⟨second, place, middle⟩ other) :
      Trial.Tries source ⟨.or first second, place, store⟩ other
  /-- The parser to whose value a function is applied. -/
  | map {of : Parser} {fn : Value → Action Value} {place : Position} {store : Store} {other : Trial}
      (h : Trial.Tries source ⟨of, place, store⟩ other) :
      Trial.Tries source ⟨.map of fn, place, store⟩ other
  /-- The parser for whose value a function makes another one. -/
  | chain {of : Parser} {fn : Value → Action (Object Parser)} {place : Position} {store : Store}
      {other : Trial} (h : Trial.Tries source ⟨of, place, store⟩ other) :
      Trial.Tries source ⟨.chain of fn, place, store⟩ other
  /-- The parser that the function makes. -/
  | chained {of made : Parser} {fn : Value → Action (Object Parser)} {place stop : Position}
      {value : Value} {store middle after : Store} {other : Trial}
      (hof : of.Ends source place store (.ok (.matched stop value)) middle)
      (hfn : (fn value).Ends middle (.ok (.parser made)) after)
      (h : Trial.Tries source ⟨made, stop, after⟩ other) :
      Trial.Tries source ⟨.chain of fn, place, store⟩ other
  /-- The parser that is repeated. -/
  | many0 {of : Parser} {place : Position} {store : Store} {other : Trial}
      (h : Trial.Tries source ⟨of, place, store⟩ other) :
      Trial.Tries source ⟨.many0 of, place, store⟩ other
  /-- The next repetitions, if it has moved. -/
  | again {of : Parser} {place stop : Position} {value : Value} {store middle : Store}
      {other : Trial} (hof : of.Ends source place store (.ok (.matched stop value)) middle)
      (hmoved : stop.index ≠ place.index)
      (h : Trial.Tries source ⟨.many0 of, stop, middle⟩ other) :
      Trial.Tries source ⟨.many0 of, place, store⟩ other
  /-- The parser that is given other labels. -/
  | desc {of : Parser} {labels : Labels} {place : Position} {store : Store} {other : Trial}
      (h : Trial.Tries source ⟨of, place, store⟩ other) :
      Trial.Tries source ⟨.desc of labels, place, store⟩ other
  /-- What a lazy parser has been made. -/
  | lazy {id : CellId} {made : Parser} {place : Position} {store middle : Store} {other : Trial}
      {depth : Nat} (hmade : ((Engine.upTo depth).build id).on store = some (.ok made, middle))
      (h : Trial.Tries source ⟨made, place, middle⟩ other) :
      Trial.Tries source ⟨.lazy id, place, store⟩ other
  /-- A parser that was put aside. -/
  | kept {number : Nat} {place : Position} {store : Store} {other : Trial}
      (h : Trial.Tries source ⟨store.kept.getD number default, place, store⟩ other) :
      Trial.Tries source ⟨.kept number, place, store⟩ other

/-- Performing a script in a store leaves a lazy parser alone. -/
def Action.LeavesAlone {α : Type} (action : Action α) (store : Store) (cell : CellId) : Prop :=
  ∀ ended after, action.Ends store ended after → store.LeavesAlone cell after

namespace Trial

/-- The functions that are called for a run leave a lazy parser alone, and it is not the parser that
is run. Other lazy parsers are made by functions that neither run parsers nor have them made. -/
def Skirts (source : Source) (cell : CellId) : Trial → Prop
  | ⟨.map of fn, place, store⟩ => ∀ stop value middle,
      of.Ends source place store (.ok (.matched stop value)) middle →
        Action.LeavesAlone (fn value) middle cell
  | ⟨.chain of fn, place, store⟩ => ∀ stop value middle,
      of.Ends source place store (.ok (.matched stop value)) middle →
        Action.LeavesAlone (fn value) middle cell
  | ⟨.custom action, place, store⟩ => Action.LeavesAlone (action source place) store cell
  | ⟨.lazy id, _, store⟩ => id ≠ cell ∧ store.Passive id
  | _ => True

/-- A lazy parser is not tried in a run, and the functions that are called in it leave it alone. -/
def Shuns (source : Source) (cell : CellId) (trial : Trial) : Prop :=
  ∀ other, trial.Tries source other → other.Skirts source cell

namespace Shuns

variable {source : Source} {cell : CellId} {place stop : Position} {store middle after : Store}
  {value : Value} {first : Parser} {rest : List Parser}

/-- The first part of a sequence. -/
theorem head (h : Shuns source cell ⟨.seq (first :: rest), place, store⟩) :
    Shuns source cell ⟨first, place, store⟩ :=
  fun other hother => h other (@Tries.seq source [] rest _ _ _ _ _ _ (.nil place store) hother)

/-- The parts behind it. -/
theorem tail (h : Shuns source cell ⟨.seq (first :: rest), place, store⟩)
    (hfirst : first.Ends source place store (.ok (.matched stop value)) middle) :
    Shuns source cell ⟨.seq rest, stop, middle⟩ := by
  intro other hother
  cases hother with
  | self => trivial
  | @seq front behind _ _ _ _ _ _ hfront hpart =>
    exact h other
      (@Tries.seq source (first :: front) behind _ _ _ _ _ _ (.cons hfirst hfront) hpart)

/-! ## Runs -/

open Eval

/-- What is done in two steps leaves a lazy parser alone if each of them does. -/
theorem leavesAlone_bind {α β : Type} {first : Eval α} {next : α → Eval β} {ended : Except Raised β}
    (hon : (first >>= next).on store = some (ended, after))
    (hfirst : ∀ done between, first.on store = some (done, between) →
      store.LeavesAlone cell between)
    (hnext : ∀ result between, first.on store = some (.ok result, between) →
      (next result).on between = some (ended, after) → between.LeavesAlone cell after) :
    store.LeavesAlone cell after := by
  rcases bind_eq_some hon with ⟨cause, hdone, -⟩ | ⟨result, between, hdone, hrest⟩
  · exact hfirst _ _ hdone
  · exact (hfirst _ _ hdone).trans (hnext result between hdone hrest)

/-- An engine leaves a lazy parser alone in runs in which that is shunned. -/
def Heeds (source : Source) (cell : CellId) (engine : Engine Eval) : Prop :=
  ∀ trial : Trial, Shuns source cell trial → ∀ ended after,
    (engine.run trial.parser source trial.place).on trial.store = some (ended, after) →
      trial.store.LeavesAlone cell after

variable {depth : Nat} {ended : Except Raised Result}

/-- Parsers one after another. -/
theorem sequence (hheeds : Heeds source cell (Engine.upTo depth)) {parts : List Parser}
    (h : Shuns source cell ⟨.seq parts, place, store⟩) {values : List Value}
    (hon : ((Engine.upTo depth).sequence source parts values place).on store
      = some (ended, after)) : store.LeavesAlone cell after := by
  induction parts generalizing values place store with
  | nil =>
    cases hon
    exact .inl rfl
  | cons first rest ih =>
    refine leavesAlone_bind hon (hheeds _ h.head) fun result middle hfirst hrest => ?_
    cases result with
    | failed failure =>
      cases hrest
      exact .inl rfl
    | matched stop value =>
      exact ih (h.tail (Parser.ends_iff_exists.mpr ⟨depth, hfirst⟩)) hrest

/-- Making another lazy parser. -/
theorem build {id : CellId} (hid : id ≠ cell) (hpassive : store.Passive id)
    {built : Except Raised Parser}
    (hon : ((Engine.upTo depth).build id).on store = some (built, after)) :
    store.LeavesAlone cell after := by
  cases depth with
  | zero => cases hon
  | succ depth =>
    rw [Engine.upTo_succ_build] at hon
    cases hfound : store.cell? id with
    | none =>
      rw [Engine.assemble_of_none hfound] at hon
      cases hon
    | some found =>
      obtain ⟨name, state, make, _ | parser⟩ := found
      · rw [Engine.assemble_of_unmade hfound] at hon
        obtain ⟨⟨made, middle⟩, hmade, hsettle⟩ := Option.map_eq_some_iff.mp hon
        -- its function is called in a store in which it is marked as being built
        obtain ⟨_, _, hspares, hperform⟩ := Engine.Idle.perform (hpassive _ hfound)
          ((store.log (.building name state)).setState id .building)
        cases hmade.symm.trans (hperform _)
        have hbegun : store.LeavesAlone cell
            ((store.log (.building name state)).setState id .building) :=
          .inl (Store.cell?_begun_of_ne hid)
        have hended := Film.cell?_settle_of_ne hid name made middle
        rw [hsettle] at hended
        exact (hbegun.trans (hspares.cases cell)).trans (.inl hended)
      · rw [Engine.assemble_of_made hfound] at hon
        cases hon
        exact .inl rfl

/-- What is done about the result of a part that is tried: nothing after a failure, and whatever
leaves a lazy parser alone after a match. -/
theorem part (hheeds : Heeds source cell (Engine.upTo depth)) {of : Parser}
    {next : Result → Eval Result}
    (hon : ((Engine.upTo depth).run of source place >>= next).on store = some (ended, after))
    (hof : Shuns source cell ⟨of, place, store⟩)
    (hfailed : ∀ failure, ∃ result, next (.failed failure) = pure result)
    (hmatched : ∀ stop value middle, of.Ends source place store (.ok (.matched stop value)) middle →
      (next (.matched stop value)).on middle = some (ended, after) →
        middle.LeavesAlone cell after) : store.LeavesAlone cell after := by
  refine leavesAlone_bind hon (hheeds ⟨of, place, store⟩ hof) fun result middle hrun hrest => ?_
  cases result with
  | failed failure =>
    obtain ⟨result, hnext⟩ := hfailed failure
    rw [hnext] at hrest
    cases hrest
    exact .inl rfl
  | matched stop value =>
    exact hmatched stop value middle (Parser.ends_iff_exists.mpr ⟨depth, hrun⟩) hrest

/-- Two alternatives. -/
theorem or (hheeds : Heeds source cell (Engine.upTo depth)) {first second : Parser}
    (h : Shuns source cell ⟨.or first second, place, store⟩)
    (hon : ((Engine.upTo depth).step (.or first second) source place).on store
      = some (ended, after)) : store.LeavesAlone cell after := by
  refine leavesAlone_bind hon (hheeds ⟨first, place, store⟩ fun other hother =>
    h other (.first hother)) fun result middle hfirst hrest => ?_
  cases result with
  | matched stop value =>
    cases hrest
    exact .inl rfl
  | failed failure =>
    have hends := Parser.ends_iff_exists.mpr ⟨depth, hfirst⟩
    refine part hheeds hrest (fun other hother => h other (.second hends hother))
      (fun _ => ⟨_, rfl⟩) fun stop value last _ hlast => ?_
    cases hlast
    exact .inl rfl

/-- A function that is applied to the value of a parser. -/
theorem map (hheeds : Heeds source cell (Engine.upTo depth)) {of : Parser}
    {fn : Value → Action Value} (h : Shuns source cell ⟨.map of fn, place, store⟩)
    (hon : ((Engine.upTo depth).step (.map of fn) source place).on store = some (ended, after)) :
    store.LeavesAlone cell after := by
  have hcalled := h _ (.self _)
  refine part hheeds hon (fun other hother => h other (.map hother)) (fun _ => ⟨_, rfl⟩)
    fun stop value middle hof hrest => ?_
  refine leavesAlone_bind hrest (fun done between hdone => ?_) fun made last _ hlast => ?_
  · exact hcalled stop value middle hof _ _ ((Engine.rising_perform (fn value)).eventually hdone)
  · cases hlast
    exact .inl rfl

/-- A function that makes the parser to go on with. -/
theorem chain (hheeds : Heeds source cell (Engine.upTo depth)) {of : Parser}
    {fn : Value → Action (Object Parser)} (h : Shuns source cell ⟨.chain of fn, place, store⟩)
    (hon : ((Engine.upTo depth).step (.chain of fn) source place).on store = some (ended, after)) :
    store.LeavesAlone cell after := by
  have hcalled := h _ (.self _)
  refine part hheeds hon (fun other hother => h other (.chain hother)) (fun _ => ⟨_, rfl⟩)
    fun stop value middle hof hrest => ?_
  refine leavesAlone_bind hrest (fun done between hdone => ?_) fun made last hmade hlast => ?_
  · exact hcalled stop value middle hof _ _ ((Engine.rising_perform (fn value)).eventually hdone)
  · cases made with
    | parser made =>
      have hfn : Action.Ends (fn value) middle (.ok (.parser made)) last :=
        (Engine.rising_perform (fn value)).eventually hmade
      exact hheeds ⟨made, stop, last⟩ (fun other hother =>
        h other (.chained hof hfn hother)) _ _ hlast
    | value | table | other =>
      -- the error shows what it is, which may look into the store
      refine leavesAlone_bind hlast (fun done between hdone => ?_) fun shown _ _ hraise => ?_
      · exact ((Eval.Basic.consult _).opens hdone).spares.cases cell
      · cases hraise
        exact .inl rfl

/-- A parser that is repeated. -/
theorem many0 (hheeds : Heeds source cell (Engine.upTo depth)) {of : Parser}
    (h : Shuns source cell ⟨.many0 of, place, store⟩)
    (hon : ((Engine.upTo depth).step (.many0 of) source place).on store = some (ended, after)) :
    store.LeavesAlone cell after := by
  refine part hheeds hon (fun other hother => h other (.many0 hother)) (fun _ => ⟨_, rfl⟩)
    fun stop value middle hof hrest => ?_
  simp only at hrest
  split at hrest
  · cases hrest
    exact .inl rfl
  · rename_i hmoved
    refine leavesAlone_bind hrest (hheeds ⟨.many0 of, stop, middle⟩ fun other hother =>
      h other (.again hof hmoved hother)) fun result last _ hlast => ?_
    cases hlast
    exact .inl rfl

/-- One level more of running. -/
theorem step (hheeds : Heeds source cell (Engine.upTo depth)) {parser : Parser}
    (h : Shuns source cell ⟨parser, place, store⟩)
    (hon : ((Engine.upTo depth).step parser source place).on store = some (ended, after)) :
    store.LeavesAlone cell after := by
  -- the parser itself is tried, so what is said of a run goes for it
  have hself := h _ (.self _)
  cases parser with
  | text | ok | fail | eof | location =>
    cases hon
    exact .inl rfl
  | pattern regex =>
    exact ((Eval.Basic.consult _).opens hon).spares.cases cell
  | seq parts => exact sequence hheeds h hon
  | or first second => exact or hheeds h hon
  | map of fn => exact map hheeds h hon
  | chain of fn => exact chain hheeds h hon
  | many0 of => exact many0 hheeds h hon
  | desc of labels =>
    refine leavesAlone_bind hon (hheeds ⟨of, place, store⟩ fun other hother =>
      h other (.desc hother)) fun result middle _ hrest => ?_
    cases hrest
    exact .inl rfl
  | lazy id =>
    obtain ⟨hid, hpassive⟩ := hself
    refine leavesAlone_bind hon (fun _ _ => build hid hpassive) fun made middle hmade hrest => ?_
    exact hheeds ⟨made, place, middle⟩ (fun other hother => h other (.lazy hmade hother)) _ _ hrest
  | kept number =>
    exact hheeds ⟨store.kept.getD number default, place, store⟩
      (fun other hother => h other (.kept hother)) _ _ hon
  | custom action => exact hself _ _ ((Engine.rising_perform _).eventually hon)

/-- If a lazy parser is not tried in a run, and the functions that are called in it leave it alone,
then so does the run. -/
theorem leavesAlone {trial : Trial} (h : Shuns source cell trial)
    (hends : trial.parser.Ends source trial.place trial.store ended after) :
    trial.store.LeavesAlone cell after := by
  have hheeds : ∀ depth, Heeds source cell (Engine.upTo depth) := by
    intro depth
    induction depth with
    | zero => exact fun _ _ _ _ hon => nomatch hon
    | succ depth ih => exact fun _ htrial _ _ hon => step ih htrial hon
  obtain ⟨depth, hon⟩ := Parser.ends_iff_exists.mp hends
  exact hheeds depth trial h _ _ hon

end Shuns

end Trial

/-! ## What is not tried -/

namespace Parser

open Eval

variable {source : Source} {place stop : Position} {store middle after : Store}

/-- A part of a parser that decides what the whole comes to if it ends with a given result, with
nothing else being run. -/
inductive Suffices : Parser → Result → Parser → Prop where
  /-- The first of two alternatives has matched. -/
  | or (first second : Parser) (stop : Position) (value : Value) :
      Suffices first (.matched stop value) (.or first second)
  /-- The front of a sequence has failed. -/
  | seq (front behind : List Parser) (failure : Failure) :
      Suffices (.seq front) (.failed failure) (.seq (front ++ behind))
  /-- The parser to whose value a function is to be applied has failed. -/
  | map (of : Parser) (fn : Value → Action Value) (failure : Failure) :
      Suffices of (.failed failure) (.map of fn)
  /-- The parser on whose value it depends what comes next has failed. -/
  | chain (of : Parser) (fn : Value → Action (Object Parser)) (failure : Failure) :
      Suffices of (.failed failure) (.chain of fn)

/-- A sequence ends as its front does if that fails. -/
theorem sequence_append {depth : Nat} {front : List Parser} (behind : List Parser)
    {values : List Value} {failure : Failure}
    (hon : ((Engine.upTo depth).sequence source front values place).on store
      = some (.ok (.failed failure), after)) :
    ((Engine.upTo depth).sequence source (front ++ behind) values place).on store
      = some (.ok (.failed failure), after) := by
  induction front generalizing values place store with
  | nil => cases hon
  | cons part front ih =>
    rcases bind_eq_some hon with ⟨cause, -, hended⟩ | ⟨result, middle, hpart, hrest⟩
    · cases hended
    · refine (bind_ok hpart).trans ?_
      cases result with
      | failed other => exact hrest
      | matched stop value => exact ih hrest

/-- Of parsers that match one after another, the first few do. -/
theorem Passes.exists_of_append {front behind : List Parser}
    (h : Passes source (front ++ behind) place store stop after) :
    ∃ start middle, Passes source front place store start middle := by
  induction front generalizing place store with
  | nil => exact ⟨place, store, .nil place store⟩
  | cons part front ih =>
    cases h with
    | cons hpart hrest =>
      obtain ⟨start, middle, hfront⟩ := ih hrest
      exact ⟨start, middle, .cons hpart hfront⟩

/-- Parsers that match one after another do not fail as a sequence. -/
theorem Passes.not_failed {front : List Parser} (h : Passes source front place store stop middle)
    (failure : Failure) :
    ¬ (Parser.seq front).Ends source place store (.ok (.failed failure)) after := by
  have hmatched : ∀ values, ∃ value,
      Eventually (fun depth => (Engine.upTo depth).sequence source front values place) store
        (.ok (.matched stop value), middle) := by
    induction h with
    | nil place store => exact fun values => ⟨_, eventually_pure_iff.mpr ⟨rfl, rfl⟩⟩
    | cons hfirst _ ih =>
      intro values
      obtain ⟨value, hrest⟩ := ih (_ :: values)
      exact ⟨value, Eventually.bind hfirst hrest⟩
  obtain ⟨value, hmatched⟩ := hmatched []
  have hends : (Parser.seq front).Ends source place store (.ok (.matched stop value)) middle :=
    (ends_iff_of_step fun _ => rfl).mpr hmatched
  intro hfailed
  cases (hends.unique hfailed).1

/-- The whole ends as the part has ended. -/
theorem Suffices.ends {part whole : Parser} {result : Result} (h : part.Suffices result whole)
    (hpart : part.Ends source place store (.ok result) after) :
    whole.Ends source place store (.ok result) after := by
  cases h with
  | or first second stop value => exact ends_or_iff.mpr (.inl ⟨hpart, unfailed_matched stop value⟩)
  | seq front behind failure =>
    obtain ⟨depth, hon⟩ := ends_iff_exists.mp hpart
    cases depth with
    | zero => cases hon
    | succ depth => exact ends_iff_exists.mpr ⟨depth + 1, sequence_append behind hon⟩
  | map of fn failure =>
    obtain ⟨depth, hon⟩ := ends_iff_exists.mp hpart
    exact ends_iff_exists.mpr ⟨depth + 1, bind_ok hon⟩
  | chain of fn failure =>
    obtain ⟨depth, hon⟩ := ends_iff_exists.mp hpart
    exact ends_iff_exists.mpr ⟨depth + 1, bind_ok hon⟩

/-- Apart from the whole itself, nothing is tried but what is tried in the part. -/
theorem Suffices.tries {part whole : Parser} {result : Result} (h : part.Suffices result whole)
    (hpart : part.Ends source place store (.ok result) after) {other : Trial}
    (hother : Trial.Tries source ⟨whole, place, store⟩ other) :
    other = ⟨whole, place, store⟩ ∨ Trial.Tries source ⟨part, place, store⟩ other := by
  cases h with
  | or first second stop value =>
    cases hother with
    | self => exact .inl rfl
    | first hfirst => exact .inr hfirst
    | second hfirst _ => cases (hpart.unique hfirst).1
  | seq front behind failure =>
    generalize hparts : front ++ behind = parts at hother ⊢
    cases hother with
    | self => exact .inl rfl
    | @seq before behind' part' _ stop _ middle _ hbefore htried =>
      rcases List.append_eq_append_iff.mp hparts with
        ⟨between, rfl, hbehind⟩ | ⟨between, rfl, hbehind⟩
      · -- it would stand behind the front
        obtain ⟨_, _, hfront⟩ := hbefore.exists_of_append
        exact absurd hpart (hfront.not_failed failure)
      · cases between with
        | nil =>
          rw [List.append_nil] at hpart
          exact absurd hpart (hbefore.not_failed failure)
        | cons other between =>
          obtain ⟨rfl, -⟩ := List.cons.inj hbehind
          exact .inr (.seq hbefore htried)
  | map of fn failure =>
    cases hother with
    | self => exact .inl rfl
    | map hof => exact .inr hof
  | chain of fn failure =>
    cases hother with
    | self => exact .inl rfl
    | chain hof => exact .inr hof
    | chained hof _ _ => cases (hpart.unique hof).1

/-- So a lazy parser that is shunned in the part is shunned in the whole, whatever else stands in
it. -/
theorem Suffices.shuns {part whole : Parser} {result : Result} (h : part.Suffices result whole)
    (hpart : part.Ends source place store (.ok result) after) {cell : CellId}
    (hshuns : Trial.Shuns source cell ⟨part, place, store⟩) :
    Trial.Shuns source cell ⟨whole, place, store⟩ := by
  intro other hother
  rcases h.tries hpart hother with rfl | hother
  · cases h with
    | or | seq => trivial
    | map | chain =>
      -- no function is called where there is no match
      intro stop value middle hof
      cases (hpart.unique hof).1
  · exact hshuns other hother

end Parser

end Descent
