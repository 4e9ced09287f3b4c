import Descent.Proofs.Runs

/-! # Repetition

A parser that is a function of the place is repeated just as long as its matches move on. Where each
of them starts is where the one before has stopped, and the last run is the one that fails or does
not move.

* **`Parser.Computes`** — a parser that is a function of the place.
* **`Climb`** — the places that matches lead to, one after another, as long as they move on.
* **`Climb.exists_of_advances`** — that does not go on for ever, by the number of characters that
  are left.
* **`Parser.Computes.many0_climbs`** — main statement: how such a parser is repeated. -/

namespace Descent

/-! ## Functions of the place -/

/-- On stores with an invariant, which it keeps, and from certain places, the result of a parser is
a function of the place. Its matches do not leave these places. -/
structure Parser.Computes (parser : Parser) (source : Source) (inv : Store → Prop)
    (within : Position → Prop) (result : Position → Result) : Prop where
  /-- The parser ends with the result. -/
  ends : ∀ store place, inv store → within place →
    ∃ after, parser.Ends source place store (.ok (result place)) after ∧ inv after
  /-- Where it stops, it can go on. -/
  within_stop : ∀ place stop value, within place → result place = .matched stop value → within stop

/-- A parser written by hand that only computes its result is a function of the place. -/
theorem Parser.computes_custom (result : Source → Position → Result) (source : Source) :
    (Parser.custom fun source place => .done (result source place)).Computes source
      (fun _ => True) (fun _ => True) (result source) where
  ends store _ _ _ := ⟨store, ends_iff_exists.mpr ⟨1, rfl⟩, trivial⟩
  within_stop _ _ _ _ _ := trivial

/-- From certain places, no match ends before where it started. It ends past the end of the source
only if it started there. -/
def Advances (source : Source) (within : Position → Prop) (result : Position → Result) : Prop :=
  ∀ place stop value, within place → result place = .matched stop value →
    place.index ≤ stop.index ∧ stop.index ≤ max place.index source.length

/-- From a place, matches lead on as long as they move: each starts where the one before has
stopped. A lap is the start of a match and its value; at the last place there is no match that
moves. -/
inductive Climb (result : Position → Result) :
    Position → List (Position × Value) → Position → Prop where
  /-- From here, nothing leads on. -/
  | rest {place : Position} (hrests : (result place).Rests place) : Climb result place [] place
  /-- A match leads on to where it stops. -/
  | lap {place stop last : Position} {value : Value} {laps : List (Position × Value)}
      (hmatched : result place = .matched stop value) (hmoved : place.index < stop.index)
      (hrest : Climb result stop laps last) : Climb result place ((place, value) :: laps) last

namespace Climb

variable {result : Position → Result} {source : Source} {within : Position → Prop}
  {place last last' : Position} {laps laps' : List (Position × Value)}

/-- There is only one way on from a place. -/
theorem unique (h : Climb result place laps last) (h' : Climb result place laps' last') :
    laps = laps' ∧ last = last' := by
  induction h generalizing laps' with
  | rest hrests =>
    cases h' with
    | rest => exact ⟨rfl, rfl⟩
    | lap hmatched hmoved => exact absurd (hrests _ _ hmatched) (Int.ne_of_gt hmoved)
  | lap hmatched hmoved _ ih =>
    cases h' with
    | rest hrests => exact absurd (hrests _ _ hmatched) (Int.ne_of_gt hmoved)
    | lap hmatched' _ hrest' =>
      cases hmatched.symm.trans hmatched'
      obtain ⟨rfl, rfl⟩ := ih hrest'
      exact ⟨rfl, rfl⟩

/-- Each lap moves on by one index at least. -/
theorem length_le (h : Climb result place laps last) :
    (laps.length : Int) ≤ last.index - place.index := by
  induction h with
  | rest => simp
  | lap _ hmoved _ ih =>
    rw [List.length_cons]
    omega

/-- At the last place, nothing leads on. -/
theorem rests_last (h : Climb result place laps last) : (result last).Rests last := by
  induction h with
  | rest hrests => exact hrests
  | lap _ _ _ ih => exact ih

/-- The last place can be gone on from like the first. -/
theorem within_last (h : Climb result place laps last)
    (hstop : ∀ place stop value, within place → result place = .matched stop value → within stop)
    (hplace : within place) : within last := by
  induction h with
  | rest => exact hplace
  | lap hmatched _ _ ih => exact ih (hstop _ _ _ hplace hmatched)

/-- Matches that stay in the source do not lead on for ever: behind each that moves there are fewer
characters left. -/
theorem exists_of_advances (hadvances : Advances source within result)
    (hstop : ∀ place stop value, within place → result place = .matched stop value → within stop)
    (hplace : within place) : ∃ laps last, Climb result place laps last := by
  induction hleft : ((source.length : Int) - place.index).toNat using Nat.strongRecOn
    generalizing place with
  | ind left ih =>
    by_cases hrests : (result place).Rests place
    · exact ⟨[], place, .rest hrests⟩
    · obtain ⟨stop, value, hmatched, hmoved⟩ := exists_of_not_rests hrests
      obtain ⟨hle, hmax⟩ := hadvances place stop value hplace hmatched
      obtain ⟨laps, last, hrest⟩ := ih _ (by omega) (hstop place stop value hplace hmatched) rfl
      exact ⟨_, last, .lap hmatched (by omega) hrest⟩

end Climb

/-! ## The run of a repetition -/

/-- The scene of the end of a repetition, from wherever it was started. -/
def Scene.EndsRepetition (parser : Parser) (source : Source) (scene : Scene) : Prop :=
  ∃ start result, scene.happening = .ran (.many0 parser) source start result

namespace Parser.Computes

open Run

variable {p : Parser} {source : Source} {inv : Store → Prop} {within : Position → Prop}
  {result : Position → Result} {place last : Position} {laps : List (Position × Value)}
  {store : Store}

/-- A repetition runs the parser from each place that its matches lead to, and nothing else. -/
theorem exists_consists (h : p.Computes source inv within result)
    (hclimb : Climb result place laps last) (hplace : within place) (hstore : inv store) :
    ∃ scenes after runs, Consists source (Scene.EndsRepetition p source)
        ⟨.many0 p, place, store, scenes, .ok (.matched last (.list (laps.map (·.2)))), after⟩ runs ∧
      (∀ run ∈ runs, run.parser = p ∧ run.ended = .ok (result run.start)) ∧
      runs.map (·.start) = laps.map (·.1) ++ [last] ∧ inv after := by
  induction hclimb generalizing store with
  | @rest place hrests =>
    obtain ⟨after, hends, hafter⟩ := h.ends store place hstore hplace
    obtain ⟨scenes, hrun⟩ := exists_happens hends
    refine ⟨_, after, [⟨p, place, store, scenes, .ok (result place), after⟩],
      ⟨hrun.many0_rests hrests, .single hrun, (Shown.single _).end ?_⟩,
      List.forall_mem_singleton.mpr ⟨rfl, rfl⟩, rfl, hafter⟩
    exact List.forall_mem_singleton.mpr ⟨place, _, rfl⟩
  | @lap place stop last value laps hmatched hmoved _ ih =>
    obtain ⟨middle, hends, hmiddle⟩ := h.ends store place hstore hplace
    rw [hmatched] at hends
    obtain ⟨early, hrun⟩ := exists_happens hends
    obtain ⟨late, after, runs, hconsists, hruns, hstarts, hafter⟩ :=
      ih (h.within_stop place stop value hplace hmatched) hmiddle
    refine ⟨_, after, ⟨p, place, store, early, .ok (.matched stop value), middle⟩ :: runs,
      ⟨hrun.many0_moved (Int.ne_of_gt hmoved) hconsists.happens, .cons hrun hconsists.inTurn,
        (Shown.part hconsists.shown).end ?_⟩,
      List.forall_mem_cons.mpr ⟨⟨rfl, hmatched ▸ rfl⟩, hruns⟩, ?_, hafter⟩
    · exact List.forall_mem_singleton.mpr ⟨place, _, rfl⟩
    · rw [List.map_cons, hstarts]
      rfl

/-- A repetition ends with the values of the matches that move on. -/
theorem ends_many0 (h : p.Computes source inv within result)
    (hclimb : Climb result place laps last) (hplace : within place) (hstore : inv store) :
    ∃ after, (Parser.many0 p).Ends source place store
      (.ok (.matched last (.list (laps.map (·.2))))) after := by
  obtain ⟨_, after, _, hconsists, -⟩ := h.exists_consists hclimb hplace hstore
  exact ⟨after, hconsists.happens.ends⟩

/-- After a match, one or more repetitions end with its value and the further ones. -/
theorem ends_many1 (h : p.Computes source inv within result) {stop : Position} {value : Value}
    (hmatched : result place = .matched stop value) (hclimb : Climb result stop laps last)
    (hplace : within place) (hstore : inv store) :
    ∃ after, p.many1.Ends source place store
      (.ok (.matched last (.list (value :: laps.map (·.2))))) after := by
  obtain ⟨middle, hends, hmiddle⟩ := h.ends store place hstore hplace
  rw [hmatched] at hends
  obtain ⟨after, hrest⟩ :=
    h.ends_many0 hclimb (h.within_stop place stop value hplace hmatched) hmiddle
  exact ⟨after, ends_consFrom_iff.mpr (.inr ⟨stop, value, middle, hends, _, hrest, rfl⟩)⟩

/-- Where the parser fails, one or more repetitions fail in the same way. -/
theorem ends_many1_of_failed (h : p.Computes source inv within result) {failure : Failure}
    (hfailed : result place = .failed failure) (hplace : within place) (hstore : inv store) :
    ∃ after, p.many1.Ends source place store (.ok (.failed failure)) after := by
  obtain ⟨after, hends, -⟩ := h.ends store place hstore hplace
  rw [hfailed] at hends
  exact ⟨after, ends_consFrom_iff.mpr (.inl ⟨hends, unmatched_failed failure⟩)⟩

/-- One or more repetitions fail just if the parser fails. -/
theorem ends_many1_failed_iff (h : p.Computes source inv within result)
    (hadvances : Advances source within result) (hplace : within place) (hstore : inv store)
    {failure : Failure} :
    (∃ after, p.many1.Ends source place store (.ok (.failed failure)) after) ↔
      result place = .failed failure := by
  refine ⟨?_, fun hfailed => h.ends_many1_of_failed hfailed hplace hstore⟩
  rintro ⟨after, hends⟩
  cases hresult : result place with
  | failed other =>
    obtain ⟨_, hends'⟩ := h.ends_many1_of_failed hresult hplace hstore
    cases (hends.unique hends').1
    rfl
  | matched stop value =>
    -- after a match they would have matched
    obtain ⟨laps, last, hclimb⟩ := Climb.exists_of_advances hadvances h.within_stop
      (h.within_stop place stop value hplace hresult)
    obtain ⟨_, hends'⟩ := h.ends_many1 hresult hclimb hplace hstore
    cases (hends.unique hends').1

/-- A parser that is a function of the place, and whose matches neither go back nor leave the
source, is repeated as long as its matches move on. The repetition ends with a match, whose value is
the list of the values of these matches, and which stops where the parser fails or does not move. In
its run the parser is run once from each of the places that the matches lead to, and there are no
more matches than indices in between; repeated from the last place, the parser matches nothing.
One or more repetitions fail just if the parser fails, in the same way. Otherwise, the value of the
first match comes before those of the repetitions from where it stopped, even if it did not move. -/
theorem many0_climbs (h : p.Computes source inv within result)
    (hadvances : Advances source within result) (hplace : within place) :
    (∃ laps last, Climb result place laps last ∧
      (laps.length : Int) ≤ last.index - place.index ∧ ∀ store, inv store →
        (∃ scenes after runs, Consists source (Scene.EndsRepetition p source)
            ⟨.many0 p, place, store, scenes, .ok (.matched last (.list (laps.map (·.2)))), after⟩
            runs ∧
          (∀ run ∈ runs, run.parser = p ∧ run.ended = .ok (result run.start)) ∧
          runs.map (·.start) = laps.map (·.1) ++ [last]) ∧
        ∃ after, (Parser.many0 p).Ends source last store (.ok (.matched last (.list []))) after) ∧
    ∀ store, inv store →
      (∀ failure, (∃ after, p.many1.Ends source place store (.ok (.failed failure)) after) ↔
        result place = .failed failure) ∧
      ∀ stop value, result place = .matched stop value → ∃ laps last, Climb result stop laps last ∧
        (∀ middle, inv middle → ∃ after, (Parser.many0 p).Ends source stop middle
          (.ok (.matched last (.list (laps.map (·.2))))) after) ∧
        ∃ after, p.many1.Ends source place store
          (.ok (.matched last (.list (value :: laps.map (·.2))))) after := by
  constructor
  · obtain ⟨laps, last, hclimb⟩ := Climb.exists_of_advances hadvances h.within_stop hplace
    refine ⟨laps, last, hclimb, hclimb.length_le, fun store hstore => ⟨?_, ?_⟩⟩
    · obtain ⟨scenes, after, runs, hconsists, hruns, hstarts, -⟩ :=
        h.exists_consists hclimb hplace hstore
      exact ⟨scenes, after, runs, hconsists, hruns, hstarts⟩
    · exact h.ends_many0 (.rest hclimb.rests_last) (hclimb.within_last h.within_stop hplace) hstore
  · refine fun store hstore => ⟨fun failure => h.ends_many1_failed_iff hadvances hplace hstore,
      fun stop value hmatched => ?_⟩
    have hstop := h.within_stop place stop value hplace hmatched
    obtain ⟨laps, last, hclimb⟩ := Climb.exists_of_advances hadvances h.within_stop hstop
    exact ⟨laps, last, hclimb, fun middle hmiddle => h.ends_many0 hclimb hstop hmiddle,
      h.ends_many1 hmatched hclimb hplace hstore⟩

/-- The indices of a source one after another, and nothing at its end. -/
def indexResult (source : Source) (place : Position) : Result :=
  if place.index < source.length then
    .matched ⟨place.index + 1, place.line, place.column + 1⟩ (.int place.index)
  else .matched place .nothing

/-- The last match does not move, so its value is dropped. -/
theorem many0_climbs_indices :
    let p : Parser := .custom fun source place => .done (indexResult source place)
    let source : Source := ['a', 'b']
    p.Computes source (fun _ => True) (fun _ => True) (indexResult source) ∧
      Advances source (fun _ => True) (indexResult source) ∧
      ∃ scenes after runs, Consists source (Scene.EndsRepetition p source)
          ⟨.many0 p, .start, Store.initial false, scenes,
            .ok (.matched ⟨2, 1, 3⟩ (.list [.int 0, .int 1])), after⟩ runs ∧
        (∀ run ∈ runs, run.parser = p ∧ run.ended = .ok (indexResult source run.start)) ∧
        runs.map (·.start) = [.start, ⟨1, 1, 2⟩, ⟨2, 1, 3⟩] := by
  intro p source
  have hcomputes := Parser.computes_custom indexResult source
  have hadvances : Advances source (fun _ => True) (indexResult source) := by
    intro place stop value _ hmatched
    unfold indexResult at hmatched
    split at hmatched
    · cases hmatched
      refine ⟨?_, ?_⟩
      · show place.index ≤ place.index + 1
        omega
      · show place.index + 1 ≤ _
        omega
    · cases hmatched
      exact ⟨Int.le_refl _, Int.le_max_left _ _⟩
  have hclimb : Climb (indexResult source) .start [(.start, .int 0), (⟨1, 1, 2⟩, .int 1)]
      ⟨2, 1, 3⟩ := by
    refine .lap rfl (by decide) (.lap rfl (by decide) (.rest ?_))
    rintro stop value ⟨⟩
    rfl
  obtain ⟨laps, last, hclimb', -, hruns⟩ :=
    (@many0_climbs _ _ _ _ _ .start hcomputes hadvances trivial).1
  obtain ⟨rfl, rfl⟩ := hclimb'.unique hclimb
  exact ⟨hcomputes, hadvances, (hruns (Store.initial false) trivial).1⟩

end Parser.Computes

end Descent
