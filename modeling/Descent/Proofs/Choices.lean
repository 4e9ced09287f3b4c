import Descent.Proofs.Choices.Foremost
import Descent.Proofs.Endings.Composed
import Descent.Proofs.Runs

/-! # Ordered choice

However several parsers are put together to a choice, they are run one after another, each once and
from the same place, up to the first one that does not fail.

* **`Choice`** — a way to put several parsers together, two at a time.
* **`Run.Chooses`** — what a choice ends with, by the runs of its alternatives.
* **`Run.Chooses.append`**, **`Run.Chooses.of_append`** — the alternatives of two choices put
  together.
* **`Choice.first_match`** — main statement: a choice runs its alternatives up to the first that
  does not fail, and if all of them fail it reports those that got furthest into the source. -/

namespace Descent

/-- A way to put one or more parsers together to a choice, two at a time. -/
inductive Choice : Type where
  /-- A single parser. -/
  | one (parser : Parser)
  /-- The parsers of one choice before those of another. -/
  | either (first second : Choice)

namespace Choice

/-- The parser that is made. -/
def parser : Choice → Parser
  | one parser => parser
  | either first second => .or first.parser second.parser

/-- The parsers from which it is made, in order. -/
def alternatives : Choice → List Parser
  | one parser => [parser]
  | either first second => first.alternatives ++ second.alternatives

theorem alternatives_ne_nil : ∀ choice : Choice, choice.alternatives ≠ []
  | one _ => nofun
  | either first _ => fun h => first.alternatives_ne_nil (List.append_eq_nil_iff.mp h).1

/-- Each parser is put together with all those before it. -/
def leftNested (first : Choice) (others : List Parser) : Choice :=
  others.foldl (fun choice parser => .either choice (.one parser)) first

/-- The choice of several parsers is nested to the left. -/
theorem parser_leftNested (first : Choice) (others : List Parser) :
    (first.leftNested others).parser = Parser.altOf first.parser others := by
  induction others generalizing first with
  | nil => rfl
  | cons second others ih => exact ih (first.either (.one second))

theorem alternatives_leftNested (first : Choice) (others : List Parser) :
    (first.leftNested others).alternatives = first.alternatives ++ others := by
  induction others generalizing first with
  | nil => exact (List.append_nil _).symm
  | cons second others ih =>
    refine (ih (first.either (.one second))).trans ?_
    rw [alternatives, alternatives, List.append_assoc]
    rfl

end Choice

/-! ## The runs of alternatives -/

namespace Run

/-- What a choice comes to by the runs of its alternatives. -/
inductive Chooses (alternatives : List Parser) : List Run → Except Raised Result → Prop where
  /-- Some alternatives have failed, and the next one has not; the rest is not run. -/
  | decided {tried : List Run} {last : Run} (rest : List Parser)
      (hparsers : (tried ++ [last]).map (·.parser) ++ rest = alternatives)
      (htried : ∀ run ∈ tried, ∃ failure, run.ended = .ok (.failed failure))
      (hlast : Unfailed last.ended) : Chooses alternatives (tried ++ [last]) last.ended
  /-- All alternatives have failed, and one failure is reported for all of them. -/
  | exhausted {runs : List Run} {failures : List Failure} {failure : Failure}
      (hparsers : runs.map (·.parser) = alternatives)
      (hfailed : runs.map (·.ended) = failures.map fun failure => .ok (.failed failure))
      (hfailure : Failure.foremost? failures = some failure) :
      Chooses alternatives runs (.ok (.failed failure))

variable {ended : Except Raised Result} {alternatives others : List Parser}
  {runs early late : List Run}

/-- Where each of some runs has failed, there are the failures of all of them. -/
theorem exists_failures (h : ∀ run ∈ runs, ∃ failure, run.ended = .ok (.failed failure)) :
    ∃ failures : List Failure,
      runs.map (·.ended) = failures.map fun failure => .ok (.failed failure) := by
  induction runs with
  | nil => exact ⟨[], rfl⟩
  | cons run runs ih =>
    obtain ⟨failure, hfailure⟩ := h run List.mem_cons_self
    obtain ⟨failures, hfailures⟩ := ih fun r hr => h r (List.mem_cons_of_mem _ hr)
    exact ⟨failure :: failures, by rw [List.map_cons, List.map_cons, hfailure, hfailures]⟩

/-- Where runs of several parsers have failed, one failure can be reported for them. -/
theorem exists_foremost {failures : List Failure} (hparsers : runs.map (·.parser) = alternatives)
    (hne : alternatives ≠ [])
    (hfailed : runs.map (·.ended) = failures.map fun failure => .ok (.failed failure)) :
    ∃ failure, Failure.foremost? failures = some failure := by
  refine Failure.exists_foremost? ?_
  rintro rfl
  rw [List.map_nil, List.map_eq_nil_iff] at hfailed
  subst hfailed
  exact hne hparsers.symm

/-- Where a choice has failed, all its alternatives have. -/
theorem Chooses.failed {failure : Failure}
    (h : Chooses alternatives runs (.ok (.failed failure))) :
    runs.map (·.parser) = alternatives ∧ ∃ failures : List Failure,
      runs.map (·.ended) = failures.map (fun failure => .ok (.failed failure)) ∧
        Failure.foremost? failures = some failure := by
  generalize hended : Except.ok (Result.failed failure) = ended at h
  cases h with
  | decided _ _ _ hlast => exact absurd hended.symm (hlast failure)
  | exhausted hparsers hfailed hfailure =>
    cases hended
    exact ⟨hparsers, _, hfailed, hfailure⟩

/-- A choice that has not failed does not run what comes after it. -/
theorem Chooses.append_right (h : Chooses alternatives runs ended) (hended : Unfailed ended) :
    Chooses (alternatives ++ others) runs ended := by
  cases h with
  | @decided tried last rest hparsers htried hlast =>
    refine .decided (rest ++ others) ?_ htried hlast
    rw [← List.append_assoc, hparsers]
  | exhausted => exact absurd rfl (hended _)

/-- After a choice that has failed, what comes after it is run. -/
theorem Chooses.append {failure : Failure}
    (h : Chooses alternatives early (.ok (.failed failure))) (h' : Chooses others late ended) :
    Chooses (alternatives ++ others) (early ++ late) (ended.map failure.orResult) := by
  obtain ⟨hparsers, failures, hfailed, hfailure⟩ := h.failed
  cases h' with
  | @decided tried last rest hparsers' htried hlast =>
    rw [hlast.map_orResult, ← List.append_assoc]
    refine .decided rest ?_ (fun run hrun => ?_) hlast
    · rw [List.append_assoc, List.map_append, hparsers, List.append_assoc, hparsers']
    · rcases List.mem_append.mp hrun with hrun | hrun
      · obtain ⟨f, -, hf⟩ := List.mem_map.mp (hfailed ▸ List.mem_map_of_mem hrun)
        exact ⟨f, hf.symm⟩
      · exact htried run hrun
  | exhausted hparsers' hfailed' hfailure' =>
    refine .exhausted ?_ ?_ (Failure.foremost?_append hfailure hfailure')
    · rw [List.map_append, hparsers, hparsers']
    · rw [List.map_append, List.map_append, hfailed, hfailed']

/-- The runs of the alternatives of two choices are those of the first choice and, if all of these
have failed, those of the second. -/
theorem Chooses.of_append (h : Chooses (alternatives ++ others) runs ended)
    (hne : alternatives ≠ []) (hne' : others ≠ []) :
    (Chooses alternatives runs ended ∧ Unfailed ended) ∨
      ∃ early late failure other, runs = early ++ late ∧
        Chooses alternatives early (.ok (.failed failure)) ∧ Chooses others late other ∧
        ended = other.map failure.orResult := by
  cases h with
  | @decided tried last rest hparsers htried hlast =>
    rcases List.append_eq_append_iff.mp hparsers with ⟨unused, hfirst, -⟩ | ⟨used, hmap, hothers⟩
    · exact .inl ⟨.decided unused hfirst.symm htried hlast, hlast⟩
    · obtain ⟨early, late, hruns, hearly, hlate⟩ := List.map_eq_append_iff.mp hmap
      rcases List.eq_nil_or_concat late with rfl | ⟨tried', last', rfl⟩
      · -- the alternative that has not failed is the last one of the first choice
        rw [List.append_nil] at hruns
        refine .inl ⟨.decided [] ?_ htried hlast, hlast⟩
        rw [hruns, hearly, List.append_nil]
      · rw [List.concat_eq_append, ← List.append_assoc] at hruns
        obtain ⟨rfl, hlast'⟩ := List.append_inj' hruns rfl
        cases hlast'
        obtain ⟨failures, hfailed⟩ := exists_failures fun run hrun =>
          htried run (List.mem_append_left _ hrun)
        obtain ⟨failure, hfailure⟩ := exists_foremost hearly hne hfailed
        refine .inr ⟨early, tried' ++ [last], failure, last.ended, List.append_assoc _ _ _,
          .exhausted hearly hfailed hfailure, .decided rest ?_ (fun run hrun =>
            htried run (List.mem_append_right _ hrun)) hlast, (hlast.map_orResult failure).symm⟩
        rw [hothers, ← hlate, List.concat_eq_append]
  | @exhausted _ failures failure hparsers hfailed hfailure =>
    obtain ⟨early, late, rfl, hearly, hlate⟩ := List.map_eq_append_iff.mp hparsers
    rw [List.map_append] at hfailed
    obtain ⟨first, second, rfl, hfirst, hsecond⟩ := List.map_eq_append_iff.mp hfailed.symm
    obtain ⟨left, hleft⟩ := exists_foremost hearly hne hfirst.symm
    obtain ⟨right, hright⟩ := exists_foremost hlate hne' hsecond.symm
    cases hfailure.symm.trans (Failure.foremost?_append hleft hright)
    exact .inr ⟨early, late, left, .ok (.failed right), rfl, .exhausted hearly hfirst.symm hleft,
      .exhausted hlate hsecond.symm hright, rfl⟩

/-- The run of a single alternative. -/
theorem Chooses.single {run : Run} (hplain : ∀ failure, run.ended = .ok (.failed failure) →
    failure.expected.Pairwise fun a b => Value.same a b = false) :
    Chooses [run.parser] [run] run.ended := by
  rcases failed_or_unfailed run.ended with ⟨failure, hended⟩ | hended
  · have hfailed : [run].map (·.ended) = [failure].map fun failure => .ok (.failed failure) := by
      rw [List.map_singleton, List.map_singleton, hended]
    rw [hended]
    exact .exhausted rfl hfailed (Failure.foremost?_single (hplain failure hended))
  · have htried : ∀ other ∈ ([] : List Run), ∃ failure, other.ended = .ok (.failed failure) :=
      List.forall_mem_nil _
    exact .decided [] rfl htried hended

/-- Of a single alternative there is a single run. -/
theorem Chooses.of_single {p : Parser} (h : Chooses [p] runs ended)
    (hplain : ∀ run, runs = [run] → run.parser = p → ∀ failure, run.ended = .ok (.failed failure) →
      failure.expected.Pairwise fun a b => Value.same a b = false) :
    ∃ run, runs = [run] ∧ run.parser = p ∧ run.ended = ended := by
  cases h with
  | @decided tried last rest hparsers htried hlast =>
    obtain rfl : tried = [] := by
      have hlength := congrArg List.length hparsers
      simp only [List.length_append, List.length_map, List.length_cons, List.length_nil] at hlength
      exact List.eq_nil_of_length_eq_zero (by omega)
    exact ⟨last, rfl, (List.cons.inj hparsers).1, rfl⟩
  | @exhausted _ failures failure hparsers hfailed hfailure =>
    obtain ⟨run, rfl, rfl⟩ := List.map_eq_singleton_iff.mp hparsers
    obtain ⟨first, rfl, hfirst⟩ := List.map_eq_singleton_iff.mp hfailed.symm
    have hpairwise := hplain run rfl rfl first hfirst.symm
    cases (Failure.foremost?_single hpairwise).symm.trans hfailure
    exact ⟨run, rfl, rfl, hfirst.symm⟩

end Run

/-! ## The run of a choice -/

/-- From stores with an invariant, which it keeps, a parser has no failure with labels that count as
equal. -/
def Parser.Unrepeating (inv : Store → Prop) (source : Source) (place : Position)
    (parser : Parser) : Prop :=
  ∀ store ended after, inv store → parser.Ends source place store ended after →
    inv after ∧ ∀ failure, ended = .ok (.failed failure) →
      failure.expected.Pairwise fun a b => Value.same a b = false

/-- That is so of composed parsers. -/
theorem Parser.Composed.unrepeating {known : Known} {parser : Parser} (h : parser.Composed known)
    (source : Source) (place : Position) :
    parser.Unrepeating (·.HonoursMore known) source place := by
  refine fun store ended after hstore hends => ⟨h.honoursMore hstore hends, ?_⟩
  rintro failure rfl
  exact h.expected_pairwise hstore hends

/-- The scene of the end of a choice's run. -/
def Scene.EndsChoice (source : Source) (place : Position) (scene : Scene) : Prop :=
  ∃ first second result, scene.happening = .ran (.or first second) source place result

/-- The scene of a choice's own run is that of the end of a choice. -/
theorem Film.endsChoice_arrival {source : Source} {place : Position} {first second : Parser}
    {ended : Option (Except Raised Result × Store)} {scene : Scene}
    (h : scene ∈ arrival (.or first second) source place ended) :
    scene.EndsChoice source place := by
  rcases ended with _ | ⟨cause | result, after⟩
  · cases h
  · cases h
  · rw [List.mem_singleton.mp h]
    exact ⟨first, second, result, rfl⟩

namespace Choice

open Run

variable {choice : Choice} {inv : Store → Prop} {source : Source} {place : Position}

/-- A choice keeps the invariant that its alternatives keep. -/
theorem inv_after (hplain : ∀ p ∈ choice.alternatives, p.Unrepeating inv source place)
    {store after : Store} {ended : Except Raised Result} (hstore : inv store)
    (h : choice.parser.Ends source place store ended after) : inv after := by
  induction choice generalizing store after ended with
  | one p => exact (hplain p List.mem_cons_self store ended after hstore h).1
  | either first second ih ih' =>
    have hleft := fun p hp => hplain p (List.mem_append_left _ hp)
    have hright := fun p hp => hplain p (List.mem_append_right _ hp)
    rcases Parser.ends_or_iff.mp h with ⟨hfirst, -⟩ | ⟨failure, middle, hfirst, other, hsecond, -⟩
    · exact ih hleft hstore hfirst
    · exact ih' hright (ih hleft hstore hfirst) hsecond

/-- If a choice ends, its alternatives have been run up to the first that has not failed. -/
theorem exists_runs (hplain : ∀ p ∈ choice.alternatives, p.Unrepeating inv source place)
    {store after : Store} {ended : Except Raised Result} (hstore : inv store)
    (h : choice.parser.Ends source place store ended after) :
    ∃ runs, InTurn source store runs after ∧ (∀ run ∈ runs, run.start = place) ∧
      Chooses choice.alternatives runs ended := by
  -- the runs of the second part are there only if those of the first have all failed
  induction choice generalizing store after ended with
  | one p =>
    obtain ⟨scenes, hrun⟩ := exists_happens h
    exact ⟨_, .single hrun, List.forall_mem_singleton.mpr rfl,
      @Chooses.single ⟨p, place, store, scenes, ended, after⟩
        (hplain p List.mem_cons_self store ended after hstore h).2⟩
  | either first second ih ih' =>
    have hleft := fun p hp => hplain p (List.mem_append_left _ hp)
    have hright := fun p hp => hplain p (List.mem_append_right _ hp)
    rcases Parser.ends_or_iff.mp h with
      ⟨hfirst, hended⟩ | ⟨failure, middle, hfirst, other, hsecond, rfl⟩
    · obtain ⟨runs, hturn, hstarts, hchooses⟩ := ih hleft hstore hfirst
      exact ⟨runs, hturn, hstarts, hchooses.append_right hended⟩
    · obtain ⟨early, hturn, hstarts, hchooses⟩ := ih hleft hstore hfirst
      obtain ⟨late, hturn', hstarts', hchooses'⟩ :=
        ih' hright (inv_after hleft hstore hfirst) hsecond
      refine ⟨early ++ late, hturn.append hturn', fun run hrun => ?_, hchooses.append hchooses'⟩
      exact (List.mem_append.mp hrun).elim (hstarts run) (hstarts' run)

/-- If its alternatives can be run up to the first that does not fail, a choice ends, and it does
nothing else. -/
theorem exists_consists (hplain : ∀ p ∈ choice.alternatives, p.Unrepeating inv source place)
    {store after : Store} {runs : List Run} {ended : Except Raised Result} (hstore : inv store)
    (hturn : InTurn source store runs after) (hstarts : ∀ run ∈ runs, run.start = place)
    (hchooses : Chooses choice.alternatives runs ended) :
    ∃ scenes, Consists source (Scene.EndsChoice source place)
      ⟨choice.parser, place, store, scenes, ended, after⟩ runs := by
  induction choice generalizing store after runs ended with
  | one p =>
    obtain ⟨run, rfl, rfl, rfl⟩ := hchooses.of_single fun run hruns hparser failure hfailed => by
      subst hruns hparser
      obtain ⟨rfl, hrun, -⟩ := hturn.of_cons
      obtain rfl := hstarts run List.mem_cons_self
      exact (hplain _ List.mem_cons_self _ _ _ hstore hrun.ends).2 failure hfailed
    obtain ⟨rfl, hrun, hnil⟩ := hturn.of_cons
    obtain rfl := hnil.eq_of_nil
    obtain rfl := hstarts run List.mem_cons_self
    exact ⟨run.scenes, hrun, .single hrun, .single run⟩
  | either first second ih ih' =>
    have hleft := fun p hp => hplain p (List.mem_append_left _ hp)
    have hright := fun p hp => hplain p (List.mem_append_right _ hp)
    -- either the first choice decides, or it fails and the second goes on after it
    rcases hchooses.of_append first.alternatives_ne_nil second.alternatives_ne_nil with
      ⟨hfirst, hended⟩ | ⟨early, late, failure, other, rfl, hfirst, hsecond, rfl⟩
    · obtain ⟨scenes, hconsists⟩ := ih hleft hstore hturn hstarts hfirst
      exact ⟨_, hconsists.happens.or_unfailed hended second.parser, hturn,
        hconsists.shown.end fun scene => Film.endsChoice_arrival⟩
    · obtain ⟨middle, hearly, hlate⟩ := hturn.of_append
      obtain ⟨scenes, hconsists⟩ := ih hleft hstore hearly
        (fun run hrun => hstarts run (List.mem_append_left _ hrun)) hfirst
      have hmiddle := inv_after hleft hstore hconsists.happens.ends
      obtain ⟨scenes', hconsists'⟩ := ih' hright hmiddle hlate
        (fun run hrun => hstarts run (List.mem_append_right _ hrun)) hsecond
      exact ⟨_, hconsists.happens.or_failed hconsists'.happens, hturn,
        (hconsists.shown.append hconsists'.shown).end fun scene => Film.endsChoice_arrival⟩

/-- However several parsers are put together to a choice, a run of it consists of runs of the first
few of them, each once, in order, and from where the choice was started. It ends as the first of
them does that does not fail. If all of them fail, each is run, and the failure reported is at the
place of the first of those that are furthest into the source, with the labels of all of these, each
at its first occurrence. Conversely, once some of the parsers have been run like that, the choice
ends so. -/
theorem first_match (hplain : ∀ p ∈ choice.alternatives, p.Unrepeating inv source place) :
    (∀ whole : Run, whole.parser = choice.parser → whole.start = place → inv whole.before →
      whole.Happens source → ∃ runs, whole.Consists source (Scene.EndsChoice source place) runs ∧
        (∀ run ∈ runs, run.start = place) ∧ Chooses choice.alternatives runs whole.ended) ∧
    ∀ store runs after ended, inv store → InTurn source store runs after →
      (∀ run ∈ runs, run.start = place) → Chooses choice.alternatives runs ended →
      ∃ scenes, Consists source (Scene.EndsChoice source place)
        ⟨choice.parser, place, store, scenes, ended, after⟩ runs := by
  refine ⟨fun whole hparser hstart hstore hwhole => ?_, fun store runs after ended =>
    exists_consists hplain⟩
  obtain ⟨parser, start, store, scenes, ended, after⟩ := whole
  cases hparser
  cases hstart
  obtain ⟨runs, hturn, hstarts, hchooses⟩ := exists_runs hplain hstore hwhole.ends
  obtain ⟨scenes', hconsists⟩ := exists_consists hplain hstore hturn hstarts hchooses
  -- there is only one film of the run
  cases hwhole.unique hconsists.happens rfl rfl rfl
  exact ⟨runs, hconsists, hstarts, hchooses⟩

/-- Of three alternatives the last two get further than the first, and equally far. -/
theorem first_match_stuck :
    let choice : Choice := .either (.one (.text "ab"))
      (.either (.one (.and (.text "a") (.text "b"))) (.one (.and (.text "a") (.text "c"))))
    let inv : Store → Prop := (·.HonoursMore {.className Store.baseName})
    let source : Source := ['a', 'x']
    (∀ p ∈ choice.alternatives, p.Unrepeating inv source .start) ∧
      ∃ whole : Run, whole.parser = choice.parser ∧ whole.start = .start ∧ inv whole.before ∧
        whole.Happens source ∧ ∃ runs,
          whole.Consists source (Scene.EndsChoice source .start) runs ∧
          (∀ run ∈ runs, run.start = .start) ∧
          Chooses choice.alternatives runs
            (.ok (.failed ⟨⟨1, 1, 2⟩, [.str "b", .str "c"]⟩)) := by
  intro choice inv source
  have hplain : ∀ p ∈ choice.alternatives, p.Unrepeating inv source .start :=
    List.forall_mem_cons.mpr ⟨Parser.Composed.unrepeating (.text _) _ _,
      List.forall_mem_cons.mpr ⟨Parser.Composed.unrepeating (.and (.text _) (.text _)) _ _,
        List.forall_mem_singleton.mpr
          (Parser.Composed.unrepeating (.and (.text _) (.text _)) _ _)⟩⟩
  have hstore : inv (Store.initial false) := (Store.Honours.initial false).more
  have hends : choice.parser.Ends source .start (Store.initial false)
      (.ok (.failed ⟨⟨1, 1, 2⟩, [.str "b", .str "c"]⟩)) (Store.initial false) :=
    Parser.ends_iff_exists.mpr ⟨4, rfl⟩
  obtain ⟨scenes, hwhole⟩ := exists_happens hends
  exact ⟨hplain, _, rfl, rfl, hstore, hwhole, (first_match hplain).1 _ rfl rfl hstore hwhole⟩

end Choice

end Descent
