import Descent.Proofs.Observed
import Descent.Proofs.Rebased.Engines

/-! # Sessions with languages that are taken for others

Steps on a language, one after another, have the same outcomes if the language is taken for one of
the class from which all others descend.

* **`Session.Step.Reaches`** — steps on one language that ask it for certain attributes.
* **`Session.Step.rebasable_perform`** — such a step is performed alike.
* **`Session.rebasable_play`** — main statement: so are such steps one after another. -/

namespace Descent

/-! ## Parsing -/

namespace Engine.Rebasable

open Eval

variable {permit : Permit} {language : InstanceId} {engine : Engine Eval} {p : Parser}

/-- A discreet parser goes the same through a source, and the same is logged. -/
theorem parse (h : engine.Rebasable permit language) (hp : p.Discreet permit) (source : Source) :
    (engine.parse p source).Rebasable permit language fun _ => True := by
  refine Eval.Rebasable.bind (h.run source .start hp) fun result _ => ?_
  refine Eval.Rebasable.bind (P := fun _ => True) (.attempt fun store hstore => ?_)
    fun _ _ => .pure trivial
  have hlogging : (store.rebase language).logging = store.logging := rfl
  unfold Store.logResult
  rw [hlogging]
  split
  · cases Record.ofResult source result with
    | error cause => exact ⟨rfl, nofun⟩
    | ok record =>
      refine ⟨?_, fun done after hlog => ?_⟩
      · simp only [Except.map, Store.rebase_log]
      · cases hlog
        exact ⟨trivial, hstore.log record⟩
  · refine ⟨rfl, fun done after hlog => ?_⟩
    cases hlog
    exact ⟨trivial, hstore⟩

/-- So it does if all of the source has to be matched. -/
theorem tryParse (h : engine.Rebasable permit language) (hp : p.Discreet permit)
    (source : Source) : (engine.tryParse p source).Rebasable permit language fun _ => True := by
  refine Eval.Rebasable.bind (h.parse (hp.skip .eof) source) fun result _ => ?_
  cases result with
  | matched stop value => exact .pure trivial
  | failed failure => exact .raise _

end Engine.Rebasable

/-! ## Steps -/

namespace Session

/-- A target is an attribute of a language, or a rule of it, that the language may be asked for. -/
def Target.Reaches (named : String) (asked : String → Prop) : Target → Prop
  | .rule language name direct => language = named ∧ (direct = true ∨ asked name)
  | .ref _ => False
  | .grammar _ => False

/-- A step runs the rules of a language, parses with them, has them made, looks at them, or asks for
their names or their stages. -/
def Step.Reaches (named : String) (asked : String → Prop) : Step → Prop
  | .run target _ _ => target.Reaches named asked
  | .parse target _ => target.Reaches named asked
  | .tryParse target _ => target.Reaches named asked
  | .build target => target.Reaches named asked
  | .inspect target => target.Reaches named asked
  | .names language => language = named
  | .state language _ => language = named
  | _ => False

section

open Eval

variable {permit : Permit} {language : InstanceId} {engine : Engine Eval} {session : Session}
  {named : String}

/-- A language is found by its name. -/
theorem rebasable_named (hnamed : session.languages.get? named = some language) :
    (Eval.consult fun _ => session.languageNamed named).Rebasable permit language (· = language) := by
  refine .consult fun _ _ => ?_
  unfold languageNamed
  rw [hnamed]
  exact .ok rfl

/-- The same is found for a target, and if that is a parser, it is a lazy one. -/
theorem Target.rebasable_resolve {target : Target} (h : target.Reaches named (permit language))
    (hnamed : session.languages.get? named = some language) :
    (target.resolve engine session).Rebasable permit language
      fun object => ∃ found : Object CellId, object = found.map .lazy := by
  cases target with
  | ref | grammar => exact h.elim
  | rule other name direct =>
    obtain ⟨rfl, hasked⟩ := h
    refine Eval.Rebasable.bind (rebasable_named hnamed) ?_
    rintro _ rfl
    cases direct with
    | true =>
      exact Eval.Rebasable.bind (.consult fun _ hstore => hstore.getRule_any _ name)
        fun cell _ => .pure ⟨.parser cell, rfl⟩
    | false =>
      have hname := hasked.resolve_left nofun
      exact Eval.Rebasable.bind (.consult fun _ hstore => hstore.lookUp name hname)
        fun found _ => .pure ⟨found, rfl⟩

/-- So is the parser on which a method is called. -/
theorem Target.rebasable_parser {target : Target} (h : target.Reaches named (permit language))
    (hnamed : session.languages.get? named = some language) (method : String) :
    (target.parser engine session method).Rebasable permit language (Parser.Discreet permit) := by
  refine Eval.Rebasable.bind (target.rebasable_resolve h hnamed) ?_
  rintro _ ⟨found, rfl⟩
  refine .consult fun _ _ => .refl fun p hp => ?_
  cases found with
  | parser cell =>
    cases hp
    exact .lazy cell
  | value | table | other => cases hp

/-- A step on the language is performed alike. -/
theorem Step.rebasable_perform (hengine : engine.Rebasable permit language) {step : Step}
    (h : step.Reaches named (permit language))
    (hnamed : session.languages.get? named = some language) :
    (step.perform engine session).Rebasable permit language
      fun done => done.2.languages = session.languages := by
  -- whether an answer can be written does not depend on the store
  have hwritten : ∀ {computation : Eval (Answer × Session)},
      computation.Rebasable permit language (fun done => done.2.languages = session.languages) →
      (computation >>= fun done => if done.1.isWritable then Pure.pure done
        else Eval.raise .numberTooLong).Rebasable permit language
        fun done => done.2.languages = session.languages := by
    intro computation hcomputation
    refine hcomputation.bind fun done hdone => ?_
    split
    · exact .pure hdone
    · exact .raise _
  refine hwritten ?_
  -- a step that only answers leaves the session as it is
  have hanswer : ∀ {answer : Eval Answer}, answer.Rebasable permit language (fun _ => True) →
      (answer >>= fun answer => Pure.pure (answer, session)).Rebasable permit language
        fun done => done.2.languages = session.languages :=
    fun hanswer => hanswer.bind fun _ _ => .pure rfl
  cases step with
  | run target source start =>
    refine hanswer (Eval.Rebasable.bind (target.rebasable_parser h hnamed "run") fun p hp => ?_)
    exact Eval.Rebasable.bind (hengine.run source start hp) fun _ _ => .pure trivial
  | parse target source =>
    refine hanswer (Eval.Rebasable.bind (target.rebasable_parser h hnamed "run") fun p hp => ?_)
    exact Eval.Rebasable.bind (hengine.parse hp source) fun _ _ => .pure trivial
  | tryParse target source =>
    refine hanswer (Eval.Rebasable.bind (target.rebasable_parser h hnamed "skip") fun p hp => ?_)
    exact Eval.Rebasable.bind (hengine.tryParse hp source) fun _ _ => .pure trivial
  | build target =>
    refine Eval.Rebasable.bind (target.rebasable_resolve h hnamed) ?_
    rintro _ ⟨found, rfl⟩
    cases found with
    | parser cell => exact Eval.Rebasable.bind (hengine.build cell) fun _ _ => .pure rfl
    | value | table | other => exact .raise _
  | inspect target =>
    refine hanswer (Eval.Rebasable.bind (target.rebasable_resolve h hnamed) ?_)
    rintro _ ⟨found, rfl⟩
    cases found with
    | parser cell =>
      exact Eval.Rebasable.bind (.read fun store _ => store.cellAt_rebase language cell)
        fun _ _ => .pure trivial
    | value v => exact .pure trivial
    | table | other => exact .raise _
  | names other =>
    obtain rfl : other = named := h
    refine hanswer (Eval.Rebasable.bind (rebasable_named hnamed) ?_)
    rintro _ rfl
    refine Eval.Rebasable.bind (P := fun _ => True) (.consult fun _ hstore => ?_)
      fun _ _ => .pure trivial
    rw [hstore.ruleNames]
    exact .refl fun _ _ => trivial
  | state other rule =>
    obtain rfl : other = named := h
    refine hanswer (Eval.Rebasable.bind (rebasable_named hnamed) ?_)
    rintro _ rfl
    exact Eval.Rebasable.bind (.consult fun _ hstore => hstore.ruleState rule)
      fun _ _ => .pure trivial
  -- the other steps are not on a language
  | _ => exact h.elim

end

/-! ## Steps one after another -/

/-- Outcomes with the same answer, or with errors that are the same but for a class, and with the
same notes and entries in the log. -/
structure Outcome.Near (outcome outcome' : Outcome) : Prop where
  /-- The step ended nearly the same. -/
  ended : Nearly (fun _ => True) outcome.ended outcome'.ended
  /-- The notes are the same. -/
  events : outcome'.events = outcome.events
  /-- So are the entries in the log. -/
  records : outcome'.records = outcome.records

/-- What a parser gave in a step. -/
def Outcome.result? (outcome : Outcome) : Option Result :=
  match outcome.ended with
  | .ok (.result result) => some result
  | _ => none

theorem Outcome.Near.result? {outcome outcome' : Outcome} (h : outcome.Near outcome') :
    outcome'.result? = outcome.result? := by
  obtain ⟨ended, events, records⟩ := outcome
  obtain ⟨ended', events', records'⟩ := outcome'
  cases h.ended with
  | ok _ => rfl
  | error _ => rfl

/-- Outcomes that are near to each other have the same results. -/
theorem results_eq {outcomes outcomes' : Option (List Outcome)}
    (h : Option.Rel (List.Forall₂ Outcome.Near) outcomes outcomes') :
    outcomes'.map (·.map (·.result?)) = outcomes.map (·.map (·.result?)) := by
  cases h with
  | none => rfl
  | some h =>
    refine congrArg some ?_
    induction h with
    | nil => rfl
    | cons hfirst _ ih => exact congrArg₂ List.cons hfirst.result? ih

/-- Steps on a language have the same outcomes if the language is taken for another one. -/
theorem rebasable_play {permit : Permit} {language : InstanceId} {named : String} {steps : List Step}
    (hsteps : ∀ step ∈ steps, step.Reaches named (permit language)) {session : Session}
    (hnamed : session.languages.get? named = some language) {store : Store}
    (hstore : store.Rebasable permit language) (depth : Nat) :
    Option.Rel (List.Forall₂ Outcome.Near) (play (Engine.upTo depth) session store steps)
      (play (Engine.upTo depth) session (store.rebase language) steps) := by
  induction steps generalizing session store with
  | nil => exact .some .nil
  | cons step rest ih =>
    -- to clear the log and to take the language for another one can be done in either order
    have hcleared : store.cleared.Rebasable permit language :=
      hstore.of_instances_eq (Store.adds_of_instances_eq rfl rfl rfl rfl rfl rfl) rfl
    have hstep := Step.rebasable_perform (Engine.rebasable_upTo permit language depth)
      (hsteps step List.mem_cons_self) hnamed _ hcleared
    have hrest := fun other hother => hsteps other (List.mem_cons_of_mem _ hother)
    unfold play
    have hclear : (store.rebase language).cleared = store.cleared.rebase language := rfl
    rw [hclear]
    rcases hstep.eq_or with ⟨e, e'⟩ | ⟨⟨ended, after⟩, ⟨ended', after'⟩, e, e', hended, rfl, hafter⟩
    · rw [e, e']
      exact .none
    · rw [e, e']
      cases hended with
      | ok hlanguages =>
        exact (ih hrest (hlanguages ▸ hnamed) hafter).map fun _ _ => .cons ⟨.ok trivial, rfl, rfl⟩
      | error hcause =>
        exact (ih hrest hnamed hafter).map fun _ _ => .cons ⟨.error hcause, rfl, rfl⟩

end Session

end Descent
