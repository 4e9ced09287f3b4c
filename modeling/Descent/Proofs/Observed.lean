import Descent.Proofs.Alike.Sparing
import Descent.Session

/-! # Steps on languages

What can be done with a language from outside is to run its rules, to parse with them, to have them
made, to look at them and to ask for their names, their stages and the text of the language. On
stores that are in step, all of this is answered alike.

* **`Session.Step.language?`** — the language that a step is about.
* **`Session.Step.observe`** — what a step answers. It is answered as if nothing had been built
  before, so that a building does not say whether its parser is that of an earlier one.
* **`Session.Step.observe_below`** — the answer does not depend on the depth.
* **`Session.Step.observe_mimics`** — main statement: on stores in step with the same log, a step is
  answered alike and leaves the same entries in the log. -/

namespace Descent

/-- Rules of the same name of paired languages are in the same stage. -/
theorem Store.InStep.ruleState {leeway : Leeway} {pairs : Pairing} {store store' : Store}
    (h : store.InStep leeway pairs store') (hstages : ¬ leeway.stages)
    {language language' : InstanceId}
    (hlanguage : (Reference.language language, Reference.language language') ∈ pairs)
    (name : String) : store'.ruleState language' name = store.ruleState language name := by
  unfold Store.ruleState
  rw [h.alike.operation hlanguage]
  simp only [bind, Except.bind, pure, Except.pure]
  rcases (h.alike.getRule hlanguage name).eq_or with ⟨cell, cell', e, e', hcell⟩ | ⟨cause, e, e'⟩
  · rw [e, e']
    simp only [(inStep hstages).state h hstages cell cell' hcell]
  · rw [e, e']

namespace Session

/-- A session that knows languages by name. -/
def naming (languages : Table InstanceId) : Session := ⟨languages, default, []⟩

/-- The language of which a target is a rule. -/
def Target.language? : Target → Option String
  | .rule language _ _ => some language
  | .ref _ => none
  | .grammar _ => none

/-- The language that a step is about: a rule of it is run, used to parse, made or looked at, or it is
asked for its rules. -/
def Step.language? : Step → Option String
  | .run target _ _ => target.language?
  | .parse target _ => target.language?
  | .tryParse target _ => target.language?
  | .build target => target.language?
  | .inspect target => target.language?
  | .names language => some language
  | .state language _ => some language
  | .shown language => some language
  | _ => none

/-- What a step answers. -/
def Step.observe (languages : Table InstanceId) (step : Step) (depth : Nat) : Eval Answer := do
  let (answer, _) ← step.perform (Engine.upTo depth) (naming languages)
  return answer

/-- An answer, if it can be written. -/
def written (answer : Answer) : Eval Answer :=
  if answer.isWritable then pure answer else Eval.raise .numberTooLong

/-- What a step answers before it is known whether that can be written. -/
def Step.reply (languages : Table InstanceId) (engine : Engine Eval) : Step → Eval Answer
  | .build target => do
    match (← target.resolve engine (naming languages)) with
    | .parser (.lazy cell) => do
      let _ ← engine.build cell
      return .built false
    | other => Eval.raise (.noMethod other.kind "build")
  | step => step.answer engine (naming languages)

/-- A step answers what it replies, unless that cannot be written. -/
theorem Step.observe_eq {step : Step} {name : String} (h : step.language? = some name)
    (languages : Table InstanceId) (depth : Nat) :
    step.observe languages depth = step.reply languages (Engine.upTo depth) >>= written := by
  have hwritten : ∀ answer session, ((if answer.isWritable then pure (answer, session)
      else Eval.raise .numberTooLong : Eval (Answer × Session)) >>= fun done => pure done.1)
        = written answer := by
    intro answer session
    unfold written
    split
    · rfl
    · rfl
  cases step with
  | build target =>
    simp only [observe, perform, execute, reply, buildTarget, bind_assoc]
    refine congrArg _ (funext fun object => ?_)
    cases object with
    | parser p =>
      cases p with
      | lazy cell => simp [hwritten, naming]
      | _ => rfl
    | _ => rfl
  | run | parse | tryParse | inspect | names | state | shown =>
    simp only [observe, perform, execute, reply, bind_assoc, pure_bind]
    exact congrArg _ (funext fun answer => hwritten answer _)
  | _ => cases h

/-! ## Depth -/

section Depth

variable {depth depth' : Nat} {step : Step} {name : String}

/-- What a target is depends on no engine if it is the rule of a language. -/
theorem Target.resolve_below {target : Target} (h : target.language? = some name)
    (languages : Table InstanceId) (engine engine' : Engine Eval) :
    (target.resolve engine (naming languages)).Below
      (target.resolve engine' (naming languages)) := by
  cases target with
  | rule language rule direct => exact .refl _
  | ref | grammar => cases h

/-- So is the parser on which a method is called. -/
theorem Target.parser_below {target : Target} (h : target.language? = some name)
    (languages : Table InstanceId) (engine engine' : Engine Eval) (method : String) :
    (target.parser engine (naming languages) method).Below
      (target.parser engine' (naming languages) method) :=
  .bind (resolve_below h languages engine engine') fun _ => .refl _

/-- What a step answers at some depth, it answers at every greater depth. -/
theorem Step.observe_below (h : step.language? = some name) (languages : Table InstanceId)
    (hle : depth ≤ depth') :
    (step.observe languages depth).Below (step.observe languages depth') := by
  have hbelow := Engine.below_upTo hle
  rw [observe_eq h, observe_eq h]
  refine .bind ?_ fun answer => .refl (written answer)
  cases step with
  | run target source start =>
    exact .bind (target.parser_below h languages _ _ _) fun p =>
      .bind (hbelow.run p source start) fun _ => .refl _
  | parse target source =>
    exact .bind (target.parser_below h languages _ _ _) fun p =>
      .bind (hbelow.parse Engine.compatible_below p source) fun _ => .refl _
  | tryParse target source =>
    exact .bind (target.parser_below h languages _ _ _) fun p =>
      .bind (hbelow.tryParse Engine.compatible_below p source) fun _ => .refl _
  | build target =>
    refine .bind (target.resolve_below h languages _ _) fun object => ?_
    cases object with
    | parser p =>
      cases p with
      | lazy cell => exact .bind (hbelow.build cell) fun _ => .refl _
      | _ => exact .refl _
    | _ => exact .refl _
  | inspect target => exact .bind (target.resolve_below h languages _ _) fun _ => .refl _
  | names | state | shown => exact .refl _
  | _ => cases h

end Depth

/-! ## Stores in step -/

section Sparing

open Eval

variable {base : Store} {spared : Set CellId} {pairs : Pairing} {languages : Table InstanceId}
  {language : InstanceId} {name : String} {step : Step}

/-- Paired attributes are paired lazy parsers, the same value, or of the same kind. -/
theorem found_cases {found found' : Object CellId}
    (h : found.Pairs pairs (CellId.Pairs pairs) found') :
    (∃ cell cell', found = .parser cell ∧ found' = .parser cell' ∧ cell.Pairs pairs cell') ∨
      (∃ v, found = .value v ∧ found' = .value v) ∨
      (∃ rules rules', found = .table rules ∧ found' = .table rules') ∨
      ∃ kind shown, found = .other kind shown ∧ found' = .other kind shown := by
  cases found with
  | parser cell =>
    cases found' with
    | parser cell' => exact .inl ⟨cell, cell', rfl, rfl, h⟩
    | value | table | other => exact h.elim
  | value v =>
    cases found' with
    | value v' => exact .inr (.inl ⟨v, rfl, congrArg _ h⟩)
    | parser | table | other => exact h.elim
  | table rules =>
    cases found' with
    | table rules' => exact .inr (.inr (.inl ⟨rules, rules', rfl, rfl⟩))
    | parser | value | other => exact h.elim
  | other kind shown =>
    cases found' with
    | other kind' shown' =>
      obtain ⟨rfl, rfl⟩ := h
      exact .inr (.inr (.inr ⟨_, _, rfl, rfl⟩))
    | parser | value | table => exact h.elim

/-- A language is found by its name. -/
theorem named_mimics (hname : languages.get? name = some language) :
    Mimics (sparing base spared) pairs (fun _ found found' => found = language ∧ found' = language)
      (Eval.consult fun _ => (naming languages).languageNamed name)
      fun _ => Eval.consult fun _ => (naming languages).languageNamed name := by
  refine .consult fun _ _ _ => ?_
  unfold languageNamed naming
  rw [hname]
  exact .ok ⟨rfl, rfl⟩

/-- A language is asked for something that is the same on stores that fit. -/
theorem asked_mimics {α : Type} (view : Store → InstanceId → Except Raised α) {reply : α → Answer}
    (hname : languages.get? name = some language)
    (hview : ∀ larger store store', pairs ⊆ larger →
      (sparing base spared).fits larger store store' → view store' language = view store language) :
    let asked : Eval Answer := do
      let language ← Eval.consult fun _ => (naming languages).languageNamed name
      return reply (← Eval.consult (view · language))
    Mimics (sparing base spared) pairs (fun _ => Eq) asked fun _ => asked := by
  refine Mimics.bind (named_mimics hname) ?_
  rintro larger _ _ hsub ⟨rfl, rfl⟩
  refine Mimics.bind (R := fun _ => Eq) (.consult fun store store' hfits => ?_)
    fun _ _ _ _ heq => .pure (congrArg _ heq)
  rw [hview larger store store' hsub hfits]
  exact .refl (fun _ => rfl) _

/-- Paired attributes are found under paired languages. -/
theorem Target.resolve_mimics {target : Target} (h : target.language? = some name)
    (hname : languages.get? name = some language)
    (hlanguage : (Reference.language language, Reference.language language) ∈ pairs)
    (engine : Engine Eval) (family : Nat → Engine Eval) :
    Mimics (sparing base spared) pairs
      (fun larger object object' => ∃ found found' : Object CellId, object = found.map .lazy ∧
        object' = found'.map .lazy ∧ found.Pairs larger (CellId.Pairs larger) found')
      (target.resolve engine (naming languages))
      fun depth => target.resolve (family depth) (naming languages) := by
  cases target with
  | ref | grammar => cases h
  | rule named rule direct =>
    cases h
    refine Mimics.bind (named_mimics hname) ?_
    rintro larger _ _ hsub ⟨rfl, rfl⟩
    cases direct with
    | true =>
      refine Mimics.bind (R := fun larger cell cell' => cell.Pairs larger cell')
        (.consult fun _ _ hfits => (hfits.inStep.alike.getRule (hsub hlanguage) rule).outcomes) ?_
      exact fun _ cell cell' _ hcell => .pure ⟨.parser cell, .parser cell', rfl, rfl, hcell⟩
    | false =>
      refine Mimics.bind
        (R := fun larger found found' => found.Pairs larger (CellId.Pairs larger) found')
        (.consult fun _ _ hfits => (hfits.inStep.alike.lookUp (hsub hlanguage) rule).outcomes) ?_
      exact fun _ found found' _ hfound => .pure ⟨found, found', rfl, rfl, hfound⟩

/-- A method is called on paired lazy parsers, or on what has none. -/
theorem Target.parser_mimics {target : Target} (h : target.language? = some name)
    (hname : languages.get? name = some language)
    (hlanguage : (Reference.language language, Reference.language language) ∈ pairs)
    (engine : Engine Eval) (family : Nat → Engine Eval) (method : String) :
    Mimics (sparing base spared) pairs (Parser.Alike .exact)
      (target.parser engine (naming languages) method)
      fun depth => target.parser (family depth) (naming languages) method := by
  refine Mimics.bind (target.resolve_mimics h hname hlanguage engine family) ?_
  rintro larger _ _ hsub ⟨found, found', rfl, rfl, hfound⟩
  refine .consult fun _ _ _ => ?_
  rcases found_cases hfound with ⟨cell, cell', rfl, rfl, hcell⟩ | ⟨v, rfl, rfl⟩
    | ⟨rules, rules', rfl, rfl⟩ | ⟨kind, shown, rfl, rfl⟩
  · exact .ok (.lazy hcell)
  · exact .error (.same _)
  · exact .error (.same _)
  · exact .error (.same _)

/-- What is parsed on stores that fit is the same, and so is the log. -/
theorem parse_mimics {p p' : Parser} (hp : Parser.Alike .exact pairs p p') (source : Source)
    (depth : Nat) :
    Mimics (sparing base spared) pairs (fun _ => Eq) ((Engine.upTo depth).parse p source)
      fun depth => (Engine.upTo depth).parse p' source := by
  have hengine := Engine.mimics_stepwise (stepwise_sparing base spared) depth
  refine Mimics.bind (hengine.run source .start hp) fun larger result result' _ hresult => ?_
  obtain rfl := hresult.eq not_false
  refine Mimics.bind (R := fun _ _ _ => True) (.attempt fun store store' hfits => ?_)
    fun _ _ _ _ _ => .pure rfl
  have hlog := (stepwise_sparing base spared).log hfits
  unfold Store.logResult
  rw [hfits.logging]
  cases store.logging with
  | false => exact .inl ⟨larger, (), store, (), store', .rfl, rfl, rfl, hfits, trivial⟩
  | true =>
    cases Record.ofResult source result with
    | error cause => exact .inr ⟨cause, rfl, rfl⟩
    | ok record => exact .inl ⟨larger, (), _, (), _, .rfl, rfl, rfl, hlog record, trivial⟩

/-- So it is if all of a source has to be parsed. -/
theorem tryParse_mimics {p p' : Parser} (hp : Parser.Alike .exact pairs p p') (source : Source)
    (depth : Nat) :
    Mimics (sparing base spared) pairs (fun _ => Eq) ((Engine.upTo depth).tryParse p source)
      fun depth => (Engine.upTo depth).tryParse p' source := by
  refine Mimics.bind (parse_mimics (hp.skip .eof) source depth) fun larger result result' _ heq => ?_
  obtain rfl := heq
  cases result with
  | matched stop value => exact .pure rfl
  | failed failure => exact .raise (.same _)

/-- On stores that fit, what a step answers is the same. -/
theorem Step.observe_mimics (h : step.language? = some name)
    (hname : languages.get? name = some language)
    (hlanguage : (Reference.language language, Reference.language language) ∈ pairs) (depth : Nat) :
    Mimics (sparing base spared) pairs (fun _ => Eq) (step.observe languages depth)
      (step.observe languages) := by
  have hengine := Engine.mimics_stepwise (stepwise_sparing base spared) depth
  have hobserve : step.observe languages
      = fun depth => step.reply languages (Engine.upTo depth) >>= written :=
    funext fun depth => observe_eq h languages depth
  rw [hobserve]
  -- answers that are the same can be written, or not, so it is enough to compare the replies
  suffices hreply : Mimics (sparing base spared) pairs (fun _ => Eq)
      (step.reply languages (Engine.upTo depth))
      fun depth => step.reply languages (Engine.upTo depth) by
    refine Mimics.bind hreply fun larger answer answer' _ heq => ?_
    obtain rfl := heq
    unfold written
    split
    · exact .pure rfl
    · exact .raise (.same _)
  cases step with
  | run target source start =>
    refine Mimics.bind (target.parser_mimics h hname hlanguage _ _ "run") fun larger p p' _ hp => ?_
    refine Mimics.bind (hengine.run source start hp) fun _ result result' _ hresult => .pure ?_
    rw [hresult.eq not_false]
  | parse target source =>
    refine Mimics.bind (target.parser_mimics h hname hlanguage _ _ "run") fun larger p p' _ hp => ?_
    exact Mimics.bind (parse_mimics hp source depth) fun _ _ _ _ heq => .pure (congrArg _ heq)
  | tryParse target source =>
    refine Mimics.bind (target.parser_mimics h hname hlanguage _ _ "skip") fun larger p p' _ hp => ?_
    exact Mimics.bind (tryParse_mimics hp source depth) fun _ _ _ _ heq => .pure (congrArg _ heq)
  | build target =>
    refine Mimics.bind (target.resolve_mimics h hname hlanguage _ _) ?_
    rintro larger _ _ hsub ⟨found, found', rfl, rfl, hfound⟩
    rcases found_cases hfound with ⟨cell, cell', rfl, rfl, hcell⟩ | ⟨v, rfl, rfl⟩
      | ⟨rules, rules', rfl, rfl⟩ | ⟨kind, shown, rfl, rfl⟩
    · exact Mimics.bind (hengine.build hcell) fun _ _ _ _ _ => .pure rfl
    · exact .raise (.same _)
    · exact .raise (.same _)
    · exact .raise (.same _)
  | inspect target =>
    refine Mimics.bind (target.resolve_mimics h hname hlanguage _ _) ?_
    rintro larger _ _ hsub ⟨found, found', rfl, rfl, hfound⟩
    rcases found_cases hfound with ⟨cell, cell', rfl, rfl, hcell⟩ | ⟨v, rfl, rfl⟩
      | ⟨rules, rules', rfl, rfl⟩ | ⟨kind, shown, rfl, rfl⟩
    · refine Mimics.bind (R := fun _ at_ at' => Answer.lazy at_.shown at_.name at_.state
          = .lazy at'.shown at'.name at'.state) (.read fun store store' hfits => ?_)
        fun _ _ _ _ heq => .pure heq
      obtain ⟨hstate, hshown⟩ := (sparing base spared).inspected hfits not_false hcell
      rw [hstate, hshown, hfits.inStep.alike.cellAt_name hcell]
    · exact .pure rfl
    · exact .raise (.same _)
    · exact .raise (.same _)
  | names named =>
    cases h
    exact asked_mimics Store.ruleNames hname fun _ _ _ hsub hfits =>
      hfits.inStep.alike.ruleNames (hsub hlanguage)
  | state named rule =>
    cases h
    exact asked_mimics (·.ruleState · rule) hname fun _ _ _ hsub hfits =>
      hfits.inStep.ruleState not_false (hsub hlanguage) rule
  | shown named =>
    cases h
    exact asked_mimics Store.shownLanguage hname fun _ _ _ hsub hfits =>
      hfits.inStep.alike.shownLanguage (hsub hlanguage)
  -- the other steps are not on a language
  | _ => cases h

end Sparing

end Session

end Descent
