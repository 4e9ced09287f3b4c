import Descent.Proofs.Alike.Mimics
import Descent.Proofs.Alike.Results
import Descent.Proofs.Scripts

/-! # Engines that mimic others

Whatever is alike is done alike by engines that run the parsers in it alike, one level further down.

* **`Engine.Mimics`** — a family of engines does with what is alike as an engine does.
* **`Engine.Mimics.perform`**, **`Engine.Mimics.step`** — main statements: then it does so with
  scripts, and with parsers one level up. -/

namespace Descent

/-- A family of engines does with what is alike as an engine does. -/
structure Engine.Mimics {leeway : Leeway} (regime : Regime leeway) (engine : Engine Eval)
    (family : Nat → Engine Eval) : Prop where
  /-- The results of parsers that are alike are. -/
  run : ∀ {pairs : Pairing} {p p' : Parser} (source : Source) (place : Position),
    Parser.Alike leeway pairs p p' →
      Eval.Mimics regime pairs (fun _ => Result.Alike leeway) (engine.run p source place)
        fun depth => (family depth).run p' source place
  /-- The parsers of paired lazy parsers are alike. -/
  build : ∀ {pairs : Pairing} {cell cell' : CellId}, cell.Pairs pairs cell' →
    Eval.Mimics regime pairs (Parser.Alike leeway) (engine.build cell)
      fun depth => (family depth).build cell'

/-! ## Scripts -/

namespace Engine.Mimics

open Eval

variable {leeway : Leeway} {regime : Regime leeway} {engine : Engine Eval}
  {family : Nat → Engine Eval}

/-- Scripts that are alike are performed alike. -/
theorem perform (h : engine.Mimics regime family) {pairs larger : Pairing}
    {action action' : Action Yield} (hsub : pairs ⊆ larger) :
    Action.Alike leeway pairs action action' →
      Eval.Mimics regime larger (Yield.Alike leeway) (engine.perform action)
        fun depth => (family depth).perform action'
  | .raise cause => .raise (.same cause)
  | .parser hp => .pure (Action.Alike.parser (hp.mono hsub))
  | .nonParser hobject => .pure (Action.Alike.nonParser (hobject.mono hsub fun _ _ h => h))
  | .result hresult => .pure (Action.Alike.result hresult)
  | .note hnext =>
      Mimics.bind (.update fun _ _ hfits => regime.note hfits) fun _ _ _ hsub' _ =>
        h.perform (hsub.trans hsub') hnext
  | .run hparser hnext =>
      Mimics.bind (h.run _ _ (hparser.mono hsub)) fun _ result result' hsub' hresult =>
        h.perform (hsub.trans hsub') (hnext result result' hresult)
  | .build hcell hnext =>
      Mimics.bind (h.build (hsub hcell)) fun _ _ _ hsub' _ => h.perform (hsub.trans hsub') hnext
  | .defer hhome hmake hquiet hnext =>
      Mimics.bind (R := fun larger cell cell' => cell.Pairs larger cell')
        (.draw fun store store' hfits => ⟨_, Set.subset_insert _ _,
          regime.addCell hfits (hsub hhome) ⟨hmake.mono hsub, hquiet⟩, Set.mem_insert _ _⟩)
        fun largest cell cell' hsub' hcell =>
          h.perform .rfl (hnext largest cell cell' (hsub.trans hsub') hcell)
  | .inspect hstages hcell hnext =>
      Mimics.bind
        (R := fun _ found found' => found'.state = found.state ∧ found'.shown = found.shown)
        (.read fun store store' hfits => regime.inspected hfits hstages (hsub hcell))
        fun largest found found' hsub' hfound => by
          obtain ⟨hstate, hshown⟩ := hfound
          simp only [hstate, hshown]
          exact h.perform (hsub.trans hsub') (hnext found.state found.shown)
  -- where stages may differ, scripts go on alike whatever they are told
  | .inspectAny hnext =>
      Mimics.bind (R := fun _ _ _ => True) (.read fun _ _ _ => trivial)
        fun largest found found' hsub' _ =>
          h.perform (hsub.trans hsub') (hnext found.state found.shown found'.state found'.shown)
  | .lookUp hlanguage hnext =>
      Mimics.bind (R := fun larger found found' => found.Pairs larger (CellId.Pairs larger) found')
        (.consult fun _ _ hfits => ((regime.alike hfits).lookUp (hsub hlanguage) _).outcomes)
        fun largest found found' hsub' hfound =>
          h.perform .rfl (hnext largest found found' (hsub.trans hsub') hfound)
  | .rule hlanguage hnext =>
      Mimics.bind (R := fun larger cell cell' => cell.Pairs larger cell')
        (.consult fun _ _ hfits => ((regime.alike hfits).getRule (hsub hlanguage) _).outcomes)
        fun largest cell cell' hsub' hcell =>
          h.perform .rfl (hnext largest cell cell' (hsub.trans hsub') hcell)
  | .create hclass hnames hrules hquiet hnext =>
      Mimics.bind (R := fun larger language language' =>
          (Reference.language language, Reference.language language') ∈ larger ∧
            (Reference.home language, Reference.home language') ∈ larger)
        (.attempt fun store store' hfits =>
          have hadded := Store.RulesAlike.of_zip hnames hrules hquiet
          regime.created hfits (hsub hclass) (hadded.mono hsub))
        fun largest language language' hsub' hlanguage =>
          h.perform .rfl (hnext largest language language' (hsub.trans hsub') hlanguage.1
            hlanguage.2)
  | .fetch hname hnext =>
      Mimics.bind (R := fun larger found found' => found.Pairs larger (Handle.Pairs larger) found')
        (.consult fun _ _ hfits => ((regime.alike hfits).shelved _ (hsub hname)).outcomes)
        fun largest found found' hsub' hfound =>
          h.perform .rfl (hnext largest found found' (hsub.trans hsub') hfound)
  | .count hstages hnext =>
      Mimics.bind (R := fun _ before before' => before' = before)
        (.draw fun _ _ hfits => ⟨_, .rfl, regime.count hfits fun _ => rfl,
          regime.counts hfits hstages _⟩)
        fun largest before before' hsub' hbefore => by
          rw [hbefore]
          exact h.perform (hsub.trans hsub') (hnext before)
  | .countAny hstages hnext =>
      Mimics.bind (R := fun _ _ _ => True)
        (.draw fun _ _ hfits => ⟨_, .rfl, regime.count hfits (absurd hstages), trivial⟩)
        fun largest before before' hsub' _ => h.perform (hsub.trans hsub') (hnext before before')

/-- Functions that are alike make the same values. -/
theorem values (h : engine.Mimics regime family) {pairs : Pairing} {action action' : Action Value}
    (halike : Action.Alike leeway pairs action.values action'.values) :
    Eval.Mimics regime pairs (fun _ => Eq) (engine.perform action)
      fun depth => (family depth).perform action' := by
  have hyields := h.perform .rfl halike
  simp only [perform_bind] at hyields
  refine (Mimics.unwrap ?_ hyields).imp fun _ _ _ => Yield.Alike.value
  rintro v v' ⟨⟩
  rfl

/-- Functions that are alike make objects that are alike. -/
theorem objects (h : engine.Mimics regime family) {pairs : Pairing}
    {action action' : Action (Object Parser)}
    (halike : Action.Alike leeway pairs action.objects action'.objects) :
    Eval.Mimics regime pairs (fun larger => Object.Pairs larger (Parser.Alike leeway larger))
      (engine.perform action) fun depth => (family depth).perform action' := by
  have hyields := h.perform .rfl halike
  simp only [perform_bind] at hyields
  refine (Mimics.unwrap ?_ hyields).imp fun _ _ _ => Yield.Alike.object
  rintro object object' ⟨⟩
  rfl

/-- Parsers written by hand that are alike find results that are alike. -/
theorem results (h : engine.Mimics regime family) {pairs : Pairing} {action action' : Action Result}
    (halike : Action.Alike leeway pairs action.results action'.results) :
    Eval.Mimics regime pairs (fun _ => Result.Alike leeway) (engine.perform action)
      fun depth => (family depth).perform action' := by
  have hyields := h.perform .rfl halike
  simp only [perform_bind] at hyields
  refine (Mimics.unwrap ?_ hyields).imp fun _ _ _ => Yield.Alike.result
  rintro result result' ⟨⟩
  rfl

/-! ## Parsers -/

/-- Sequences that are alike are so part by part. -/
theorem parts_alike {pairs : Pairing} {parts parts' : List Parser} :
    Parser.Alike leeway pairs (.seq parts) (.seq parts') →
      List.Forall₂ (Parser.Alike leeway pairs) parts parts'
  | .seqNil => .nil
  | .seqCons hpart hparts => .cons hpart (parts_alike hparts)

/-- Parsers that are alike one by one are run alike in turn. -/
theorem sequence (h : engine.Mimics regime family) {pairs larger : Pairing} (hsub : pairs ⊆ larger)
    (source : Source) {parts parts' : List Parser}
    (hparts : List.Forall₂ (Parser.Alike leeway pairs) parts parts') (values : List Value)
    (place : Position) :
    Eval.Mimics regime larger (fun _ => Result.Alike leeway)
      (engine.sequence source parts values place)
      fun depth => (family depth).sequence source parts' values place := by
  induction hparts generalizing larger values place with
  | nil => exact .pure (.matched _ _)
  | cons hpart _ ih =>
    refine Mimics.bind (h.run source place (hpart.mono hsub)) ?_
    intro largest result result' hsub' hresult
    cases hresult with
    | matched stop value => exact ih (hsub.trans hsub') (value :: values) stop
    | failed hlabels => exact .pure (.failed hlabels)

section Combinators

variable (h : engine.Mimics regime family) {pairs : Pairing} (source : Source) (place : Position)

include h

/-- Choices between parsers that are alike. -/
theorem or {first first' second second' : Parser}
    (hfirst : Parser.Alike leeway pairs first first')
    (hsecond : Parser.Alike leeway pairs second second') :
    Eval.Mimics regime pairs (fun _ => Result.Alike leeway)
      (engine.step (.or first second) source place)
      fun depth => (family depth).step (.or first' second') source place := by
  refine Mimics.bind (h.run source place hfirst) fun larger result result' hsub hresult => ?_
  cases hresult with
  | matched stop value => exact .pure (.matched stop value)
  | failed hlabels =>
    refine Mimics.bind (h.run source place (hsecond.mono hsub)) fun _ other other' _ hother => ?_
    cases hother with
    | matched stop value => exact .pure (.matched stop value)
    | failed hlabels' => exact .pure (.merge hlabels hlabels')

/-- Functions that are alike, applied to the values of parsers that are alike. -/
theorem map {of of' : Parser} {fn fn' : Value → Action Value}
    (hof : Parser.Alike leeway pairs of of')
    (hfn : ∀ value, Action.Alike leeway pairs (fn value).values (fn' value).values) :
    Eval.Mimics regime pairs (fun _ => Result.Alike leeway) (engine.step (.map of fn) source place)
      fun depth => (family depth).step (.map of' fn') source place := by
  refine Mimics.bind (h.run source place hof) fun larger result result' hsub hresult => ?_
  cases hresult with
  | failed hlabels => exact .pure (.failed hlabels)
  | matched stop value =>
    refine Mimics.bind (h.values ((hfn value).mono hsub)) fun _ v v' _ hv => ?_
    rw [hv]
    exact .pure (.matched stop v')

/-- Functions that are alike choose what comes after parsers that are alike. If it is no parser, the
error shows it. -/
theorem chain {of of' : Parser} {fn fn' : Value → Action (Object Parser)}
    (hof : Parser.Alike leeway pairs of of')
    (hfn : ∀ value, Action.Alike leeway pairs (fn value).objects (fn' value).objects) :
    Eval.Mimics regime pairs (fun _ => Result.Alike leeway)
      (engine.step (.chain of fn) source place)
      fun depth => (family depth).step (.chain of' fn') source place := by
  refine Mimics.bind (h.run source place hof) fun larger result result' hsub hresult => ?_
  cases hresult with
  | failed hlabels => exact .pure (.failed hlabels)
  | matched stop value =>
    refine Mimics.bind (h.objects ((hfn value).mono hsub)) fun largest object object' _ ho => ?_
    rcases ho.eq_or with ⟨p, p', rfl, rfl, hp⟩ | ⟨hne, hne', hobject⟩
    · exact h.run source stop hp
    · have hraise : Eval.Mimics regime largest (fun _ => Result.Alike leeway)
          (Eval.consult (·.shownObject object) >>= fun shown =>
            Eval.raise (.chainedNonParser shown))
          fun _ => Eval.consult (·.shownObject object') >>= fun shown =>
            Eval.raise (.chainedNonParser shown) := by
        refine Mimics.bind (R := fun _ => SameText leeway) (.consult fun store store' hfits =>
          (regime.alike hfits).shownObject (regime.state hfits) hobject) ?_
        intro _ shown shown' _ hshown
        exact .raise (.chained hshown)
      cases object with
      | parser p => exact absurd rfl (hne p)
      | value | table | other =>
        cases object' with
        | parser p' => exact absurd rfl (hne' p')
        | value | table | other => exact hraise

/-- Parsers that are alike, repeated. -/
theorem many0 {of of' : Parser} (hof : Parser.Alike leeway pairs of of') :
    Eval.Mimics regime pairs (fun _ => Result.Alike leeway) (engine.step (.many0 of) source place)
      fun depth => (family depth).step (.many0 of') source place := by
  refine Mimics.bind (h.run source place hof) fun larger result result' hsub hresult => ?_
  cases hresult with
  | failed hlabels => exact .pure (.matched place _)
  | matched stop value =>
    by_cases still : stop.index = place.index
    · simp only [still, if_true]
      exact .pure (.matched place _)
    · simp only [still, if_false]
      refine Mimics.bind (h.run source stop (.many0 (hof.mono hsub))) fun _ rest rest' _ hrest => ?_
      cases hrest with
      | matched stop' values => exact .pure (.matched stop' _)
      | failed hlabels => exact .pure (.failed hlabels)

/-- Paired lazy parsers. -/
theorem lazy {cell cell' : CellId} (hcell : cell.Pairs pairs cell') :
    Eval.Mimics regime pairs (fun _ => Result.Alike leeway) (engine.step (.lazy cell) source place)
      fun depth => (family depth).step (.lazy cell') source place :=
  Mimics.bind (h.build hcell) fun _ _ _ _ hp => h.run source place hp

/-- Paired parsers that were put aside. -/
theorem kept {number number' : Nat}
    (hnumber : (Reference.kept number, Reference.kept number') ∈ pairs) :
    Eval.Mimics regime pairs (fun _ => Result.Alike leeway)
      (engine.step (.kept number) source place)
      fun depth => (family depth).step (.kept number') source place :=
  Mimics.bind (R := Parser.Alike leeway)
    (.read fun _ _ hfits => (regime.alike hfits).kept number number' hnumber)
    fun _ _ _ _ hp => h.run source place hp

end Combinators

/-- Parsers that are alike are run alike, one level up. -/
theorem step (h : engine.Mimics regime family)
    (hfamily : ∀ depth, (family (depth + 1)).run = (family depth).step) {pairs : Pairing}
    {p p' : Parser} (source : Source) (place : Position) (hp : Parser.Alike leeway pairs p p') :
    Eval.Mimics regime pairs (fun _ => Result.Alike leeway) (engine.step p source place)
      fun depth => (family depth).run p' source place := by
  -- all but a parser that is relabelled on one side only go down one level on both sides
  have up : ∀ {p p' : Parser}, (Eval.Mimics regime pairs (fun _ => Result.Alike leeway)
      (engine.step p source place) fun depth => (family depth).step p' source place) →
      Eval.Mimics regime pairs (fun _ => Result.Alike leeway) (engine.step p source place)
        fun depth => (family depth).run p' source place := by
    intro p p' hstep
    refine Mimics.succ ?_
    simp only [hfamily]
    exact hstep
  match hp with
  | .eof => exact up (.pure (.refl _))
  | .location => exact up (.pure (.refl _))
  | .text literal => exact up (.pure (.refl _))
  | .pattern regex => exact up (.consult fun _ _ _ => .refl Result.Alike.refl _)
  | .ok value => exact up (.pure (.refl _))
  | .fail hlabels => exact up (.pure (.failed (hlabels.imp_left (congrArg Labels.toList))))
  | .seqNil => exact up (h.sequence .rfl source .nil [] place)
  | .seqCons hpart hparts =>
    exact up (h.sequence .rfl source (.cons hpart (parts_alike hparts)) [] place)
  | .or hfirst hsecond => exact up (h.or source place hfirst hsecond)
  | .map hof hfn => exact up (h.map source place hof hfn)
  | .chain hof hfn => exact up (h.chain source place hof hfn)
  | .many0 hof => exact up (h.many0 source place hof)
  | .desc hof hlabels =>
    exact up (Mimics.bind (h.run source place hof) fun _ _ _ _ hresult =>
      .pure (hresult.relabel hlabels))
  | .descLeft hlabels hof =>
    exact (h.run source place hof).map_left fun _ _ _ hresult => hresult.relabel_left hlabels
  | .descRight hlabels hof =>
    -- what is relabelled on the right only takes one level more there
    refine Mimics.succ ?_
    simp only [hfamily]
    exact (h.step hfamily source place hof).map_right fun _ _ _ hresult =>
      (hresult.flip.relabel_left hlabels).flip
  | .lazy hcell => exact up (h.lazy source place hcell)
  | .kept hnumber => exact up (h.kept source place hnumber)
  | .custom haction => exact up (h.results (haction source place))

end Engine.Mimics

end Descent
