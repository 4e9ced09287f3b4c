import Descent.Proofs.Composed.Law

/-! # Composed parsers obey laws

* **`Engine.Keeps.step_composed`** — a composed parser obeys a law if the engine below does.
* **`Law.keeps_upTo`** — every engine obeys a law, by induction on its depth.
* **`Law.holds`** — main statement: the result of a composed parser obeys every law. -/

namespace Descent

namespace Engine.Keeps

variable {engine : Engine Eval} {law : Source → Position → Result → Prop} {known : Known}

/-- A sequence of composed parsers obeys the law if the way to where it starts does. -/
theorem sequence_composed (h : engine.Keeps law) (hlaw : Law law) (source : Source)
    (start : Position) (parts : List Parser) :
    ∀ known values place, (∀ part ∈ parts, part.Composed known) →
      (∀ value, law source start (.matched place value)) →
      (engine.sequence source parts values place).Keeps known
        fun _ result => law source start result := by
  induction parts with
  | nil => exact fun known values place _ hplace => .pure (hplace _)
  | cons part parts ih =>
    intro known values place hparts hplace
    have hpart := h.run_composed (hparts part List.mem_cons_self) source place
    refine hpart.bind fun larger result hsub hresult => ?_
    cases result with
    | failed failure => exact .pure (hlaw.after source start place .nothing _ (hplace _) hresult)
    | matched stop value =>
      -- the law goes on from the way up to here to the way up to where this part stopped
      have hstop := hlaw.after source start place .nothing _ (hplace _) hresult
      exact ih larger (value :: values) stop
        (fun p hp => (hparts p (List.mem_cons_of_mem part hp)).mono hsub)
        fun value' => hlaw.revalue source start stop value value' hstop

/-- A composed parser obeys the law. -/
theorem step_composed (h : engine.Keeps law) (hlaw : Law law) {parser : Parser}
    (hparser : parser.Composed known) (source : Source) (place : Position) :
    (engine.step parser source place).Keeps known fun _ result => law source place result := by
  cases hparser with
  | text literal => exact .pure (hlaw.text literal source place)
  | pattern regex =>
    exact .consult fun _ result _ hresult => hlaw.pattern regex source place result hresult
  | ok value => exact .pure (hlaw.stay source place value)
  | fail labels => exact .pure (hlaw.fail labels source place)
  | eof => exact .pure (hlaw.eof source place)
  | location => exact .pure (hlaw.stay source place _)
  | seq hparts =>
    exact h.sequence_composed hlaw source place _ known [] place hparts (hlaw.stay source place)
  | or hfirst hsecond =>
    refine (h.run_composed hfirst source place).bind fun larger result hsub hresult => ?_
    cases result with
    | matched stop value => exact .pure hresult
    | failed failure =>
      refine (h.run_composed (hsecond.mono hsub) source place).bind fun _ result' _ hresult' => ?_
      cases result' with
      | matched stop value => exact .pure hresult'
      | failed other => exact .pure (hlaw.merge source place failure other hresult hresult')
  | map hof fn =>
    refine (h.run_composed hof source place).bind fun larger result _ hresult => ?_
    cases result with
    | failed failure => exact .pure hresult
    | matched stop value =>
      -- the function may run any parsers, but it changes nothing but the value
      exact (h.perform_any (fn value) larger).bind_any fun _ made _ =>
        .pure (hlaw.revalue source place stop value made hresult)
  | chain hof hfn =>
    refine (h.run_composed hof source place).bind fun larger result hsub hresult => ?_
    cases result with
    | failed failure => exact .pure hresult
    | matched stop value =>
      have hmade := h.perform_composed _ larger ((hfn value).mono hsub)
      refine hmade.bind fun larger' object _ hobject => ?_
      cases object with
      | parser p =>
        exact (h.run_composed (hobject p rfl) source stop).imp fun _ result' hresult' =>
          hlaw.after source place stop value result' hresult hresult'
      | value | table | other =>
        exact (Eval.Keeps.basic (.consult _)).bind_any fun _ _ _ => .raise _
  | many0 hof =>
    refine (h.run_composed hof source place).bind fun larger result hsub hresult => ?_
    cases result with
    | failed failure => exact .pure (hlaw.stay source place _)
    | matched stop value =>
      by_cases still : stop.index = place.index
      · simp only [still, if_true]
        exact .pure (hlaw.stay source place _)
      · simp only [still, if_false]
        have hrest := h.run_composed (.many0 (hof.mono hsub)) source stop
        refine hrest.bind fun _ result' _ hresult' => .pure ?_
        exact hlaw.mapValue (hlaw.after source place stop value result' hresult hresult') _
  | desc hof labels =>
    exact (h.run_composed hof source place).bind fun _ _ _ hresult =>
      .pure (hlaw.relabelled hresult labels)
  | undescribed hof =>
    refine (h.run_composed hof source place).bind fun _ result _ hresult => ?_
    cases result with
    | matched stop value => exact .pure hresult
    | failed failure =>
      by_cases there : failure.place.index = place.index
      · simp only [there, if_true]
        exact .raise _
      · simp only [there, if_false]
        exact .pure hresult
  | lazy hcell =>
    exact (h.build known _).bind fun _ _ _ hmade => h.run_composed (hmade hcell) source place
  | kept hnumber =>
    exact (Eval.Keeps.kept hnumber).bind fun _ _ _ hp => h.run_composed hp source place

end Engine.Keeps

namespace Law

variable {law : Source → Position → Result → Prop}

/-- Every engine keeps what is known and obeys the law. -/
theorem keeps_upTo (hlaw : Law law) (depth : Nat) : (Engine.upTo depth).Keeps law := by
  -- whatever the law, composed parsers are a family, and the engine upholds it
  have hupholds := Engine.upholds_upTo Parser.monotone_composed depth
  refine ⟨fun known parser source place => ?_,
    fun known cell => Eval.keeps_iff.mpr (hupholds.build known cell)⟩
  by_cases hparser : parser.Composed known
  · cases depth with
    | zero => exact .diverge
    | succ depth =>
      exact ((hlaw.keeps_upTo depth).step_composed hlaw hparser source place).imp
        fun _ _ hresult _ => hresult
  · have hrun := Eval.keeps_iff.mpr (hupholds.run known parser source place)
    exact hrun.imp fun _ _ _ hin => absurd hin hparser

/-- The result of a composed parser obeys every law. -/
theorem holds (hlaw : Law law) {store after : Store} {known : Known} (hstore : store.Honours known)
    {parser : Parser} (hparser : parser.Composed known) {source : Source} {place : Position}
    {depth : Nat} {result : Result}
    (h : ((Engine.upTo depth).run parser source place).on store = some (.ok result, after)) :
    law source place result := by
  obtain ⟨_, _, hresult⟩ :=
    ((hlaw.keeps_upTo depth).run_composed hparser source place) store hstore _ after h
  exact hresult result rfl

end Law

end Descent
