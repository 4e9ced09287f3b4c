import Descent.Proofs.Film.Keeps
import Descent.Proofs.Labels.Warrants
import Descent.Proofs.Places

/-! # The labels of failures are accounted for

However often the labels of a composed parser's failure were merged, replaced and passed on, each of
them was issued during the run, at the very index where the failure is.

* **`Film.Warrants`** — the films of an engine in which the results of composed parsers are
  warranted.
* **`Film.Warrants.keeps_step`** — a parser is warranted if those that it is made of are.
* **`Film.warrants_upTo`** — every engine makes such films, by induction on its depth.
* **`Parser.Composed.expected_issued`** — main statement: the labels of a composed parser's
  failure. -/

namespace Descent

namespace Film

/-- Once the scene of a parser's own run is added, its result is warranted. -/
def Closes (parser : Parser) (source : Source) (place : Position) (_ : Known)
    (scenes : List Scene) (result : Result) : Prop :=
  ∀ store, result.Warranted (scenes ++ [⟨.ran parser source place result, store⟩]) source

/-- The result of a composed parser is warranted, and the scene of its own run is the last. -/
def Closed (parser : Parser) (source : Source) (place : Position) (_ : Known)
    (scenes : List Scene) (result : Result) : Prop :=
  result.Warranted scenes source ∧
    ∃ before store, scenes = before ++ [⟨.ran parser source place result, store⟩]

/-- In the films of an engine the results of composed parsers are warranted. -/
def Warrants (engine : Engine Film) : Prop :=
  ∀ known parser source place, parser.Composed known →
    (engine.run parser source place).Keeps known (Closed parser source place)

section Results

variable {known : Known} {parser : Parser} {source : Source} {place : Position}

/-- What a parser passes on from others needs no scene of its own. -/
theorem Keeps.passed {film : Film Result}
    (h : film.Keeps known fun _ scenes result => result.Warranted scenes source) :
    film.Keeps known (Closes parser source place) :=
  h.imp fun _ _ _ hresult _ => hresult.append _

/-- The scene of the run itself is the last one of a run. -/
theorem Keeps.asRun {computation : Film Result}
    (h : computation.Keeps known (Closes parser source place)) :
    (asRun parser source place computation).Keeps known (Closed parser source place) := by
  intro store hstore outcome after hon
  obtain ⟨larger, hleads, hresult⟩ := h store hstore outcome after hon
  refine ⟨larger, hleads, ?_⟩
  rintro result rfl
  have hscenes : ((Film.asRun parser source place computation).on store).2
      = (computation.on store).2 ++ [⟨.ran parser source place result, after⟩] := by
    change (computation.on store).1 = _ at hon
    show (computation.on store).2 ++ arrival parser source place (computation.on store).1 = _
    rw [hon, arrival]
  rw [hscenes]
  exact ⟨hresult result rfl after, _, after, rfl⟩

/-- The labels that a primitive issues when it fails are accounted for by its own run. -/
theorem issued_own {label : Value} (h : label ∈ parser.ownLabels) (scenes : List Scene)
    (failure : Failure) (store : Store) :
    Issued (scenes ++ [⟨.ran parser source place (.failed failure), store⟩]) source place.index
      label := .primitive (List.mem_append_right _ (List.mem_singleton.mpr rfl)) h rfl

/-! ## Primitives -/

theorem closes_text (literal : String) (scenes : List Scene) :
    Closes (.text literal) source place known scenes (Engine.textResult literal source place) := by
  intro store
  unfold Engine.textResult
  split
  · trivial
  · exact .of_label (issued_own (List.mem_singleton.mpr rfl) _ _ _)

theorem closes_pattern {regex : Regex} {result : Result}
    (h : Engine.patternResult regex source place = .ok result) (scenes : List Scene) :
    Closes (.pattern regex) source place known scenes result := by
  intro store
  unfold Engine.patternResult at h
  split at h
  · split at h
    · cases h
      trivial
    · cases h
      exact .of_label (issued_own (List.mem_singleton.mpr rfl) _ _ _)
  · cases h

theorem closes_eof (scenes : List Scene) :
    Closes .eof source place known scenes (Engine.eofResult source place) := by
  intro store
  unfold Engine.eofResult
  split
  · trivial
  · exact .of_label (issued_own (List.mem_singleton.mpr rfl) _ _ _)

/-- A failure at the place where the inner parser started gets the new labels, and any other one
keeps its own. -/
theorem closes_relabel {of : Parser} {labels : Labels} {scenes : List Scene} {result : Result}
    (h : Closed of source place known scenes result) :
    Closes (.desc of labels) source place known scenes
      (Engine.relabel labels place result) := by
  intro store
  obtain ⟨hresult, before, store', rfl⟩ := h
  cases result with
  | matched stop value => trivial
  | failed failure =>
    rw [Engine.relabel]
    by_cases there : failure.place.index = place.index
    · rw [if_pos there]
      refine .of_labels fun label hlabel => ?_
      -- the inner parser's run is the scene right before that of the run itself
      rw [List.append_assoc]
      exact .relabelled rfl hlabel there.symm rfl
    · rw [if_neg there]
      exact hresult.append _

end Results

/-! ## Parsers made of others -/

namespace Warrants

variable {depth : Nat} {known : Known} {parser : Parser} {source : Source} {place : Position}

/-- Running a composed parser is warranted. -/
theorem keeps_run (h : Warrants (upTo depth)) (hparser : parser.Composed known)
    (source : Source) (place : Position) :
    ((upTo depth).run parser source place).Keeps known
      fun _ scenes result => result.Warranted scenes source :=
  (h known parser source place hparser).imp fun _ _ _ hresult => hresult.1

/-- What comes after other scenes is warranted as it is. -/
theorem keeps_run_after (h : Warrants (upTo depth)) (hparser : parser.Composed known)
    (source : Source) (place : Position) (scenes : List Scene) :
    ((upTo depth).run parser source place).Keeps known
      fun _ rest result => result.Warranted (scenes ++ rest) source :=
  (h.keeps_run hparser source place).imp fun _ _ _ hresult => hresult.prepend scenes

/-- A sequence of composed parsers is warranted. -/
theorem keeps_sequence (h : Warrants (upTo depth)) (source : Source) (parts : List Parser) :
    ∀ known values place scenes, (∀ part ∈ parts, part.Composed known) →
      ((upTo depth).sequence source parts values place).Keeps known
        fun _ rest result => result.Warranted (scenes ++ rest) source := by
  induction parts with
  | nil => exact fun known values place scenes _ => .pure trivial
  | cons part parts ih =>
    intro known values place scenes hparts
    have hpart := h.keeps_run_after (hparts part List.mem_cons_self) source place scenes
    refine hpart.bind fun larger first result hsub hresult => ?_
    cases result with
    | failed failure => exact .pure (by rwa [List.append_nil])
    | matched stop value =>
      have hrest := ih larger (value :: values) stop (scenes ++ first)
        fun p hp => (hparts p (List.mem_cons_of_mem part hp)).mono hsub
      exact hrest.imp fun _ _ _ hlast => by rwa [List.append_assoc] at hlast

/-- A composed parser is warranted if those that it is made of are. -/
theorem keeps_step (h : Warrants (upTo depth)) (hparser : parser.Composed known)
    (source : Source) (place : Position) :
    ((upTo depth).step parser source place).Keeps known (Closes parser source place) := by
  cases hparser with
  | text literal => exact .pure (closes_text literal [])
  | pattern regex =>
    have hconsult : (Eval.consult fun _ => Engine.patternResult regex source place).Keeps known
        fun _ result => Engine.patternResult regex source place = .ok result :=
      .consult fun _ _ _ hresult => hresult
    exact (Keeps.of_erases (fun _ => rfl) hconsult).imp fun _ scenes _ hresult =>
      closes_pattern hresult scenes
  | ok value => exact .pure fun _ => trivial
  | fail labels => exact .pure fun _ => .of_labels fun label hlabel => issued_own hlabel _ _ _
  | eof => exact .pure (closes_eof [])
  | location => exact .pure fun _ => trivial
  | seq hparts => exact .passed (h.keeps_sequence source _ known [] place [] hparts)
  | or hfirst hsecond =>
    refine .passed <| (h.keeps_run hfirst source place).bind
      fun larger first result hsub hresult => ?_
    cases result with
    | matched stop value => exact .pure trivial
    | failed failure =>
      have hother := h.keeps_run_after (hsecond.mono hsub) source place first
      refine hother.bind fun _ second result' _ hresult' => ?_
      cases result' with
      | matched stop value => exact .pure trivial
      | failed other =>
        -- the failure reported for both has labels of either
        have hmerged := Failure.Warranted.merge (hresult.append second) hresult'
        exact .pure (by rwa [List.append_nil])
  | map hof fn =>
    refine .passed <| (h.keeps_run hof source place).bind
      fun larger first result _ hresult => ?_
    cases result with
    | failed failure => exact .pure (hresult.append [])
    | matched stop value =>
      exact (keeps_perform depth (fn value)).bind fun _ _ _ _ _ => .pure trivial
  | chain hof hfn =>
    refine .passed <| (h.keeps_run hof source place).bind
      fun larger first result hsub hresult => ?_
    cases result with
    | failed failure => exact .pure (hresult.append [])
    | matched stop value =>
      -- what the function makes is composed, given what has become known
      have hmade := keeps_perform_composed depth ((hfn value).mono hsub)
      refine hmade.bind fun larger' second object _ hobject => ?_
      cases object with
      | parser p =>
        exact (h.keeps_run_after (hobject p rfl) source stop (first ++ second)).imp
          fun _ _ _ hlast => by rwa [List.append_assoc] at hlast
      | value | table | other => exact (Keeps.basic (.consult _)).bind fun _ _ _ _ _ => .raise _
  | many0 hof =>
    refine .passed <| (h.keeps_run hof source place).bind fun larger first result hsub _ => ?_
    cases result with
    | failed failure => exact .pure trivial
    | matched stop value =>
      by_cases still : stop.index = place.index
      · simp only [still, if_true]
        exact .pure trivial
      · simp only [still, if_false]
        refine (h.keeps_run_after (.many0 (hof.mono hsub)) source stop first).bind
          fun _ second result' _ hresult' => .pure ?_
        rw [List.append_nil]
        exact hresult'.mapValue _
  | desc hof labels =>
    refine (h known _ source place hof).bind fun larger scenes result _ hresult => .pure ?_
    rw [List.append_nil]
    exact closes_relabel hresult
  | undescribed hof =>
    refine .passed <| (h.keeps_run hof source place).bind fun _ first result _ hresult => ?_
    cases result with
    | matched stop value => exact .pure trivial
    | failed failure =>
      by_cases there : failure.place.index = place.index
      · simp only [there, if_true]
        exact .raise _
      · simp only [there, if_false]
        exact .pure (hresult.append [])
  | lazy hcell =>
    exact .passed ((keeps_build depth hcell).bind fun _ first p _ hmade =>
      h.keeps_run_after hmade source place first)
  | kept hnumber =>
    exact .passed ((Keeps.of_erases (fun _ => rfl) (.kept hnumber)).bind fun _ first p _ hp =>
      h.keeps_run_after hp source place first)

end Warrants

/-- Every engine makes films in which the results of composed parsers are warranted. -/
theorem warrants_upTo (depth : Nat) : Warrants (upTo depth) := by
  induction depth with
  | zero =>
    intro known parser source place _ store _ outcome after hon
    cases hon
  | succ depth ih =>
    exact fun known parser source place hparser => .asRun (ih.keeps_step hparser source place)

end Film

/-- A failure of a composed parser has labels, no two of which count as equal. Each of them was
issued during the run, at the index where the failure is: by a primitive that was run there and
failed, or by a relabelled parser that was run there and failed without getting anywhere. -/
theorem Parser.Composed.expected_issued {store after : Store} {known : Known}
    (hstore : store.Honours known) {parser : Parser} (hparser : parser.Composed known)
    {source : Source} {place : Position} {depth : Nat} {failure : Failure}
    (h : ((Engine.upTo depth).run parser source place).on store
      = some (.ok (.failed failure), after)) :
    failure.expected ≠ [] ∧ failure.expected.Pairwise (fun a b => Value.same a b = false) ∧
      ∀ label ∈ failure.expected,
        Issued (((Film.upTo depth).run parser source place).on store).2 source
          failure.place.index label := by
  rw [← Film.fst_run_on] at h
  obtain ⟨_, -, hresult⟩ :=
    (Film.warrants_upTo depth) known parser source place hparser store hstore _ after h
  have hwarranted : failure.Warranted _ source := (hresult _ rfl).1
  exact ⟨hwarranted.ne_nil, hwarranted.pairwise, hwarranted.issued⟩

/-- A rule that fails where it starts is reported by its own label alone. -/
theorem Parser.Composed.expected_issued_lines :
    let known := Store.Honours.withLanguage linesStore {.className Store.baseName} 0
    let failure : Failure := ⟨.start, [.str "lines"]⟩
    linesStore.Honours known ∧ (Parser.lazy ⟨0, 0⟩).Composed known ∧ ∃ after,
      ((Engine.upTo 12).run (.lazy ⟨0, 0⟩) ['b'] .start).on linesStore
        = some (.ok (.failed failure), after) ∧
      failure.expected ≠ [] ∧ failure.expected.Pairwise (fun a b => Value.same a b = false) ∧
      ∀ label ∈ failure.expected,
        Issued (((Film.upTo 12).run (.lazy ⟨0, 0⟩) ['b'] .start).on linesStore).2 ['b'] 0
          label := by
  intro known failure
  have hparser : (Parser.lazy ⟨0, 0⟩).Composed known :=
    .lazy (.inr (.inr (.inr ⟨0, rfl, rfl⟩)))
  exact ⟨honours_linesStore, hparser, _, rfl,
    @Parser.Composed.expected_issued _ _ _ honours_linesStore _ hparser _ _ 12 failure rfl⟩

end Descent
