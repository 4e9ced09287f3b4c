import Descent.Proofs.Film

/-! # Where labels come from

The labels of a failure go through many hands: they are merged with others, replaced, or passed on
from one parser to the next. A label is warranted if something in the run accounts for it at the
index where the failure is.

* **`Value.mem_of_mem_distinct`**, **`Value.pairwise_distinct`** — distinct values are some of those
  that there were, and no two of them count as equal.
* **`Issued`** — a scene that accounts for a label.
* **`Failure.Warranted`** — a failure all of whose labels are accounted for.
* **`Failure.Warranted.merge`** — so it is with the failure reported for two. -/

namespace Descent

/-! ## Distinct values -/

namespace Value

/-- Distinct values are some of those that there were. -/
theorem mem_of_mem_distinct {value : Value} {values : List Value} (h : value ∈ distinct values) :
    value ∈ values := by
  induction hlength : values.length using Nat.strongRecOn generalizing values with
  | ind length ih =>
    cases values with
    | nil => exact h
    | cons first rest =>
      unfold distinct at h
      rw [List.eraseDupsBy_cons] at h
      rcases List.mem_cons.mp h with rfl | h
      · exact List.mem_cons_self
      · -- what is left has lost the values that count as equal to the first
        have hshort := List.length_filter_le (fun b => decide (same b first = false)) rest
        have hmem := ih _ (by rw [← hlength, List.length_cons]; omega) h rfl
        exact List.mem_cons_of_mem _ ((List.mem_filter.mp hmem).1)

/-- No two of several distinct values count as equal. -/
theorem pairwise_distinct (values : List Value) :
    (distinct values).Pairwise fun a b => same a b = false := by
  induction hlength : values.length using Nat.strongRecOn generalizing values with
  | ind length ih =>
    cases values with
    | nil => exact .nil
    | cons first rest =>
      have hshort := List.length_filter_le (fun b => decide (same b first = false)) rest
      have hrest := ih _ (by rw [← hlength, List.length_cons]; omega)
        (rest.filter fun b => decide (same b first = false)) rfl
      unfold distinct
      rw [List.eraseDupsBy_cons]
      refine .cons (fun value hvalue => ?_) hrest
      have hkept := of_decide_eq_true (List.mem_filter.mp (mem_of_mem_distinct hvalue)).2
      -- counting as equal goes both ways
      rw [Bool.eq_false_iff, ne_eq, same_iff] at hkept ⊢
      exact fun heq => hkept heq.symm

end Value

/-! ## What accounts for a label -/

/-- The labels that a primitive issues when it fails. -/
def Parser.ownLabels : Parser → List Value
  | .text literal => [.str literal]
  | .pattern regex => [.str regex.label]
  | .fail labels => labels.toList
  | .eof => [Engine.endLabel]
  | _ => []

/-- A label was issued in some scenes, at an index of a source. -/
inductive Issued (scenes : List Scene) (source : Source) (index : Int) (label : Value) : Prop where
  /-- A primitive was run there and failed. -/
  | primitive {parser : Parser} {start : Position} {failure : Failure} {store : Store}
      (hscene : ⟨.ran parser source start (.failed failure), store⟩ ∈ scenes)
      (hlabel : label ∈ parser.ownLabels) (hstart : start.index = index)
  /-- A parser that was to be relabelled was run there and failed without getting anywhere. -/
  | relabelled {before after : List Scene} {of : Parser} {labels : Labels} {start : Position}
      {inner outer : Failure} {store store' : Store}
      (hscenes : scenes = before ++ ⟨.ran of source start (.failed inner), store⟩
        :: ⟨.ran (.desc of labels) source start (.failed outer), store'⟩ :: after)
      (hlabel : label ∈ labels.toList) (hstart : start.index = index)
      (hinner : inner.place.index = index)

/-- What was issued in some scenes was issued in more. -/
theorem Issued.mono {scenes : List Scene} {source : Source} {index : Int} {label : Value}
    (h : Issued scenes source index label) (earlier later : List Scene) :
    Issued (earlier ++ scenes ++ later) source index label := by
  cases h with
  | primitive hscene hlabel hstart =>
    exact .primitive (List.mem_append_left _ (List.mem_append_right _ hscene)) hlabel hstart
  | @relabelled before after _ _ _ _ _ _ _ hscenes hlabel hstart hinner =>
    rw [hscenes]
    have hmore : ∀ first second : Scene, earlier ++ (before ++ first :: second :: after) ++ later
        = (earlier ++ before) ++ first :: second :: (after ++ later) := by
      intro first second
      simp
    exact .relabelled (hmore _ _) hlabel hstart hinner

/-! ## Warranted failures -/

/-- A failure has labels, no two of which count as equal, and each of which was issued at its
index. -/
structure Failure.Warranted (scenes : List Scene) (source : Source) (failure : Failure) :
    Prop where
  /-- There is at least one label. -/
  ne_nil : failure.expected ≠ []
  /-- No two of them count as equal. -/
  pairwise : failure.expected.Pairwise fun a b => Value.same a b = false
  /-- Each one was issued where the failure is. -/
  issued : ∀ label ∈ failure.expected, Issued scenes source failure.place.index label

namespace Failure.Warranted

variable {scenes : List Scene} {source : Source} {failure other : Failure}

/-- A failure warranted by some scenes is warranted by more. -/
theorem mono (h : failure.Warranted scenes source) (earlier later : List Scene) :
    failure.Warranted (earlier ++ scenes ++ later) source :=
  ⟨h.ne_nil, h.pairwise, fun label hlabel => (h.issued label hlabel).mono earlier later⟩

/-- One or more labels given for a place are warranted if each of them is issued there. -/
theorem of_labels {place : Position} {labels : Labels}
    (h : ∀ label ∈ labels.toList, Issued scenes source place.index label) :
    Failure.Warranted scenes source ⟨place, labels.toList⟩ :=
  ⟨labels.toList_ne_nil, Value.pairwise_distinct _, h⟩

/-- A single label is warranted if it is issued. -/
theorem of_label {place : Position} {label : Value}
    (h : Issued scenes source place.index label) :
    Failure.Warranted scenes source ⟨place, [label]⟩ := by
  refine ⟨List.cons_ne_nil _ _, List.pairwise_singleton _ _, fun other hother => ?_⟩
  rw [List.mem_singleton.mp hother]
  exact h

/-- Where two failures are warranted, so is the one reported for both. -/
theorem merge (h : failure.Warranted scenes source) (hother : other.Warranted scenes source) :
    (failure.merge other).Warranted scenes source := by
  unfold Failure.merge
  by_cases hfirst : failure.place.index > other.place.index
  · rw [if_pos hfirst]
    exact h
  rw [if_neg hfirst]
  by_cases hsecond : other.place.index > failure.place.index
  · rw [if_pos hsecond]
    exact hother
  rw [if_neg hsecond]
  -- only failures at one index lend their labels to one another
  have heq : other.place.index = failure.place.index := by omega
  refine ⟨?_, Value.pairwise_distinct _, fun label hlabel => ?_⟩
  · obtain ⟨label, rest, hexpected⟩ := List.exists_cons_of_ne_nil h.ne_nil
    show Failure.union failure.expected other.expected ≠ []
    rw [Failure.union, hexpected, List.cons_append]
    exact Value.distinct_cons_ne_nil _ _
  · rcases List.mem_append.mp (Value.mem_of_mem_distinct hlabel) with hlabel | hlabel
    · exact h.issued label hlabel
    · have hissued := hother.issued label hlabel
      rw [heq] at hissued
      exact hissued

end Failure.Warranted

/-- A result is a match, or a warranted failure. -/
def Result.Warranted (scenes : List Scene) (source : Source) : Result → Prop
  | .matched _ _ => True
  | .failed failure => failure.Warranted scenes source

namespace Result.Warranted

variable {scenes : List Scene} {source : Source} {result : Result}

/-- A result warranted by some scenes is warranted by more before and after them. -/
theorem mono (h : result.Warranted scenes source) (earlier later : List Scene) :
    result.Warranted (earlier ++ scenes ++ later) source := by
  cases result with
  | matched stop value => trivial
  | failed failure => exact Failure.Warranted.mono h earlier later

/-- A result warranted by some scenes is warranted by those and later ones. -/
theorem append (h : result.Warranted scenes source) (later : List Scene) :
    result.Warranted (scenes ++ later) source := h.mono [] later

/-- A result warranted by some scenes is warranted by earlier ones and those. -/
theorem prepend (h : result.Warranted scenes source) (earlier : List Scene) :
    result.Warranted (earlier ++ scenes) source := by
  have hmono := h.mono earlier []
  rw [List.append_nil] at hmono
  exact hmono

/-- Another value does not matter. -/
theorem mapValue (h : result.Warranted scenes source) (fn : Value → Value) :
    (result.mapValue fn).Warranted scenes source := by
  cases result with
  | matched stop value => trivial
  | failed failure => exact h

end Result.Warranted

end Descent
