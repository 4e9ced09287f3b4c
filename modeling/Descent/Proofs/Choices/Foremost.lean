import Descent.Proofs.Labels.Warrants

/-! # The failure reported for several

Two failures at a time are merged when a choice fails. However that is done for several failures,
what comes out is the place of the first of those that are furthest into the source, and the labels
of all of these.

* **`Value.distinct_distinct_append`**, **`Value.distinct_append_distinct`** — repeated values may
  be dropped from parts of a list beforehand.
* **`Failure.foremost?`** — the one failure reported for several.
* **`Failure.foremost?_append`** — main statement: it can be found by halves. -/

namespace Descent

/-! ## Distinct values -/

namespace Value

variable {first value : Value} {values others : List Value}

theorem distinct_cons (first : Value) (rest : List Value) :
    distinct (first :: rest) = first :: distinct (rest.filter fun b => same b first = false) :=
  List.eraseDupsBy_cons

/-- Nothing is dropped where nothing counts as equal. -/
theorem filter_same_eq_self (h : ∀ b ∈ values, same first b = false) :
    values.filter (fun b => same b first = false) = values := by
  refine List.filter_eq_self.mpr fun b hb => ?_
  have hne := h b hb
  -- counting as equal goes both ways
  rw [Bool.eq_false_iff, ne_eq, same_iff] at hne
  rw [decide_eq_true_iff, Bool.eq_false_iff, ne_eq, same_iff]
  exact fun heq => hne heq.symm

/-- Values no two of which count as equal are distinct as they are. -/
theorem distinct_eq_self (h : values.Pairwise fun a b => same a b = false) :
    distinct values = values := by
  induction h with
  | nil => rfl
  | cons hfirst _ ih => rw [distinct_cons, filter_same_eq_self hfirst, ih]

/-- Such values are still distinct when they are repeated. -/
theorem distinct_append_self (h : values.Pairwise fun a b => same a b = false) :
    distinct (values ++ values) = values := by
  induction h with
  | nil => rfl
  | cons hfirst _ ih =>
    rw [List.cons_append, distinct_cons, List.filter_append, List.filter_cons_of_neg (by simp),
      filter_same_eq_self hfirst, ih]

/-- What is dropped because it counts as equal to some value may be dropped first or last. -/
theorem distinct_filter (value : Value) (values : List Value) :
    distinct (values.filter fun b => same b value = false)
      = (distinct values).filter fun b => same b value = false := by
  induction hlength : values.length using Nat.strongRecOn generalizing values with
  | ind length ih =>
    cases values with
    | nil => rfl
    | cons first rest =>
      have hshort := List.length_filter_le (fun b => decide (same b first = false)) rest
      rw [List.length_cons] at hlength
      have hrest := ih _ (by omega) (rest.filter fun b => same b first = false) rfl
      rw [List.filter_filter] at hrest
      rw [distinct_cons]
      by_cases hfirst : same first value = false
      · rw [List.filter_cons_of_pos (by simpa using hfirst),
          List.filter_cons_of_pos (by simpa using hfirst), distinct_cons, List.filter_filter,
          ← hrest]
        simp only [Bool.and_comm]
      · -- the first value goes, and what counts as equal to it has to go with it
        have hplain : first.plain = value.plain := same_iff.mp (by simpa using hfirst)
        have hsame : ∀ b, same b first = same b value := fun b => by rw [same, same, hplain]
        rw [List.filter_cons_of_neg (by simpa using hfirst),
          List.filter_cons_of_neg (by simpa using hfirst), ← hrest]
        simp only [hsame, Bool.and_self]

/-- Repeated values may be dropped from the first of two lists beforehand. -/
theorem distinct_distinct_append (values others : List Value) :
    distinct (distinct values ++ others) = distinct (values ++ others) := by
  induction hlength : values.length using Nat.strongRecOn generalizing values others with
  | ind length ih =>
    cases values with
    | nil => rfl
    | cons first rest =>
      have hshort := List.length_filter_le (fun b => decide (same b first = false)) rest
      rw [List.length_cons] at hlength
      have hrest := ih _ (by omega) (rest.filter fun b => same b first = false)
        (others.filter fun b => same b first = false) rfl
      rw [distinct_cons, List.cons_append, List.cons_append, distinct_cons, distinct_cons,
        List.filter_append, List.filter_append, ← hrest, ← distinct_filter, List.filter_filter]
      simp only [Bool.and_self]

/-- Repeated values may be dropped from the second of two lists beforehand. -/
theorem distinct_append_distinct (values others : List Value) :
    distinct (values ++ distinct others) = distinct (values ++ others) := by
  induction hlength : values.length using Nat.strongRecOn generalizing values others with
  | ind length ih =>
    cases values with
    | nil => exact distinct_eq_self (pairwise_distinct others)
    | cons first rest =>
      have hshort := List.length_filter_le (fun b => decide (same b first = false)) rest
      rw [List.length_cons] at hlength
      have hrest := ih _ (by omega) (rest.filter fun b => same b first = false)
        (others.filter fun b => same b first = false) rfl
      rw [List.cons_append, List.cons_append, distinct_cons, distinct_cons, List.filter_append,
        List.filter_append, ← hrest, distinct_filter]

end Value

/-! ## Failures -/

namespace Failure

/-- The failure reported for several: at the place of the first of those that are furthest into the
source, with the labels of all of these in order, each at its first occurrence. -/
def foremost? (failures : List Failure) : Option Failure :=
  (failures.map (·.place.index)).max?.bind fun index =>
    let furthest := failures.filter (·.place.index = index)
    furthest.head?.map fun first =>
      ⟨first.place, Value.distinct (furthest.flatMap (·.expected))⟩

variable {failure first second : Failure} {failures others rest : List Failure}

/-- What is reported for some failures, by those that are furthest into the source. -/
theorem foremost?_eq_some (hle : ∀ other ∈ failures, other.place.index ≤ first.place.index)
    (hfurthest : failures.filter (·.place.index = first.place.index) = first :: rest) :
    foremost? failures
      = some ⟨first.place, Value.distinct ((first :: rest).flatMap (·.expected))⟩ := by
  have hmem : first ∈ failures :=
    (List.mem_filter.mp (hfurthest ▸ List.mem_cons_self)).1
  have hmax : (failures.map (·.place.index)).max? = some first.place.index := by
    refine List.max?_eq_some_iff.mpr ⟨List.mem_map_of_mem hmem, fun index hindex => ?_⟩
    obtain ⟨other, hother, rfl⟩ := List.mem_map.mp hindex
    exact hle other hother
  rw [foremost?, hmax, Option.bind_some, hfurthest]
  rfl

/-- What is reported for some failures is at the place of the first that is furthest. -/
theorem exists_of_foremost? (h : foremost? failures = some failure) :
    ∃ first rest, failure = ⟨first.place, Value.distinct ((first :: rest).flatMap (·.expected))⟩ ∧
      (∀ other ∈ failures, other.place.index ≤ first.place.index) ∧
      failures.filter (·.place.index = first.place.index) = first :: rest := by
  obtain ⟨index, hmax, h⟩ := Option.bind_eq_some_iff.mp h
  obtain ⟨first, hhead, rfl⟩ := Option.map_eq_some_iff.mp h
  obtain ⟨rest, hfurthest⟩ := List.head?_eq_some_iff.mp hhead
  have hindex : first.place.index = index := by
    have hmem : first ∈ failures.filter (·.place.index = index) := hfurthest ▸ List.mem_cons_self
    simpa using (List.mem_filter.mp hmem).2
  subst hindex
  refine ⟨first, rest, by rw [← hfurthest], fun other hother => ?_, hfurthest⟩
  exact (List.max?_eq_some_iff.mp hmax).2 _ (List.mem_map_of_mem hother)

/-- For a single failure, it is that one. -/
theorem foremost?_single (h : failure.expected.Pairwise fun a b => Value.same a b = false) :
    foremost? [failure] = some failure := by
  have hfurthest : [failure].filter (·.place.index = failure.place.index) = [failure] := by simp
  rw [foremost?_eq_some (by simp) hfurthest]
  simp only [List.flatMap_cons, List.flatMap_nil, List.append_nil, Value.distinct_eq_self h]

/-- For two that are the same, it is that one. -/
theorem merge_self (h : failure.expected.Pairwise fun a b => Value.same a b = false) :
    failure.merge failure = failure := by
  rw [merge, if_neg (Int.lt_irrefl _), if_neg (Int.lt_irrefl _), union,
    Value.distinct_append_self h]

/-- There is one for any failures, unless there are none. -/
theorem exists_foremost? (h : failures ≠ []) : ∃ failure, foremost? failures = some failure := by
  cases hmax : (failures.map (·.place.index)).max? with
  | none => exact absurd (List.map_eq_nil_iff.mp (List.max?_eq_none_iff.mp hmax)) h
  | some index =>
    obtain ⟨other, hother, hindex⟩ := List.mem_map.mp (List.max?_eq_some_iff.mp hmax).1
    have hmem : other ∈ failures.filter (·.place.index = index) :=
      List.mem_filter.mpr ⟨hother, by simpa using hindex⟩
    obtain ⟨first, rest, hfurthest⟩ := List.exists_cons_of_ne_nil (List.ne_nil_of_mem hmem)
    exact ⟨_, by rw [foremost?, hmax, Option.bind_some, hfurthest]; rfl⟩

/-- None of several failures is at an index that they do not reach. -/
theorem filter_index_eq_nil {index : Int} (h : ∀ other ∈ failures, other.place.index < index) :
    failures.filter (·.place.index = index) = [] := by
  refine List.filter_eq_nil_iff.mpr fun other hother => ?_
  rw [decide_eq_true_iff]
  exact Int.ne_of_lt (h other hother)

/-- For two groups of failures, it is the one reported for what each of them has. -/
theorem foremost?_append (h : foremost? failures = some first)
    (h' : foremost? others = some second) :
    foremost? (failures ++ others) = some (first.merge second) := by
  obtain ⟨left, lefts, rfl, hle, hleft⟩ := exists_of_foremost? h
  obtain ⟨right, rights, rfl, hle', hright⟩ := exists_of_foremost? h'
  have hle_append : ∀ bound, left.place.index ≤ bound → right.place.index ≤ bound →
      ∀ other ∈ failures ++ others, other.place.index ≤ bound := by
    intro bound hb hb' other hother
    rcases List.mem_append.mp hother with hother | hother
    · exact Int.le_trans (hle other hother) hb
    · exact Int.le_trans (hle' other hother) hb'
  -- the failures of one group count only if they are as far as those of the other
  unfold merge
  simp only
  split
  · rename_i hgt
    refine foremost?_eq_some (hle_append _ (Int.le_refl _) (by omega)) ?_
    rw [List.filter_append, hleft, filter_index_eq_nil fun other hother => ?_, List.append_nil]
    exact Int.lt_of_le_of_lt (hle' other hother) hgt
  · split
    · rename_i hgt
      refine foremost?_eq_some (hle_append _ (by omega) (Int.le_refl _)) ?_
      rw [List.filter_append, hright, filter_index_eq_nil fun other hother => ?_, List.nil_append]
      exact Int.lt_of_le_of_lt (hle other hother) hgt
    · have heq : left.place.index = right.place.index := by omega
      have hboth : (failures ++ others).filter (·.place.index = left.place.index)
          = left :: (lefts ++ right :: rights) := by
        rw [List.filter_append, hleft, heq, hright]
        rfl
      rw [foremost?_eq_some (hle_append left.place.index (Int.le_refl _) (by omega)) hboth, union,
        Value.distinct_distinct_append, Value.distinct_append_distinct, ← List.flatMap_append]
      rfl

end Failure

end Descent
