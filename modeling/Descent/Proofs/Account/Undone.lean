import Descent.Proofs.Account.Laws

/-! # Attempts that are undone

* **`Attempt.Undone`** — an attempt of which nothing is left in its lazy parser.
* **`Incident.Reenters`** — a lazy parser is asked for while it is being made.
* **`Account.law_undoes`** — main statement: unless that happens, every attempt that fails is
  undone.
* **`Store.cell?_abandon`** — and what fails around it does not matter. -/

namespace Descent

/-- The lazy parser of an attempt was unbuilt, and it is as if there had not been the attempt. -/
def Attempt.Undone (attempt : Attempt) : Prop :=
  ∃ name make, attempt.before.cell? attempt.cell = some (.unbuilt name make) ∧
    attempt.after.cell? attempt.cell = some (.unbuilt name make)

/-- A lazy parser is asked for while it is being made. -/
def Incident.Reenters (cell : CellId) (incidents : List Incident) : Prop :=
  ∃ attempt ∈ Incident.attempts incidents, attempt.cell = cell ∧ cell ∈ attempt.within

/-- A lazy parser is not being made, and if it is ready it holds a parser. -/
def Store.Rests (store : Store) (id : CellId) : Prop :=
  ∀ cell, store.cell? id = some cell →
    cell.state ≠ .building ∧ (cell.state = .ready → cell.parser ≠ none)

namespace Store

variable {store middle after : Store} {id cell : CellId} {name : String} {state : RuleState}

/-- When the function of a lazy parser begins, the lazy parser is being made. -/
theorem cell?_begun {make : Maker} {parser : Option Parser}
    (h : store.cell? id = some ⟨name, state, make, parser⟩) (state' : RuleState) :
    (store.begun id name state').cell? id = some ⟨name, .building, make, parser⟩ := by
  unfold begun setState
  rw [cell?_modifyCell, if_pos rfl, cell?_log, h]
  rfl

/-- The others are as they were. -/
theorem cell?_begun_of_ne (h : id ≠ cell) :
    (store.begun id name state).cell? cell = store.cell? cell := by
  unfold begun setState
  rw [cell?_modifyCell, if_neg h, cell?_log]

/-- A lazy parser that gets its parser is ready. -/
theorem cell?_setParser {make : Maker} {kept : Option Parser}
    (h : store.cell? id = some ⟨name, state, make, kept⟩) (parser : Parser) :
    (store.setParser id parser).cell? id = some ⟨name, .ready, make, some parser⟩ := by
  unfold setParser
  rw [cell?_modifyCell, if_pos rfl, h]
  rfl

/-- The others are as they were. -/
theorem cell?_setParser_of_ne (h : id ≠ cell) (parser : Parser) :
    (store.setParser id parser).cell? cell = store.cell? cell := by
  unfold setParser
  rw [cell?_modifyCell, if_neg h]

/-- A lazy parser that holds nothing may be unbuilt again. -/
theorem cell?_setState_unbuilt {make : Maker}
    (h : store.cell? id = some ⟨name, state, make, none⟩) :
    (store.setState id .unbuilt).cell? id = some (.unbuilt name make) := by
  unfold setState
  rw [cell?_modifyCell, if_pos rfl, h]
  rfl

/-- The others are as they were. -/
theorem cell?_setState_of_ne (h : id ≠ cell) :
    (store.setState id state).cell? cell = store.cell? cell := by
  unfold setState
  rw [cell?_modifyCell, if_neg h]

/-- A lazy parser that rests and holds nothing is unbuilt. -/
theorem Rests.eq_unbuilt {make : Maker} (h : store.Rests id)
    (hcell : store.cell? id = some ⟨name, state, make, none⟩) :
    (⟨name, state, make, none⟩ : Cell) = .unbuilt name make := by
  obtain ⟨hbuilding, hready⟩ := h _ hcell
  cases state with
  | unbuilt => rfl
  | building => exact absurd rfl hbuilding
  | ready => exact absurd rfl (hready rfl)

/-- What is as it was goes on to rest. -/
theorem Rests.of_eq (h : store.Rests id) (hcell : after.cell? id = store.cell? id) :
    after.Rests id := by
  unfold Rests
  rw [hcell]
  exact h

/-- What an engine does by itself lets lazy parsers rest. -/
theorem Rests.of_opens (h : store.Rests id) (hopens : store.Opens after) : after.Rests id := by
  intro found hfound
  rcases hopens.fresh id found hfound with hthere | ⟨name, make, rfl⟩
  · exact h found hthere
  · exact ⟨nofun, nofun⟩

/-- What is left when other attempts have failed is as it was. -/
theorem cell?_abandon {around : List Attempt} (h : ∀ outer ∈ around, outer.cell ≠ cell) :
    (store.abandon around).cell? cell = store.cell? cell := by
  unfold abandon
  induction around generalizing store with
  | nil => rfl
  | cons outer rest ih =>
    rw [List.foldl_cons, ih fun other hother => h other (List.mem_cons_of_mem outer hother)]
    exact cell?_setState_of_ne (h outer List.mem_cons_self)

end Store

namespace Account

open Incident

section Undoes

variable {cell : CellId} {store middle after : Store} {first second inner late : List Incident}
  {name : String} {state : RuleState} {make : Maker}

/-- What is asked for again while it is being made, in one computation or in another. -/
theorem reenters_append :
    Reenters cell (first ++ second) ↔ Reenters cell first ∨ Reenters cell second := by
  unfold Reenters
  simp only [attempts_append, List.mem_append, or_and_right, exists_or]

/-- A lazy parser that is not asked for in a computation is as it was. -/
def Unasked (cell : CellId) (store after : Store) (incidents : List Incident) : Prop :=
  cell ∉ asked incidents → ∀ found, store.cell? cell = some found → after.cell? cell = some found

/-- A lazy parser that rests, and is not asked for while it is being made, goes on to rest, and
attempts at making it that fail are undone. -/
def Undoes (cell : CellId) (store after : Store) (incidents : List Incident) : Prop :=
  store.Rests cell → ¬ Reenters cell incidents → after.Rests cell ∧
    ∀ attempt ∈ attempts incidents, attempt.cell = cell →
      ∀ cause, attempt.ended = .error cause → attempt.Undone

/-- It is so after an attempt if it was so while the function of the lazy parser was called. -/
theorem undoes_attempted (attempt : Attempt)
    (hcell : attempt.before.cell? attempt.cell = some ⟨name, state, make, none⟩)
    (hinner : Unasked cell (attempt.before.begun attempt.cell name state) middle inner ∧
      Undoes cell (attempt.before.begun attempt.cell name state) middle inner)
    (hwithin : attempt.within = asked inner) (hlate : attempts late = [])
    (hothers : ∀ other, attempt.cell ≠ other → attempt.after.cell? other = middle.cell? other)
    (hself : middle.cell? attempt.cell = some ⟨name, .building, make, none⟩ →
      attempt.after.Rests attempt.cell ∧ ∀ cause, attempt.ended = .error cause →
        attempt.after.cell? attempt.cell = some (.unbuilt name make)) :
    Unasked cell attempt.before attempt.after (inner ++ (late ++ [.attempted attempt])) ∧
      Undoes cell attempt.before attempt.after (inner ++ (late ++ [.attempted attempt])) := by
  have hattempts : attempts (inner ++ (late ++ [.attempted attempt]))
      = attempts inner ++ [attempt] := attempts_closed hlate attempt
  refine ⟨fun hasked found hfound => ?_, fun hrests hreenters => ?_⟩
  · rw [asked, hattempts, List.map_append, List.mem_append, not_or] at hasked
    have hne : attempt.cell ≠ cell := fun heq => hasked.2 (List.mem_singleton.mpr heq.symm)
    rw [hothers cell hne]
    refine hinner.1 hasked.1 found ?_
    rw [Store.cell?_begun_of_ne hne]
    exact hfound
  · have hreinner : ¬ Reenters cell inner := fun h => hreenters (reenters_append.mpr (.inl h))
    by_cases heq : attempt.cell = cell
    · -- the function of this lazy parser has not asked for it, so it is still being made
      subst heq
      have hasked : attempt.cell ∉ asked inner := fun hin => hreenters
        ⟨attempt, by rw [hattempts]; exact List.mem_append_right _ (List.mem_singleton_self _),
          rfl, by rw [hwithin]; exact hin⟩
      obtain ⟨hafter, hfailed⟩ := hself (hinner.1 hasked _ (Store.cell?_begun hcell state))
      rw [hrests.eq_unbuilt hcell] at hcell
      refine ⟨hafter, (forall_attempts_closed hlate).mpr ⟨fun other hin hsame => ?_,
        fun _ cause hended => ⟨name, make, hcell, hfailed cause hended⟩⟩⟩
      exact absurd (List.mem_map.mpr ⟨other, hin, hsame⟩) hasked
    · obtain ⟨hmiddle, hin⟩ := hinner.2 (hrests.of_eq (Store.cell?_begun_of_ne heq)) hreinner
      exact ⟨hmiddle.of_eq (hothers cell heq),
        (forall_attempts_closed hlate).mpr ⟨hin, fun hsame => absurd hsame heq⟩⟩

end Undoes

/-- Of a lazy parser that is not asked for while it is being made, every attempt that fails leaves
it as it was. -/
theorem law_undoes (cell : CellId) : Law fun store _ after incidents =>
    Unasked cell store after incidents ∧ Undoes cell store after incidents where
  quiet h := ⟨fun _ _ => h.adds.cell?_eq_some,
    fun hrests _ => ⟨hrests.of_opens h, forall_attempts_nil⟩⟩
  raised h cause := ⟨fun _ _ => h.adds.cell?_eq_some,
    fun hrests _ => ⟨hrests.of_opens h, forall_attempts_raised cause⟩⟩
  bind h h' := by
    refine ⟨fun hasked found hfound => ?_, fun hrests hreenters => ?_⟩
    · rw [asked_append, List.mem_append, not_or] at hasked
      exact h'.1 hasked.2 found (h.1 hasked.1 found hfound)
    · rw [reenters_append, not_or] at hreenters
      obtain ⟨hmiddle, hfirst⟩ := h.2 hrests hreenters.1
      obtain ⟨hafter, hsecond⟩ := h'.2 hmiddle hreenters.2
      exact ⟨hafter, forall_attempts_append.mpr ⟨hfirst, hsecond⟩⟩
  reused _ := ⟨fun _ _ hfound => hfound, fun hrests _ =>
    ⟨hrests, List.forall_mem_singleton.mpr fun _ => nofun⟩⟩
  made {_ store id name _ make parser middle incidents} hcell _ h after hafter := by
    refine undoes_attempted ⟨id, store, asked incidents, .ok parser, after⟩ hcell h rfl
      attempts_nil (fun other hne => ?_) fun hself => ?_
    · rw [hafter, Store.cell?_log, Store.cell?_setParser_of_ne hne]
    · refine ⟨fun found hfound => ?_, fun _ => nofun⟩
      rw [hafter, Store.cell?_log, Store.cell?_setParser hself, Option.some.injEq] at hfound
      rw [← hfound]
      exact ⟨nofun, fun _ => nofun⟩
  failed {_ store id name _ make _ middle incidents} hcell _ h {cause late after} hlate hafter := by
    refine undoes_attempted ⟨id, store, asked incidents, .error cause, after⟩ hcell h rfl
      (attempts_late hlate) (fun other hne => ?_) fun hself => ?_
    · rw [hafter, Store.cell?_setState_of_ne hne]
    · have hunbuilt : after.cell? id = some (.unbuilt name make) := by
        rw [hafter]
        exact Store.cell?_setState_unbuilt hself
      refine ⟨fun found hfound => ?_, fun _ _ => hunbuilt⟩
      rw [hunbuilt, Option.some.injEq] at hfound
      rw [← hfound]
      exact ⟨nofun, nofun⟩

end Account

end Descent
