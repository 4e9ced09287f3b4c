import Descent.Engine.Depth
import Descent.Proofs.Film

/-! # Depth and films

The film of a run that ends is the same at every greater depth. So a run has one film, as it has one
outcome.

* **`Film.Below`** — a film whose answers, with their scenes, another film gives as well.
* **`Film.bind_eq_some`** — the film of one computation after another, taken apart.
* **`Film.below_upTo`** — main statement: the engines that make films are ordered by their depth. -/

namespace Descent.Film

variable {α β : Type}

/-! ## Taking films apart -/

/-- One computation after another ends with the error of the first, or as the second does; the
scenes of the second come after those of the first. -/
theorem bind_eq_some {first : Film α} {next : α → Film β} {store after : Store}
    {ended : Except Raised β} {scenes : List Scene}
    (h : (first >>= next).on store = (some (ended, after), scenes)) :
    (∃ cause, first.on store = (some (.error cause, after), scenes) ∧ ended = .error cause) ∨
      ∃ result middle early late, first.on store = (some (.ok result, middle), early) ∧
        (next result).on middle = (some (ended, after), late) ∧ scenes = early ++ late := by
  rw [bind_on] at h
  split at h
  · cases h
  · rename_i result middle early hfirst
    obtain ⟨hended, hscenes⟩ := Prod.mk.inj h
    exact .inr ⟨result, middle, early, _, hfirst, Prod.ext hended rfl, hscenes.symm⟩
  · rename_i cause middle early hfirst
    cases h
    exact .inl ⟨cause, hfirst, rfl⟩

/-- After a result, the scenes of the next computation are added. -/
theorem bind_ok {first : Film α} {next : α → Film β} {store middle : Store} {result : α}
    {early : List Scene} (h : first.on store = (some (.ok result, middle), early)) :
    (first >>= next).on store
      = (((next result).on middle).1, early ++ ((next result).on middle).2) := by
  rw [bind_on, h]

/-- After an error there is nothing to add. -/
theorem bind_error {first : Film α} {next : α → Film β} {store after : Store} {cause : Raised}
    {early : List Scene} (h : first.on store = (some (.error cause, after), early)) :
    (first >>= next).on store = (some (.error cause, after), early) := by
  rw [bind_on, h]

/-- The film of one computation after another begins with the film of the first. -/
theorem exists_append_of_bind (first : Film α) (next : α → Film β) (store : Store) :
    ∃ rest, ((first >>= next).on store).2 = (first.on store).2 ++ rest := by
  rw [bind_on]
  rcases first.on store with ⟨_ | ⟨cause | result, after⟩, scenes⟩
  · exact ⟨[], (List.append_nil _).symm⟩
  · exact ⟨[], (List.append_nil _).symm⟩
  · exact ⟨_, rfl⟩

/-- What is done with the result of a computation adds no scenes. -/
theorem map_on (first : Film α) (f : α → β) (store : Store) :
    (first >>= fun result => Pure.pure (f result)).on store
      = ((first.on store).1.map fun (ended, after) => (ended.map f, after),
          (first.on store).2) := by
  rw [bind_on]
  rcases first.on store with ⟨_ | ⟨_ | _, _⟩, scenes⟩
  · rfl
  · rfl
  · simp only [pure_on, List.append_nil, Option.map_some, Except.map]

/-! ## Films of deeper engines -/

/-- Every answer of one film is an answer of another, with the same scenes. -/
def Below (first second : Film α) : Prop :=
  ∀ store ended scenes, first.on store = (some ended, scenes) →
    second.on store = (some ended, scenes)

namespace Below

/-- Every film is below itself. -/
theorem refl (first : Film α) : first.Below first := fun _ _ _ h => h

/-- What is below a film is below all that this film is below. -/
theorem trans {first second third : Film α} (h : first.Below second) (h' : second.Below third) :
    first.Below third := fun store ended scenes heq => h' _ _ _ (h store ended scenes heq)

/-- What gives no answers is below everything. -/
theorem diverge (second : Film α) : (quiet Eval.diverge).Below second :=
  fun _ _ _ h => by cases h

/-- Films that are below others, one after another. -/
theorem bind {first first' : Film α} {next next' : α → Film β} (h : first.Below first')
    (hnext : ∀ result, (next result).Below (next' result)) :
    (first >>= next).Below (first' >>= next') := by
  rintro store ⟨ended, after⟩ scenes heq
  rcases bind_eq_some heq with
    ⟨cause, hfirst, rfl⟩ | ⟨result, middle, early, late, hfirst, hrest, rfl⟩
  · exact bind_error (h _ _ _ hfirst)
  · rw [bind_ok (h _ _ _ hfirst), hnext result _ _ _ hrest]

/-- The film of a parser's run is below that of the same run where more answers are given. -/
theorem asRun {computation computation' : Film Result} (h : computation.Below computation')
    (parser : Parser) (source : Source) (start : Position) :
    (asRun parser source start computation).Below (asRun parser source start computation') := by
  intro store ended scenes heq
  rw [asRun_on] at heq ⊢
  obtain ⟨hended, rfl⟩ := Prod.mk.inj heq
  rw [h store ended _ (Prod.ext hended rfl), hended]

end Below

/-- Being below can be kept up from one computation to the next. -/
theorem compatible_below : Engine.Compatible (fun α => Below (α := α)) where
  pure _ := .refl _
  basic _ := .refl _
  bind h hnext := .bind h hnext

/-- Lazy parsers are made as far with the better engine, and with the same scenes. -/
theorem assemble_below {first second : Engine Film}
    (h : Engine.Related (fun _ => Below) first second) (cell : CellId) :
    (assemble first cell).Below (assemble second cell) := by
  intro store ended scenes heq
  cases hcell : store.cell? cell with
  | none =>
    rw [assemble_of_none hcell] at heq
    cases heq
  | some found =>
    obtain ⟨name, state, make, _ | parser⟩ := found
    · rw [assemble_of_unmade hcell] at heq ⊢
      obtain ⟨hended, hscenes⟩ := Prod.mk.inj heq
      obtain ⟨outcome, hperform, rfl⟩ := Option.map_eq_some_iff.mp hended
      have hmore := h.perform compatible_below make.action _ outcome _ (Prod.ext hperform rfl)
      simp only [hperform] at hscenes
      simp only [hmore, Option.map_some, hscenes]
    · rw [assemble_of_made hcell] at heq ⊢
      exact heq

/-- One level more gives all the answers, with the same scenes. -/
theorem below_succ (depth : Nat) :
    Engine.Related (fun _ => Below) (upTo depth) (upTo (depth + 1)) := by
  induction depth with
  | zero => exact ⟨fun _ _ _ => .diverge _, fun _ => .diverge _⟩
  | succ depth ih =>
    exact ⟨fun parser source place => .asRun (ih.step compatible_below parser source place) _ _ _,
      assemble_below ih⟩

/-- Films of runs that end within some depth are those within every greater depth. -/
theorem below_upTo {depth depth' : Nat} (h : depth ≤ depth') :
    Engine.Related (fun _ => Below) (upTo depth) (upTo depth') := by
  induction h with
  | refl => exact ⟨fun _ _ _ => .refl _, fun _ => .refl _⟩
  | step _ ih =>
    exact ⟨fun p s q => (ih.run p s q).trans ((below_succ _).run p s q),
      fun c => (ih.build c).trans ((below_succ _).build c)⟩

end Descent.Film
