import Descent.Proofs.Family.Upholds

/-! # Engines uphold families

Running a parser may make other lazy parsers, but of a known one it makes what the family promises,
and whatever gets known on the way is granted too. So it does not matter to a family what the
functions of a grammar do.

* **`Engine.Upholds`** — an engine that upholds a family.
* **`Engine.Upholds.perform_any`**, **`Engine.Upholds.step_any`** — what such an engine does with
  any script and any parser.
* **`Engine.Upholds.perform_makes`** — what it does with scripts that make parsers of the family.
* **`Engine.Upholds.assemble`** — a known lazy parser makes a parser of the family.
* **`Engine.upholds_upTo`** — main statement: every engine upholds every family, by induction on its
  depth. -/

namespace Descent

/-- An engine upholds a family, and known lazy parsers make parsers of the family. -/
structure Engine.Upholds (engine : Engine Eval) (family : Family) : Prop where
  /-- Running parsers. -/
  run : ∀ known parser source place, (engine.run parser source place).Upholds family known
    fun _ _ => True
  /-- Having lazy parsers made. -/
  build : ∀ known cell, (engine.build cell).Upholds family known
    fun larger parser => Reference.cell cell ∈ known → family larger parser

namespace Engine.Upholds

variable {engine : Engine Eval} {family : Family} {known : Known} {language : InstanceId}

/-- Any lazy parser may be made. -/
theorem build_any (h : engine.Upholds family) (known : Known) (cell : CellId) :
    (engine.build cell).Upholds family known fun _ _ => True :=
  (h.build known cell).imp fun _ _ _ => trivial

/-- Of whatever an engine runs or makes, nothing has to be known. -/
theorem related_any (h : engine.Upholds family) : Engine.Related
    (fun _ (first _ : Eval _) => ∀ known, first.Upholds family known fun _ _ => True) engine
      engine :=
  ⟨fun parser source place known => h.run known parser source place,
    fun cell known => h.build_any known cell⟩

/-- Every script upholds the family. -/
theorem perform_any (h : engine.Upholds family) {α : Type} (action : Action α) (known : Known) :
    (engine.perform action).Upholds family known fun _ _ => True :=
  h.related_any.perform Eval.Upholds.compatible_any action known

/-- Every parser upholds the family. -/
theorem step_any (h : engine.Upholds family) (known : Known) (parser : Parser) (source : Source)
    (place : Position) : (engine.step parser source place).Upholds family known fun _ _ => True :=
  h.related_any.step Eval.Upholds.compatible_any parser source place known

/-! ## Scripts -/

/-- A new lazy parser of a known language, to make parsers of the family, gets known. -/
theorem defer_makes (hmono : family.Monotone)
    (hhome : Reference.home language ∈ known) (name : String) {make : Maker}
    (hmake : Action.Makes family known make.action) :
    (Eval.draw (·.addCell language name make)).Upholds family known
      fun larger cell => known ⊆ larger ∧ Reference.cell cell ∈ larger := by
  refine .draw fun store hstore => ?_
  refine ⟨_, ⟨(Store.adds_addCell store language name make).of_adds fun _ => rfl,
    Set.subset_insert _ _, ?_, hstore.addCell hmono name hhome hmake⟩,
    Set.subset_insert _ _, Set.mem_insert _ _⟩
  -- it was not there before, and nothing else gets known
  intro id hid
  rcases Set.mem_insert_iff.mp hid with heq | hold
  · rw [Reference.cell.inj heq]
    exact .inr (Store.cell?_fst_addCell store language name make)
  · exact .inl hold

/-- A new language of a known class, with rules that make parsers of the family, gets known. -/
theorem create_makes (hmono : family.Monotone) {className : String}
    (arguments : List (String × Value))
    {rules : List (String × (Owner → Maker))} (hclass : Reference.className className ∈ known)
    (hrules : ∀ entry ∈ rules, ∀ larger owner, known ⊆ larger →
      Reference.language owner.language ∈ larger → Reference.home owner.language ∈ larger →
      Action.Makes family larger (entry.2 owner).action) :
    (Eval.attempt (·.create className arguments rules)).Upholds family known
      fun larger language => Reference.language language ∈ larger ∧
        Reference.home language ∈ larger := by
  refine .attempt fun store language after hstore hcreate => ?_
  refine ⟨_, ⟨(Store.adds_create hcreate).of_adds fun _ => rfl,
    Store.Honours.subset_withLanguage _ _ _, ?_, hstore.create hmono hcreate hclass hrules⟩,
    Store.Honours.language_mem_withLanguage _ _ _, Store.Honours.home_mem_withLanguage _ _ _⟩
  -- the lazy parsers that get known are those of the new language, which was not there before
  intro id hid
  by_cases hk : Reference.cell id ∈ known
  · exact .inl hk
  · obtain ⟨hlanguage, -⟩ := Store.Honours.of_cell_mem_withLanguage hid hk
    obtain ⟨_, _, hsize, _⟩ := Store.create_eq_ok hcreate
    refine .inr (Store.cell?_of_size_le store ?_)
    rw [hlanguage, hsize]

/-- A script that makes parsers of the family only makes one of them, if any parser. -/
theorem perform_makes (hmono : family.Monotone) (h : engine.Upholds family)
    (action : Action (Object Parser)) :
    ∀ known, Action.Makes family known action →
      (engine.perform action).Upholds family known
        fun larger object => object.In family larger := by
  induction action with
  | done object =>
    intro known haction
    refine .pure fun p hp => ?_
    cases haction with
    | parser hparser =>
      cases hp
      exact hparser
    | nonParser hnone => exact absurd hp (hnone p)
  | raise cause => exact fun known _ => .raise cause
  | note event next ih =>
    intro known haction
    cases haction with
    | note hnext =>
      exact (Eval.Upholds.basic (.note event)).bind_any
        fun larger _ hsub => ih larger (hnext.mono hmono hsub)
  | run parser source start next ih =>
    intro known haction
    cases haction with
    | run hnext =>
      exact (h.run known parser source start).bind_any
        fun larger result hsub => ih result larger ((hnext result).mono hmono hsub)
  | build cell next ih =>
    intro known haction
    cases haction with
    | build hnext =>
      exact (h.build_any known cell).bind_any fun larger _ hsub => ih larger (hnext.mono hmono hsub)
  | defer language name make next ih =>
    intro known haction
    cases haction with
    | defer hhome hmake hnext =>
      -- the new lazy parser is known from here on
      have hdraw := defer_makes hmono hhome name hmake
      exact hdraw.bind fun larger cell _ hcell => ih cell larger (hnext larger cell hcell.1 hcell.2)
    | deferUnknown hnext =>
      exact (Eval.Upholds.basic (.addCell language name make)).bind_any
        fun larger cell hsub => ih cell larger ((hnext cell).mono hmono hsub)
  | inspect cell next ih =>
    intro known haction
    cases haction with
    | inspect hnext =>
      exact (Eval.Upholds.basic (.read _)).bind_any fun larger found hsub =>
        ih found.state found.shown larger ((hnext found.state found.shown).mono hmono hsub)
  | lookUp language name next ih =>
    intro known haction
    cases haction with
    | lookUp hnext =>
      exact (Eval.Upholds.lookUp language name).bind
        fun larger found hsub hin => ih found larger (hnext larger found hsub hin)
  | rule language name next ih =>
    intro known haction
    cases haction with
    | rule hnext =>
      exact (Eval.Upholds.getRule language name).bind
        fun larger cell hsub hin => ih cell larger (hnext larger cell hsub hin)
  | create className arguments rules next ih =>
    intro known haction
    cases haction with
    | create hclass hrules hnext =>
      -- the new language and its lazy parsers are known from here on
      have hmade := create_makes hmono arguments hclass hrules
      exact hmade.bind fun larger language hsub hin =>
        ih language larger (hnext larger language hsub hin.1 hin.2)
    | createUnknown hnext =>
      exact (Eval.Upholds.basic (.create className arguments rules)).bind_any
        fun larger language hsub => ih language larger ((hnext language).mono hmono hsub)
  | fetch name next ih =>
    intro known haction
    cases haction with
    | fetch hnext =>
      exact (Eval.Upholds.fetch name).bind
        fun larger found hsub hin => ih found larger (hnext larger found hsub hin)
  | count counter next ih =>
    intro known haction
    cases haction with
    | count hnext =>
      exact (Eval.Upholds.basic (.count counter)).bind_any
        fun larger before hsub => ih before larger ((hnext before).mono hmono hsub)

/-! ## Lazy parsers -/

/-- What becomes of a lazy parser upholds the family if its script has. -/
theorem settle_carries {store middle : Store} {larger : Known} {cell : CellId} (name : String)
    {outcome : Except Raised (Object Parser)} (hcarries : store.Carries family known middle larger)
    (hthere : store.cell? cell ≠ none)
    (hobject : ∀ object, outcome = .ok object → Reference.cell cell ∈ known →
      object.In family larger) :
    store.Carries family known (settle cell name (outcome, middle)).2 larger ∧
      ∀ p, (settle cell name (outcome, middle)).1 = .ok p → Reference.cell cell ∈ known →
        family larger p := by
  -- nothing that was there becomes known, so a lazy parser known afterwards was known before
  have hknown : Reference.cell cell ∈ larger → Reference.cell cell ∈ known := fun hin =>
    (hcarries.fresh cell hin).resolve_right hthere
  have hunbuilt := hcarries.trans (.of_setState hcarries.grants cell .unbuilt)
  by_cases hparser : ∃ p, outcome = .ok (.parser p)
  · obtain ⟨p, rfl⟩ := hparser
    have hset := hcarries.trans <| Store.Carries.of_setParser hcarries.grants
      fun hin : Reference.cell cell ∈ larger => hobject _ rfl (hknown hin) p rfl
    refine ⟨hset.trans (.of_log hset.grants _), ?_⟩
    rintro q ⟨⟩ hin
    exact hobject _ rfl hin p rfl
  · obtain ⟨cause, hsettle⟩ := settle_of_ne cell name (not_exists.mp hparser) middle
    rw [hsettle]
    refine ⟨hunbuilt, ?_⟩
    rintro p ⟨⟩

/-- Having a lazy parser made upholds the family, and a known one makes a parser of the family. -/
theorem assemble (hmono : family.Monotone) (h : engine.Upholds family) (known : Known)
    (cell : CellId) : (engine.assemble cell).Upholds family known
      fun larger parser => Reference.cell cell ∈ known → family larger parser := by
  intro store hstore outcome after hon
  cases hcell : store.cell? cell with
  | none =>
    rw [assemble_of_none hcell] at hon
    cases hon
  | some found =>
    obtain ⟨name, state, make, _ | parser⟩ := found
    · rw [assemble_of_unmade hcell, Option.map_eq_some_iff] at hon
      obtain ⟨⟨made, middle⟩, hperform, heq⟩ := hon
      have hstarted : store.Carries family known
          ((store.log (.building name state)).setState cell .building) known :=
        have hlogged := Store.Carries.of_log hstore _
        hlogged.trans (.of_setState hlogged.grants _ _)
      -- the script of a known lazy parser makes one of the family; of others nothing is asked
      have hmade : ∃ larger, store.Carries family known middle larger ∧
          ∀ object, made = .ok object → Reference.cell cell ∈ known → object.In family larger := by
        by_cases hin : Reference.cell cell ∈ known
        · obtain ⟨found', hfound', hmake, -⟩ := hstore.cell cell hin
          rw [hcell, Option.some.injEq] at hfound'
          subst hfound'
          obtain ⟨larger, hcarries, hobject⟩ := h.perform_makes hmono make.action known hmake
            _ hstarted.grants made middle hperform
          exact ⟨larger, hstarted.trans hcarries, fun object ho _ => hobject object ho⟩
        · obtain ⟨larger, hcarries, -⟩ := h.perform_any make.action known
            _ hstarted.grants made middle hperform
          exact ⟨larger, hstarted.trans hcarries, fun _ _ hin' => absurd hin' hin⟩
      obtain ⟨larger, hcarries, hobject⟩ := hmade
      obtain ⟨hsettled, hparser⟩ := settle_carries name hcarries (by simp [hcell]) hobject
      rw [heq] at hsettled hparser
      exact ⟨larger, hsettled, hparser⟩
    · rw [assemble_of_made hcell, Option.some.injEq, Prod.mk.injEq] at hon
      obtain ⟨rfl, rfl⟩ := hon
      refine ⟨known, .refl hstore, ?_⟩
      rintro p ⟨⟩ hin
      obtain ⟨found', hfound', -, hfamily⟩ := hstore.cell cell hin
      rw [hcell, Option.some.injEq] at hfound'
      exact hfamily parser (by rw [← hfound'])

end Engine.Upholds

/-- Every engine upholds every family. -/
theorem Engine.upholds_upTo {family : Family} (hmono : family.Monotone) (depth : Nat) :
    (Engine.upTo depth).Upholds family := by
  induction depth with
  | zero => exact ⟨fun _ _ _ _ => .diverge, fun _ _ => .diverge⟩
  | succ depth ih => exact ⟨ih.step_any, ih.assemble hmono⟩

end Descent
