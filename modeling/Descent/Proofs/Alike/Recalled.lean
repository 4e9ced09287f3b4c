import Descent.Proofs.Alike.Performed

/-! # What was made before, and what is made now

On two stores that are alike, a lazy parser may have been made already on the one and not on the
other. What its script ended with on the one is then compared with what the script of the other ends
with, whether that is on record too or has to be performed first.

* **`Store.Tied`** — stores that are alike, with what is known in each of them.
* **`Script.Replays.alike`** — scripts that are alike and are on record have ended alike.
* **`Eval.Follows`** — computations end with the like of what is on record.
* **`Script.Replays.follows`** — so does a script that is like one on record.
* **`Engine.Builds.follows`** — main statement: a lazy parser is made like a paired one that has
  been made before. -/

namespace Descent

/-- Stores in which what is paired is made alike, and what is known in each of them is tracked. -/
structure Store.Tied (known known' : Known) (pairs : Pairing) (store store' : Store) : Prop where
  /-- What is paired is made alike. -/
  alike : store.Alike .caching pairs store'
  /-- What is paired is known in the first. -/
  left : ∀ pair ∈ pairs, pair.1 ∈ known
  /-- What is paired is known in the second. -/
  right : ∀ pair ∈ pairs, pair.2 ∈ known'
  /-- What is known in the first is tracked. -/
  tracked : store.Tracked known
  /-- What is known in the second is tracked. -/
  tracked' : store'.Tracked known'

variable {store store' after after' : Store} {known known' larger larger' : Known} {pairs : Pairing}

/-- The lazy parser of each rule belongs to the rules of its language. -/
theorem Store.Created.mem_rules {language : InstanceId} {className : String}
    {arguments : Table Value} {added : Table (Owner → Maker)}
    (h : store.Created language className arguments added) {index : Nat}
    (hindex : index < ((store.instanceAt language).rules.getD []).length) :
    ∃ rules name, (store.instanceAt language).rules = some rules ∧
      (name, ⟨language, index⟩) ∈ rules := by
  rw [h.rules] at hindex ⊢
  cases hmakers : store.makers? (store.instanceAt language).cls ⟨language, arguments⟩ added with
  | none =>
    rw [hmakers] at hindex
    cases hindex
  | some makers =>
    rw [hmakers] at hindex
    have hlt : index < makers.names.length := by simpa [Store.numbered] using hindex
    exact ⟨_, _, rfl, List.mem_map.mpr ⟨(makers.names[index], index),
      List.mem_iff_getElem?.mpr ⟨index, by simp [hlt]⟩, rfl⟩⟩

namespace Store.Tied

/-- Stores that are tied are so the other way round. -/
theorem flip (h : store.Tied known known' pairs store') :
    store'.Tied known' known pairs.flip store :=
  ⟨h.alike.flip, fun _ hpair => h.right _ hpair, fun _ hpair => h.left _ hpair, h.tracked',
    h.tracked⟩

/-- Stores that are tied are so later. -/
theorem later (h : store.Tied known known' pairs store') (hlater : store.Later known after larger)
    (hlater' : store'.Later known' after' larger') : after.Tied larger larger' pairs after' :=
  ⟨h.alike.of_grows hlater.grows hlater'.grows, fun pair hpair => hlater.sub (h.left pair hpair),
    fun pair hpair => hlater'.sub (h.right pair hpair), hlater.tracked, hlater'.tracked⟩

/-- Stores that are tied are so if the second one is later. -/
theorem later_right (h : store.Tied known known' pairs store')
    (hlater' : store'.Later known' after' larger') : store.Tied known larger' pairs after' :=
  h.later (.refl h.tracked) hlater'

/-- Known lazy parsers that are made alike may be paired. -/
theorem paired (h : store.Tied known known' pairs store') {id id' : CellId} {cell cell' : Cell}
    (hid : Reference.cell id ∈ known) (hid' : Reference.cell id' ∈ known')
    (hcell : store.cell? id = some cell) (hcell' : store'.cell? id' = some cell')
    (halike : cell.Alike .caching pairs cell') :
    store.Tied known known' (insert (.cell id, .cell id') pairs) store' where
  alike := h.alike.paired hcell hcell' halike
  left := by
    rintro pair (rfl | hpair)
    · exact hid
    · exact h.left pair hpair
  right := by
    rintro pair (rfl | hpair)
    · exact hid'
    · exact h.right pair hpair
  tracked := h.tracked
  tracked' := h.tracked'

/-- Known languages that were made in the same way may be paired. -/
theorem created (h : store.Tied known known' pairs store') {language language' : InstanceId}
    {className : String} {arguments : Table Value} {added added' : Table (Owner → Maker)}
    (hlanguage : Reference.language language ∈ known) (hhome : Reference.home language ∈ known)
    (hlanguage' : Reference.language language' ∈ known')
    (hhome' : Reference.home language' ∈ known')
    (hcreated : store.Created language className arguments added)
    (hcreated' : store'.Created language' className arguments added')
    (hclass : (Reference.className className, Reference.className className) ∈ pairs)
    (hadded : RulesAlike .caching pairs added added') :
    store.Tied known known' (store.pairLanguages pairs language language') store' := by
  have halike := h.alike.created hcreated hcreated' hclass hadded
  have hrules := (halike.language language language' language_mem_pairLanguages).2.2.2
  refine ⟨halike, ?_, ?_, h.tracked, h.tracked'⟩
  · rintro pair (hpair | rfl | rfl | ⟨index, hindex, rfl⟩)
    · exact h.left pair hpair
    · exact hlanguage
    · exact hhome
    · obtain ⟨rules, name, hsome, hmem⟩ := hcreated.mem_rules hindex
      exact (h.tracked.language language hlanguage).2 rules hsome _ hmem
  · rintro pair (hpair | rfl | rfl | ⟨index, hindex, rfl⟩)
    · exact h.right pair hpair
    · exact hlanguage'
    · exact hhome'
    · have hindex' : index < ((store'.instanceAt language').rules.getD []).length := by
        rcases hrules.eq_or with ⟨e, -⟩ | ⟨rules, rules', e, e', hrel⟩
        · rw [e] at hindex
          cases hindex
        · rw [e] at hindex
          rw [e']
          exact Nat.lt_of_lt_of_eq hindex (List.Forall₂.length_eq hrel)
      obtain ⟨rules, name, hsome, hmem⟩ := hcreated'.mem_rules hindex'
      exact (h.tracked'.language language' hlanguage').2 rules hsome _ hmem

/-- New languages of a paired class, with further rules that are made alike, may be paired. -/
theorem create (h : store.Tied known known' pairs store') {language language' : InstanceId}
    {className : String} {arguments : Table Value} {added added' : Table (Owner → Maker)}
    (hclass : (Reference.className className, Reference.className className) ∈ pairs)
    (hadded : RulesAlike .caching pairs added added')
    (hcreate : store.create className arguments added = .ok (language, after))
    (hcreate' : store'.create className arguments added' = .ok (language', after')) :
    ∃ larger larger', store.Later known after larger ∧ store'.Later known' after' larger' ∧
      after.Tied larger larger' (after.pairLanguages pairs language language') after' := by
  have hlater := Store.Later.create h.tracked (h.left _ hclass) (hadded.within h.left) hcreate
  have hlater' := Store.Later.create h.tracked' (h.right _ hclass)
    (hadded.flip.within h.flip.left) hcreate'
  exact ⟨_, _, hlater, hlater', (h.later hlater hlater').created
    (Honours.language_mem_withLanguage _ _ _) (Honours.home_mem_withLanguage _ _ _)
    (Honours.language_mem_withLanguage _ _ _) (Honours.home_mem_withLanguage _ _ _)
    (Created.of_create hcreate).2.1 (Created.of_create hcreate').2.1 hclass hadded⟩

/-- A lazy parser may be paired with a new one that is made alike. -/
theorem addCell_right (h : store.Tied known known' pairs store') {id : CellId} {cell : Cell}
    {language' : InstanceId} {name : String} {make make' : Maker}
    (hid : Reference.cell id ∈ known) (hcell : store.cell? id = some cell)
    (hstill : (Cell.unbuilt name make).Still cell) (hhome' : Reference.home language' ∈ known')
    (hmakers : MakersAlike .caching pairs make make')
    (hwithin : make'.action.objects.Within known') :
    store.Tied known (insert (.cell (store'.addCell language' name make').1) known')
      (insert (.cell id, .cell (store'.addCell language' name make').1) pairs)
      (store'.addCell language' name make').2 :=
  (h.later_right (.addCell h.tracked' hhome' hwithin)).paired hid (Set.mem_insert _ _) hcell
    (cell?_addCell (h.tracked'.home language' hhome') name make') (hmakers.cell hstill (.refl _))

/-- Where a language was made in the first store, one can be made in the same way in the second, and
the two may be paired. -/
theorem create_right (h : store.Tied known known' pairs store') {language : InstanceId}
    {className : String} {arguments : Table Value} {added added' : Table (Owner → Maker)}
    (hlanguage : Reference.language language ∈ known) (hhome : Reference.home language ∈ known)
    (hcreated : store.Created language className arguments added)
    (hclass : (Reference.className className, Reference.className className) ∈ pairs)
    (hadded : RulesAlike .caching pairs added added') :
    ∃ language' after' larger',
      store'.create className arguments added' = .ok (language', after') ∧
        store'.Later known' after' larger' ∧
          store.Tied known larger' (store.pairLanguages pairs language language') after' := by
  cases hcreate : store'.create className arguments added' with
  | error cause =>
    exact absurd (create_eq_error h.alike.classes.symm h.alike.classNames.symm hadded.names.symm
      hcreate) (hcreated.can cause)
  | ok made =>
    obtain ⟨language', after'⟩ := made
    have hlater' := Store.Later.create h.tracked' (h.right _ hclass)
      (hadded.flip.within fun _ hpair => h.right _ hpair) hcreate
    exact ⟨language', after', _, rfl, hlater', (h.later_right hlater').created hlanguage hhome
      (Honours.language_mem_withLanguage _ _ _) (Honours.home_mem_withLanguage _ _ _) hcreated
      (Created.of_create hcreate).2.1 hclass hadded⟩

end Store.Tied

/-! ## Both on record -/

/-- Scripts that are alike and are on record have ended alike. -/
theorem Script.Replays.alike {action action' : Action Yield} {yield yield' : Yield}
    (h : action.Replays known store yield) (htied : store.Tied known known' pairs store')
    (halike : Action.Alike .caching pairs action action')
    (h' : action'.Replays known' store' yield') :
    ∃ larger, pairs ⊆ larger ∧ store.Tied known known' larger store' ∧
      Yield.Alike .caching larger yield yield' := by
  induction h generalizing pairs action' yield' with
  | done yield =>
    cases halike with
    | parser hp =>
      cases h'
      exact ⟨pairs, .rfl, htied, Action.Alike.parser hp⟩
    | nonParser hobject =>
      cases h'
      exact ⟨pairs, .rfl, htied, Action.Alike.nonParser hobject⟩
    | result hresult =>
      cases h'
      exact ⟨pairs, .rfl, htied, Action.Alike.result hresult⟩
  | note _ ih =>
    cases halike with
    | note hnext =>
      cases h' with
      | note hnext' => exact ih htied hnext hnext'
  | build _ _ _ _ _ ih =>
    cases halike with
    | build _ hnext =>
      cases h' with
      | build _ _ _ hnext' => exact ih htied hnext hnext'
  | defer hid hcell hstill _ ih =>
    cases halike with
    | defer _ hmake hquiet hnext =>
      cases h' with
      | defer hid' hcell' hstill' hnext' =>
        -- lazy parsers that were added with makers that are alike may be paired from here on
        have hmakers : Store.MakersAlike .caching pairs _ _ := ⟨hmake, hquiet⟩
        have hpaired := htied.paired hid hid' hcell hcell' (hmakers.cell hstill hstill')
        obtain ⟨larger, hsub, hlarger, hyield⟩ :=
          ih hpaired (hnext _ _ _ (Set.subset_insert _ _) (Set.mem_insert _ _)) hnext'
        exact ⟨larger, (Set.subset_insert _ _).trans hsub, hlarger, hyield⟩
  | inspect _ ih =>
    cases halike with
    | inspect hstages => exact absurd trivial hstages
    | inspectAny hnext =>
      cases h' with
      | inspect hnext' => exact ih htied (hnext _ _ _ _) hnext'
  | lookUp _ hfound _ ih =>
    cases halike with
    | lookUp hlanguage hnext =>
      cases h' with
      | lookUp _ hfound' hnext' =>
        have hpairs := (htied.alike.lookUp hlanguage _).of_ok hfound hfound'
        exact ih htied (hnext _ _ _ .rfl hpairs) hnext'
  | rule _ hcell _ ih =>
    cases halike with
    | rule hlanguage hnext =>
      cases h' with
      | rule _ hcell' hnext' =>
        have hpairs := (htied.alike.getRule hlanguage _).of_ok hcell hcell'
        exact ih htied (hnext _ _ _ .rfl hpairs) hnext'
  | create hl hhome hcreated _ ih =>
    cases halike with
    | create hclass hnames hrules hquiet hnext =>
      cases h' with
      | create hl' hhome' hcreated' hnext' =>
        -- so may languages that were made in the same way
        have hpaired := htied.created hl hhome hl' hhome' hcreated hcreated' hclass
          (.of_zip hnames hrules hquiet)
        obtain ⟨larger, hsub, hlarger, hyield⟩ := ih hpaired (hnext _ _ _
          Store.subset_pairLanguages Store.language_mem_pairLanguages
          Store.home_mem_pairLanguages) hnext'
        exact ⟨larger, Store.subset_pairLanguages.trans hsub, hlarger, hyield⟩
  | fetch hfound _ ih =>
    cases halike with
    | fetch hname hnext =>
      cases h' with
      | fetch hfound' hnext' =>
        have hpairs := (htied.alike.shelved _ hname).of_ok hfound hfound'
        exact ih htied (hnext _ _ _ .rfl hpairs) hnext'
  | count _ ih =>
    cases halike with
    | count hstages => exact absurd trivial hstages
    | countAny _ hnext =>
      cases h' with
      | count hnext' => exact ih htied (hnext _ _) hnext'

/-! ## The second to be performed -/

/-- On a second store, computations end with something that is related to what is on record in a
first one. -/
def Eval.Follows {α β : Type} (R : Pairing → α → β → Prop) (known : Known) (store : Store)
    (result : α) (known' : Known) (pairs : Pairing) (store' : Store) (family : Nat → Eval β) :
    Prop :=
  ∃ larger larger' result' after', pairs ⊆ larger ∧
    Eventually family store' (.ok result', after') ∧ store'.Later known' after' larger' ∧
    store.Tied known larger' larger after' ∧ R larger result result'

/-- What comes after an answer ends with something related. -/
theorem Eval.Follows.goesOn {α β γ : Type} {R : Pairing → α → γ → Prop} {result : α}
    {first : Nat → Eval β} {next : Nat → β → Eval γ} {answer : β} {middle' : Store}
    {pairs₁ : Pairing} {known₁ : Known}
    (hfirst : Eventually first store' (.ok answer, middle'))
    (hlater : store'.Later known' middle' known₁) (hsub : pairs ⊆ pairs₁)
    (h : Follows R known store result known₁ pairs₁ middle' fun depth => next depth answer) :
    Follows R known store result known' pairs store' fun depth => first depth >>= next depth := by
  obtain ⟨larger, larger', result', after', hsub', hnext, hlater', htied, hresult⟩ := h
  exact ⟨larger, larger', result', after', hsub.trans hsub', hfirst.bind hnext,
    hlater.trans hlater', htied, hresult⟩

/-- What comes after something that was read off the second store ends with something related. -/
theorem Eval.Follows.consults {α β γ : Type} {R : Pairing → α → γ → Prop} {result : α}
    {view : Store → Except Raised β} {next : Nat → β → Eval γ} {answer : β}
    (htied : store.Tied known known' pairs store') (hview : view store' = .ok answer)
    (h : Follows R known store result known' pairs store' fun depth => next depth answer) :
    Follows R known store result known' pairs store' fun depth => Eval.consult view >>= next depth :=
  .goesOn ⟨0, fun _ _ => Eval.consult_of hview⟩ (.refl htied.tracked') .rfl h

namespace Engine

open Eval

variable {build : Engine Eval → CellId → Eval Parser} {cell : CellId} {found : Cell} {p : Parser}

/-- A lazy parser that is made by performing its script is made like one on record, if its script
ends so. -/
theorem Calls.follows (hbuilds : Builds build) {started : Store}
    {finish : Except Raised (Object Parser) → Store → Store}
    (hcalls : Calls build store' cell found started finish)
    (hfound : store'.cell? cell = some found) (ht : store'.Tracked known')
    (hwithin : found.make.action.objects.Within known')
    (h : Follows (Yield.Alike .caching) known store (.object (.parser p)) known' pairs started
      fun depth => (levels build depth).perform found.make.action.objects) :
    Follows (Parser.Alike .caching) known store p known' pairs store'
      fun depth => build (levels build depth) cell := by
  obtain ⟨larger, larger', yield, middle, hsub, ⟨depth, hdepth⟩, hlater, htied, hyield⟩ := h
  obtain ⟨p', rfl, hp⟩ := hyield.of_object
  have hmade : ∀ deeper, depth ≤ deeper → ((levels build deeper).perform found.make.action).on
      started = some (.ok (.parser p'), middle) :=
    fun deeper hle => perform_of_objects (hdepth deeper hle)
  obtain ⟨known₁, hlater₁, hreplays⟩ :=
    hcalls.records (hbuilds.remembers_levels depth) ht hwithin (hmade depth (Nat.le_refl _))
  have hfinish := hcalls.finished hfound hlater.tracked hlater₁ hreplays
  refine ⟨larger, larger' ∪ known₁, p', _, hsub, ⟨depth, fun deeper hle => ?_⟩,
    (hcalls.later ht).trans (hlater.trans hfinish), htied.later_right hfinish, hp⟩
  rw [hcalls.on, hmade deeper hle]
  rfl

end Engine

/-- A script that is like one on record ends with the like. -/
theorem Script.Replays.follows {build : Engine Eval → CellId → Eval Parser}
    (hbuilds : Engine.Builds build) {action action' : Action Yield} {yield : Yield}
    (h : action.Replays known store yield) (htied : store.Tied known known' pairs store')
    (halike : Action.Alike .caching pairs action action') :
    Eval.Follows (Yield.Alike .caching) known store yield known' pairs store'
      fun depth => (Engine.levels build depth).perform action' := by
  induction h generalizing pairs action' known' store' with
  | done yield =>
    cases halike with
    | parser hp =>
      exact ⟨pairs, known', _, store', .rfl, ⟨0, fun _ _ => rfl⟩, .refl htied.tracked', htied,
        Action.Alike.parser hp⟩
    | nonParser hobject =>
      exact ⟨pairs, known', _, store', .rfl, ⟨0, fun _ _ => rfl⟩, .refl htied.tracked', htied,
        Action.Alike.nonParser hobject⟩
    | result hresult =>
      exact ⟨pairs, known', _, store', .rfl, ⟨0, fun _ _ => rfl⟩, .refl htied.tracked', htied,
        Action.Alike.result hresult⟩
  | note _ ih =>
    cases halike with
    | @note _ _ event' _ _ hnext =>
      have hlater := Store.Later.of_adds htied.tracked' (Store.adds_note store' event')
      exact .goesOn ⟨0, fun _ _ => rfl⟩ hlater .rfl
        (ih (htied.later_right hlater) hnext)
  | build hcell hfound hmade _ ihmade ih =>
    cases halike with
    | build hcell' hnext =>
      obtain ⟨found', hfound', hwithin, -⟩ := htied.tracked'.cell _ (htied.right _ hcell')
      have hcells := htied.alike.cells hcell' hfound hfound'
      -- on the second store it is there already, or its script is performed like the recorded one
      rcases hbuilds.present store' _ _ hfound' with ⟨p', -, hbuilt⟩ | ⟨started, finish, hcalls⟩
      · exact .goesOn (.succ ⟨0, fun _ _ => hbuilt _⟩) (.refl htied.tracked') .rfl (ih htied hnext)
      · obtain ⟨larger, larger', p', after', hsub, hbuilt, hlater, htied', -⟩ :=
          hcalls.follows hbuilds hfound' htied.tracked' hwithin
            (ihmade (htied.later_right (hcalls.later htied.tracked')) hcells.make)
        exact .goesOn (.succ hbuilt) hlater hsub (ih htied' (hnext.mono hsub))
  | defer hid hcell hstill _ ih =>
    cases halike with
    | @defer _ _ language' _ _ make' _ _ hhome hmake hquiet hnext =>
      have hhome' := htied.right _ hhome
      have hwithin : make'.action.objects.Within known' :=
        hmake.flip.within (hquiet trivial).2 fun _ hpair => htied.right _ hpair
      -- the recorded lazy parser is paired with the one that is added now
      have hpaired := htied.addCell_right hid hcell hstill hhome' ⟨hmake, hquiet⟩ hwithin
      exact .goesOn ⟨0, fun _ _ => rfl⟩ (.addCell htied.tracked' hhome' hwithin)
        (Set.subset_insert _ _)
        (ih hpaired (hnext _ _ _ (Set.subset_insert _ _) (Set.mem_insert _ _)))
  | inspect _ ih =>
    cases halike with
    | inspect hstages => exact absurd trivial hstages
    | inspectAny hnext =>
      exact .goesOn ⟨0, fun _ _ => rfl⟩ (.refl htied.tracked') .rfl
        (ih htied (hnext _ _ _ _))
  | lookUp _ hfound _ ih =>
    cases halike with
    | lookUp hlanguage hnext =>
      obtain ⟨found', hfound', hpairs⟩ := (htied.alike.lookUp hlanguage _).exists_ok hfound
      exact .consults htied hfound' (ih htied (hnext _ _ _ .rfl hpairs))
  | rule _ hcell _ ih =>
    cases halike with
    | rule hlanguage hnext =>
      obtain ⟨cell', hcell', hpairs⟩ := (htied.alike.getRule hlanguage _).exists_ok hcell
      exact .consults htied hcell' (ih htied (hnext _ _ _ .rfl hpairs))
  | create hlanguage hhome hcreated _ ih =>
    cases halike with
    | create hclass hnames hrules hquiet hnext =>
      obtain ⟨language', after', larger', hcreate, hlater, hpaired⟩ :=
        htied.create_right hlanguage hhome hcreated hclass (.of_zip hnames hrules hquiet)
      exact .goesOn ⟨0, fun _ _ => Eval.attempt_ok hcreate⟩ hlater Store.subset_pairLanguages
        (ih hpaired (hnext _ _ _ Store.subset_pairLanguages Store.language_mem_pairLanguages
          Store.home_mem_pairLanguages))
  | fetch hfound _ ih =>
    cases halike with
    | fetch hname hnext =>
      obtain ⟨found', hfound', hpairs⟩ := (htied.alike.shelved _ hname).exists_ok hfound
      exact .consults htied hfound' (ih htied (hnext _ _ _ .rfl hpairs))
  | count _ ih =>
    cases halike with
    | count hstages => exact absurd trivial hstages
    | @countAny _ _ counter' _ _ _ hnext =>
      have hlater := Store.Later.of_adds htied.tracked' (Store.adds_count store' counter')
      exact .goesOn ⟨0, fun _ _ => rfl⟩ hlater .rfl
        (ih (htied.later_right hlater) (hnext _ _))

/-- A lazy parser is made like a paired one whose script is on record. -/
theorem Engine.Builds.follows {build : Engine Eval → CellId → Eval Parser}
    (hbuilds : Engine.Builds build) (htied : store.Tied known known' pairs store')
    {cell cell' : CellId} (hcell : cell.Pairs pairs cell') {found : Cell}
    (hfound : store.cell? cell = some found) {p : Parser}
    (hp : found.make.action.objects.Replays known store (.object (.parser p))) :
    Eval.Follows (Parser.Alike .caching) known store p known' pairs store'
      fun depth => build (Engine.levels build depth) cell' := by
  obtain ⟨found', hfound', hwithin, hmade⟩ := htied.tracked'.cell _ (htied.right _ hcell)
  have hcells := htied.alike.cells hcell hfound hfound'
  rcases hbuilds.present store' _ _ hfound' with ⟨p', hp', hbuilt⟩ | ⟨started, finish, hcalls⟩
  · obtain ⟨larger, hsub, htied', hyield⟩ := hp.alike htied hcells.make (hmade p' hp')
    exact ⟨larger, known', p', store', hsub, ⟨0, fun _ _ => hbuilt _⟩, .refl htied.tracked', htied',
      hyield.object⟩
  · exact hcalls.follows hbuilds hfound' htied.tracked' hwithin
      (hp.follows hbuilds (htied.later_right (hcalls.later htied.tracked')) hcells.make)

end Descent
