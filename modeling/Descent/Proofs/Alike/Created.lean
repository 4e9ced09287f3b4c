import Descent.Proofs.Alike.Answers

/-! # Languages that were made in the same way

* **`Store.pairLanguages`** — two languages are paired, and their rules one by one.
* **`Store.Alike.created`** — main statement: languages that were made in the same way, in stores
  that are alike, may be paired. -/

namespace Descent

/-- What is paired, together with two languages, the places for their lazy parsers, and their
rules. -/
def Store.pairLanguages (store : Store) (pairs : Pairing) (language language' : InstanceId) :
    Pairing :=
  pairs ∪ {pair | pair = (.language language, .language language') ∨
    pair = (.home language, .home language') ∨
    ∃ index < ((store.instanceAt language).rules.getD []).length,
      pair = (.cell ⟨language, index⟩, .cell ⟨language', index⟩)}

namespace Store

variable {leeway : Leeway} {pairs larger : Pairing} {store store' : Store}
  {language language' : InstanceId} {className : String} {arguments : Table Value}
  {added added' : Table (Owner → Maker)}

theorem subset_pairLanguages : pairs ⊆ store.pairLanguages pairs language language' :=
  Set.subset_union_left

theorem language_mem_pairLanguages : (Reference.language language, Reference.language language')
    ∈ store.pairLanguages pairs language language' := .inr (.inl rfl)

theorem home_mem_pairLanguages : (Reference.home language, Reference.home language')
    ∈ store.pairLanguages pairs language language' := .inr (.inr (.inl rfl))

/-- Only rules of the two languages get paired with them. -/
theorem exists_of_pairLanguages {id id' : CellId}
    (hid : id.Pairs (store.pairLanguages pairs language language') id')
    (hk : ¬ id.Pairs pairs id') : ∃ index, id = ⟨language, index⟩ ∧ id' = ⟨language', index⟩ := by
  rcases hid.resolve_left hk with e | e | ⟨index, -, e⟩
  · cases e
  · cases e
  · cases e
    exact ⟨index, rfl, rfl⟩

/-- Where one pair is added, only these two get paired. -/
theorem eq_of_insert {id id' cell cell' : CellId}
    (hid : id.Pairs (insert (.cell cell, .cell cell') pairs) id') (hk : ¬ id.Pairs pairs id') :
    id = cell ∧ id' = cell' := by
  have heq := (Set.mem_insert_iff.mp hid).resolve_right hk
  exact ⟨Reference.cell.inj (congrArg Prod.fst heq), Reference.cell.inj (congrArg Prod.snd heq)⟩

/-- How the rules of languages are made that have the same rules. -/
def MakersAlike (leeway : Leeway) (pairs : Pairing) (make make' : Maker) : Prop :=
  Action.Alike leeway pairs make.action.objects make'.action.objects ∧
    (leeway.stages → make.action.Quiet ∧ make'.action.Quiet)

/-- Lazy parsers that were added with such makers are alike. -/
theorem MakersAlike.cell {name : String} {make make' : Maker} {cell cell' : Cell}
    (h : MakersAlike leeway pairs make make') (hstill : (Cell.unbuilt name make).Still cell)
    (hstill' : (Cell.unbuilt name make').Still cell') : cell.Alike leeway pairs cell' := by
  have hnew : (Cell.unbuilt name make).Alike leeway pairs (.unbuilt name make') :=
    ⟨rfl, h.1, h.2⟩
  exact hnew.of_still hstill hstill'

/-- Further rules of the same names that are made alike wherever their languages are paired. -/
def RulesAlike (leeway : Leeway) (pairs : Pairing) : Table (Owner → Maker) →
    Table (Owner → Maker) → Prop :=
  Table.Rel fun make make' => ∀ larger owner owner', pairs ⊆ larger → owner.Pairs larger owner' →
    MakersAlike leeway larger (make owner) (make' owner')

namespace RulesAlike

/-- Tables of rules with the same names are alike if the rules at the same places are. -/
theorem of_zip {rules rules' : List (String × (Owner → Maker))}
    (hnames : rules'.map Prod.fst = rules.map Prod.fst)
    (hrules : ∀ entry ∈ rules.zip rules', ∀ larger owner owner', pairs ⊆ larger →
      owner.Pairs larger owner' → Action.Alike leeway larger (entry.1.2 owner).action.objects
        (entry.2.2 owner').action.objects)
    (hquiet : ∀ entry ∈ rules.zip rules', ∀ owner, leeway.stages →
      (entry.1.2 owner).action.Quiet ∧ (entry.2.2 owner).action.Quiet) :
    RulesAlike leeway pairs rules rules' :=
  Table.Rel.of_zip hnames fun pair hpair larger owner owner' hsub howner =>
    ⟨hrules pair hpair larger owner owner' hsub howner, fun hstages =>
      ⟨(hquiet pair hpair owner hstages).1, (hquiet pair hpair owner' hstages).2⟩⟩

/-- Rules stay alike when more is paired. -/
theorem mono (hsub : pairs ⊆ larger) (h : RulesAlike leeway pairs added added') :
    RulesAlike leeway larger added added' :=
  h.imp fun _ _ hmake largest owner owner' hlarger =>
    hmake largest owner owner' (hsub.trans hlarger)

/-- Rules that are alike are so the other way round. -/
theorem flip (h : RulesAlike leeway pairs added added') :
    RulesAlike leeway pairs.flip added' added :=
  Table.Rel.flip (fun _ _ hmake larger owner owner' hsub howner => by
    obtain ⟨halike, hquiet⟩ := hmake larger.flip owner' owner (Pairing.subset_flip hsub) howner.flip
    exact ⟨halike.flip, fun hstages => (hquiet hstages).symm⟩) h

end RulesAlike

namespace Alike

/-- The rules of paired languages are made alike, if those of the class and the further ones are. -/
theorem makers? (h : store.Alike leeway pairs store') {cls : ClassId}
    (hclass : (Reference.className className, Reference.className className) ∈ pairs)
    (hcls : store.classNamed className = .ok cls) (hadded : RulesAlike leeway pairs added added')
    (hsub : pairs ⊆ larger) {owner owner' : Owner} (howner : owner.Pairs larger owner') :
    Option.Rel (Table.Rel (MakersAlike leeway larger)) (store.makers? cls owner added)
      (store'.makers? cls owner' added') := by
  unfold Store.makers? Store.makers
  rw [h.classAt, h.ruleTable]
  split
  · refine .some (Table.Rel.putAll ?_ ?_)
    · unfold Table.Rel
      rw [List.forall₂_map_left_iff, List.forall₂_map_right_iff, List.forall₂_same]
      intro entry hentry
      exact ⟨rfl, h.className className cls hclass hcls entry hentry larger owner owner' hsub
        howner⟩
    · unfold Table.Rel
      rw [List.forall₂_map_left_iff, List.forall₂_map_right_iff]
      exact List.Forall₂.imp (fun entry entry' hentry =>
        ⟨hentry.1, hentry.2 larger owner owner' hsub howner⟩) hadded
  · exact .none

/-- Rules of the same names are numbered alike. -/
theorem numbered {names : List String}
    (hpairs : ∀ index < names.length, CellId.Pairs pairs ⟨language, index⟩ ⟨language', index⟩) :
    Table.Rel (CellId.Pairs pairs) (Store.numbered language names)
      (Store.numbered language' names) := by
  unfold Table.Rel Store.numbered
  rw [List.forall₂_map_left_iff, List.forall₂_map_right_iff, List.forall₂_same]
  intro entry hentry
  exact ⟨rfl, hpairs entry.2 (List.snd_lt_of_mem_zipIdx hentry)⟩

/-- The rules of such languages are lazy parsers that are alike. -/
theorem cell_of_created (hcreated : store.Created language className arguments added)
    (hcreated' : store'.Created language' className arguments added')
    (hmakers : Option.Rel (Table.Rel (MakersAlike leeway larger))
      (store.makers? (store.instanceAt language).cls ⟨language, arguments⟩ added)
      (store'.makers? (store'.instanceAt language').cls ⟨language', arguments⟩ added'))
    {index : Nat} (hindex : index < ((store.instanceAt language).rules.getD []).length) :
    ∃ cell cell', store.cell? ⟨language, index⟩ = some cell ∧
      store'.cell? ⟨language', index⟩ = some cell' ∧ cell.Alike leeway larger cell' := by
  rw [hcreated.rules] at hindex
  rcases hmakers.eq_or with ⟨e, e'⟩ | ⟨makers, makers', e, e', hrel⟩
  · rw [e] at hindex
    cases hindex
  · rw [e] at hindex
    have hlt : index < makers.length := by simpa [Store.numbered, Table.names] using hindex
    obtain ⟨make', hmake', halike⟩ := hrel.exists_getElem? (List.getElem?_eq_getElem hlt)
    obtain ⟨cell, hcell, hstill⟩ := hcreated.cell makers e index _ _ (List.getElem?_eq_getElem hlt)
    obtain ⟨cell', hcell', hstill'⟩ := hcreated'.cell makers' e' index _ _ hmake'
    exact ⟨cell, cell', hcell, hcell', halike.cell hstill hstill'⟩

/-- Languages that were made in the same way may be paired, with their rules. -/
theorem created (h : store.Alike leeway pairs store')
    (hcreated : store.Created language className arguments added)
    (hcreated' : store'.Created language' className arguments added')
    (hclass : (Reference.className className, Reference.className className) ∈ pairs)
    (hadded : RulesAlike leeway pairs added added') :
    store.Alike leeway (store.pairLanguages pairs language language') store' := by
  have hsub : pairs ⊆ store.pairLanguages pairs language language' := subset_pairLanguages
  -- the languages are of the same class
  have hcls : (store'.instanceAt language').cls = (store.instanceAt language).cls := by
    have heq := hcreated'.cls
    rw [h.classNamed, hcreated.cls] at heq
    exact (Except.ok.inj heq).symm
  have howner : Owner.Pairs (store.pairLanguages pairs language language')
      ⟨language, arguments⟩ ⟨language', arguments⟩ :=
    ⟨rfl, language_mem_pairLanguages, home_mem_pairLanguages⟩
  have hmakers : Option.Rel
      (Table.Rel (MakersAlike leeway (store.pairLanguages pairs language language')))
      (store.makers? (store.instanceAt language).cls ⟨language, arguments⟩ added)
      (store'.makers? (store'.instanceAt language').cls ⟨language', arguments⟩ added') := by
    rw [hcls]
    exact h.makers? hclass hcreated.cls hadded hsub howner
  refine h.grow ⟨hsub, fun pair hpair hk => ?_⟩ ?_ ?_ ?_
  · rcases hpair.resolve_left hk with rfl | rfl | ⟨index, -, rfl⟩
    · trivial
    · trivial
    · trivial
  · intro id id' hid hk
    rcases hid.resolve_left hk with e | e | ⟨index, hindex, e⟩
    · cases e
    · cases e
    · cases e
      exact cell_of_created hcreated hcreated' hmakers hindex
  · intro other other' hl hk
    rcases hl.resolve_left hk with e | e | ⟨index, -, e⟩
    · cases e
    · cases e
      exact ⟨hcreated.there, hcreated'.there⟩
    · cases e
  · intro other other' hl hk
    rcases hl.resolve_left hk with e | e | ⟨index, -, e⟩
    · cases e
      refine ⟨hcreated.there, hcreated'.there, hcls, ?_⟩
      rw [hcreated.rules, hcreated'.rules]
      rcases hmakers.eq_or with ⟨e, e'⟩ | ⟨makers, makers', e, e', hrel⟩
      · rw [e, e']
        exact .none
      · rw [e, e', Option.map_some, Option.map_some, hrel.names]
        refine .some (numbered fun index hindex => .inr (.inr (.inr ⟨index, ?_, rfl⟩)))
        rw [hcreated.rules, e]
        simpa [Store.numbered] using hindex
    · cases e
    · cases e

end Alike

end Store

end Descent
