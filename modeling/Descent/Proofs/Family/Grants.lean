import Descent.Proofs.Family
import Descent.Proofs.Store.Created
import Descent.Proofs.Store.Opens
import Mathlib.Data.Set.Insert

/-! # Stores that grant a family

* **`Known.Extends`** — lazy parsers and languages have become known, and nothing else.
* **`Store.Locates`** — the known languages are there, and their rules are known.
* **`Store.Grants`** — the known references lead to parsers of a family in a store: what is made of
  them, and what has been made already.
* **`Store.Grants.of_grows`** — a store still grants what it granted while it grows, as long as the
  parsers put into known lazy parsers are of the family.
* **`Store.Grants.addCell`**, **`Store.Grants.create`** — a new lazy parser and a new language can
  become known.
* **`Store.Grants.lookUp`**, **`Store.Grants.getRule`** — what a known language answers is known
  too. -/

namespace Descent

/-! ## A language and all that belongs to it -/

namespace Store.Honours

variable {store : Store} {known : Known}

/-- What is known, and a language with all its lazy parsers. -/
def withLanguage (store : Store) (known : Known) (language : InstanceId) : Known :=
  known ∪ {reference | reference = .language language ∨ reference = .home language ∨
    ∃ index, (store.cell? ⟨language, index⟩).isSome ∧ reference = .cell ⟨language, index⟩}

theorem subset_withLanguage (store : Store) (known : Known) (language : InstanceId) :
    known ⊆ withLanguage store known language := Set.subset_union_left

theorem language_mem_withLanguage (store : Store) (known : Known) (language : InstanceId) :
    Reference.language language ∈ withLanguage store known language := .inr (.inl rfl)

theorem home_mem_withLanguage (store : Store) (known : Known) (language : InstanceId) :
    Reference.home language ∈ withLanguage store known language := .inr (.inr (.inl rfl))

/-- A lazy parser that becomes known with its language belongs to it and is there. -/
theorem of_cell_mem_withLanguage {language : InstanceId} {id : CellId}
    (hid : Reference.cell id ∈ withLanguage store known language)
    (hk : Reference.cell id ∉ known) : id.language = language ∧ (store.cell? id).isSome := by
  rcases hid with hid | hid | hid | ⟨index, hsome, hid⟩
  · exact absurd hid hk
  · cases hid
  · cases hid
  · cases hid
    exact ⟨rfl, hsome⟩

/-- A lazy parser that becomes known with a new language is to make one of its rules. -/
theorem exists_maker_of_mem_withLanguage {after : Store} {className : String}
    {arguments : Table Value} {rules : Table (Owner → Maker)} {language : InstanceId}
    (hcreate : store.create className arguments rules = .ok (language, after)) {id : CellId}
    (hid : Reference.cell id ∈ withLanguage after known language)
    (hk : Reference.cell id ∉ known) : ∃ cls, store.classNamed className = .ok cls ∧
      ∃ entry ∈ store.makers (store.classAt cls).lineage ⟨language, arguments⟩ rules,
        after.cell? id = some (.unbuilt (lazyName entry.1) entry.2) := by
  obtain ⟨rfl, hsome⟩ := of_cell_mem_withLanguage hid hk
  obtain ⟨cell, hcell⟩ := Option.isSome_iff_exists.mp hsome
  obtain ⟨cls, hcls, entry, hentry, rfl⟩ := cell?_create hcreate hcell
  exact ⟨cls, hcls, entry, hentry, hcell⟩

end Store.Honours

/-! ## What becomes known -/

/-- More is known, but only of lazy parsers and of languages. -/
structure Known.Extends (known larger : Known) : Prop where
  /-- Nothing has been forgotten. -/
  subset : known ⊆ larger
  /-- What has become known is a lazy parser or a language. -/
  made : ∀ reference ∈ larger, reference ∉ known → reference.IsMade

namespace Known.Extends

variable {known larger : Known}

/-- Whatever is neither a lazy parser nor a language was known before. -/
theorem mem (h : known.Extends larger) {reference : Reference} (hr : reference ∈ larger)
    (hnot : ¬ reference.IsMade) : reference ∈ known := by
  by_contra hk
  exact hnot (h.made reference hr hk)

/-- A lazy parser more. -/
theorem insert_cell (known : Known) (id : CellId) : known.Extends (insert (.cell id) known) := by
  refine ⟨Set.subset_insert _ _, fun reference hr hk => ?_⟩
  rw [(Set.mem_insert_iff.mp hr).resolve_right hk]
  trivial

/-- A language more, with its lazy parsers. -/
theorem withLanguage (store : Store) (known : Known) (language : InstanceId) :
    known.Extends (Store.Honours.withLanguage store known language) := by
  refine ⟨Store.Honours.subset_withLanguage _ _ _, fun reference hr hk => ?_⟩
  rcases hr.resolve_left hk with rfl | rfl | ⟨index, -, rfl⟩
  · trivial
  · trivial
  · trivial

end Known.Extends

/-- The known languages are there, and their rules are known. -/
structure Store.Locates (store : Store) (known : Known) : Prop where
  /-- A known place for lazy parsers is there. -/
  home : ∀ language, Reference.home language ∈ known → language < store.instances.size
  /-- A known language is there, and its rules are known. -/
  language : ∀ language, Reference.language language ∈ known → language < store.instances.size ∧
    ∀ rules, (store.instanceAt language).rules = some rules →
      ∀ entry ∈ rules, Reference.cell entry.2 ∈ known

namespace Store.Locates

variable {store after : Store} {known : Known} {keeps : Cell → Cell → Prop}

/-- A store that has grown has the same languages with the same rules. -/
theorem of_grows (h : store.Locates known) (hgrows : Grows keeps store after) :
    after.Locates known where
  home language hl := Nat.lt_of_lt_of_le (h.home language hl) hgrows.size_le
  language language hl := by
    obtain ⟨hlt, hrules⟩ := h.language language hl
    refine ⟨Nat.lt_of_lt_of_le hlt hgrows.size_le, ?_⟩
    rw [hgrows.rules language hlt]
    exact hrules

/-- To know of a lazy parser more says nothing of languages. -/
theorem insert_cell (h : store.Locates known) (id : CellId) :
    store.Locates (insert (.cell id) known) where
  home language hl := h.home language (Set.mem_of_mem_insert_of_ne hl nofun)
  language language hl := by
    obtain ⟨hlt, hrules⟩ := h.language language (Set.mem_of_mem_insert_of_ne hl nofun)
    exact ⟨hlt, fun rules hr entry hentry => Set.mem_insert_of_mem _ (hrules rules hr entry hentry)⟩

/-- A language that was made may become known, with its lazy parsers. -/
theorem withLanguage (h : store.Locates known) {language : InstanceId} {className : String}
    {arguments : Table Value} {added : Table (Owner → Maker)}
    (hcreated : store.Created language className arguments added) :
    store.Locates (Honours.withLanguage store known language) where
  home other hl := by
    rcases hl with hl | hl | hl | ⟨index, -, hl⟩
    · exact h.home other hl
    · cases hl
    · cases hl
      exact hcreated.there
    · cases hl
  language other hl := by
    rcases hl with hl | hl | hl | ⟨index, -, hl⟩
    · obtain ⟨hlt, hrules⟩ := h.language other hl
      exact ⟨hlt, fun rules hr entry hentry => .inl (hrules rules hr entry hentry)⟩
    · cases hl
      refine ⟨hcreated.there, fun rules hrules entry hentry => ?_⟩
      obtain ⟨index, hcell, hsome⟩ := hcreated.rules_there hrules hentry
      rw [hcell]
      exact .inr (.inr (.inr ⟨index, hsome, rfl⟩))
    · cases hl
    · cases hl

end Store.Locates

/-- The known references lead to parsers of a family in a store. -/
structure Store.Grants (family : Family) (store : Store) (known : Known) : Prop where
  /-- A known lazy parser is there, and it makes, or has made, a parser of the family. -/
  cell : ∀ id, Reference.cell id ∈ known → ∃ cell, store.cell? id = some cell ∧
    Action.Makes family known cell.make.action ∧ ∀ p, cell.parser = some p → family known p
  /-- A known place for lazy parsers is there. -/
  home : ∀ language, Reference.home language ∈ known → language < store.instances.size
  /-- A known language is there, and its rules are known. -/
  language : ∀ language, Reference.language language ∈ known → language < store.instances.size ∧
    ∀ rules, (store.instanceAt language).rules = some rules →
      ∀ entry ∈ rules, Reference.cell entry.2 ∈ known
  /-- The rules of a known class make parsers of the family. -/
  className : ∀ name cls, Reference.className name ∈ known → store.classNamed name = .ok cls →
    ∀ entry ∈ store.ruleTable (store.classAt cls).lineage,
      RuleBody.Makes family known (store.definitions.getD entry.2 default).action
  /-- What is known to have been put aside by name leads to what is known. -/
  shelved : ∀ name found, Reference.shelved name ∈ known → store.fetch name = .ok found →
    found.Within known (Handle.Within known)
  /-- A parser known to have been put aside is one of the family. -/
  kept : ∀ number, Reference.kept number ∈ known →
    family known (store.kept.getD number default)

namespace Store

/-! ## What a language answers -/

section Answers

variable {store : Store} {known : Known} {language : InstanceId} {name : String}
  (hrules : ∀ rules, (store.instanceAt language).rules = some rules →
    ∀ entry ∈ rules, Reference.cell entry.2 ∈ known)

include hrules

/-- A rule is known if all rules of the language are. -/
theorem getRule_within {cell : CellId} (hrule : store.getRule language name = .ok cell) :
    Reference.cell cell ∈ known := by
  obtain ⟨rules, hsome, hget⟩ := getRule_eq_ok hrule
  exact hrules rules hsome _ (Table.mem_of_get? hget)

/-- What the last resort of an attribute finds is known if all rules of the language are. -/
theorem fallback_within {found : Object CellId}
    (hfound : store.fallback language name = .ok found) :
    found.Within known (Reference.cell · ∈ known) := by
  unfold Store.fallback at hfound
  simp only [bind, Except.bind, pure, Except.pure] at hfound
  split at hfound
  · cases hfound
  · split at hfound
    · cases hfound
    · split at hfound
      · cases hfound
      · rename_i cell hcell
        cases hfound
        exact getRule_within hrules hcell

/-- What the class of a language says leads to a rule of the language, if to any parser at all. -/
theorem lookUpOnClass_within {found : Object CellId}
    (hfound : store.lookUpOnClass language name = .ok found) :
    found.Within known (Reference.cell · ∈ known) := by
  unfold lookUpOnClass at hfound
  split at hfound
  · split at hfound
    · rename_i cell hcell
      cases hfound
      exact getRule_within hrules hcell
    · exact fallback_within hrules hfound
    · cases hfound
  · cases hfound
    trivial
  · split at hfound
    · cases hfound
      unfold inbuilt
      split
      · trivial
      · split <;> trivial
    · exact fallback_within hrules hfound

/-- An attribute leads to what is known if all rules of the language are. -/
theorem lookUp_within {found : Object CellId} (hfound : store.lookUp language name = .ok found) :
    found.Within known (Reference.cell · ∈ known) := by
  unfold Store.lookUp at hfound
  split at hfound
  · rename_i rules hsome
    split at hfound
    · cases hfound
      exact hrules rules hsome
    · exact lookUpOnClass_within hrules hfound
  · exact lookUpOnClass_within hrules hfound

end Answers

end Store

namespace Store.Grants

variable {family : Family} {store after : Store} {known : Known} {keeps : Cell → Cell → Prop}

/-- What is granted of languages. -/
theorem locates (h : store.Grants family known) : store.Locates known := ⟨h.home, h.language⟩

/-- A store that has grown grants the same references if the parsers made since are of the
family. -/
theorem of_grows (h : store.Grants family known) (hgrows : Grows keeps store after)
    (hmake : ∀ a b, keeps a b → b.make = a.make)
    (hparser : ∀ id, Reference.cell id ∈ known → ∀ cell, after.cell? id = some cell →
      ∀ p, cell.parser = some p → family known p) : after.Grants family known where
  cell id hid := by
    -- a lazy parser is still made in the same way, whatever else has changed in it
    obtain ⟨cell, hcell, hfamily, -⟩ := h.cell id hid
    obtain ⟨cell', hcell', hkeeps⟩ := hgrows.cell id cell hcell
    refine ⟨cell', hcell', ?_, hparser id hid cell' hcell'⟩
    rw [hmake cell cell' hkeeps]
    exact hfamily
  home := (h.locates.of_grows hgrows).home
  language := (h.locates.of_grows hgrows).language
  className name cls hname hcls := by
    rw [hgrows.classNamed] at hcls
    rw [hgrows.ruleTable, hgrows.definitions, hgrows.classAt cls]
    exact h.className name cls hname hcls
  shelved name found hname hfound := by
    refine h.shelved name found hname ?_
    rw [← hfound]
    unfold fetch
    rw [hgrows.shelf]
  kept number hnumber := by
    rw [hgrows.kept]
    exact h.kept number hnumber

/-- Adding to a store leaves all that is granted. -/
theorem of_adds (h : store.Grants family known) (hadds : Adds store after) :
    after.Grants family known := by
  refine h.of_grows hadds (fun a b hab => by rw [hab]) fun id hid cell hcell p hp => ?_
  obtain ⟨cell', hcell', -, hfamily⟩ := h.cell id hid
  rw [hadds.cell?_eq_some hcell', Option.some.injEq] at hcell
  exact hfamily p (hcell ▸ hp)

/-- A lazy parser that gets a parser only if that is of the family, or if it is not known itself. -/
theorem modifyCell (h : store.Grants family known) {id : CellId} {change : Cell → Cell}
    (hmake : ∀ cell, (change cell).make = cell.make)
    (hparser : Reference.cell id ∈ known → ∀ cell p, (change cell).parser = some p →
      cell.parser = some p ∨ family known p) :
    (store.modifyCell id change).Grants family known := by
  have hgrows : Grows (fun a b => b.make = a.make) store (store.modifyCell id change) :=
    grows_modifyCell store id change (fun _ => rfl) hmake
  refine h.of_grows hgrows (fun _ _ hab => hab) fun other hother cell hcell p hp => ?_
  obtain ⟨old, hold, -, hfamily⟩ := h.cell other hother
  rcases parser_of_modifyCell hold hcell hp with hp | ⟨rfl, hp⟩
  · exact hfamily p hp
  · rcases hparser hother old p hp with hbefore | hnew
    · exact hfamily p hbefore
    · exact hnew

/-- More may be known of a store: what was known is granted still, so only the new lazy parsers and
the languages have to be looked at. -/
theorem grow (hmono : family.Monotone) {larger : Known} (h : store.Grants family known)
    (hmore : known.Extends larger) (hlocates : store.Locates larger)
    (hcell : ∀ id, Reference.cell id ∈ larger → Reference.cell id ∉ known →
      ∃ cell, store.cell? id = some cell ∧ Action.Makes family larger cell.make.action ∧
        ∀ p, cell.parser = some p → family larger p) : store.Grants family larger where
  cell id hid := by
    by_cases hk : Reference.cell id ∈ known
    · obtain ⟨cell, hc, hmake, hparser⟩ := h.cell id hk
      exact ⟨cell, hc, hmake.mono hmono hmore.subset, fun p hp =>
        hmono hmore.subset _ (hparser p hp)⟩
    · exact hcell id hid hk
  home := hlocates.home
  language := hlocates.language
  className name cls hname hcls entry hentry larger' owner hsub' :=
    h.className name cls (hmore.mem hname id) hcls entry hentry larger' owner
      (hmore.subset.trans hsub')
  shelved name found hname hfound :=
    (h.shelved name found (hmore.mem hname id) hfound).mono hmore.subset fun handle =>
      Handle.Within.mono hmore.subset
  kept number hnumber := hmono hmore.subset _ (h.kept number (hmore.mem hnumber id))

/-- At the beginning the one class there is has no rules, so it may be known. -/
theorem initial (logging : Bool) :
    (Store.initial logging).Grants family {.className Store.baseName} where
  cell id hid := by cases hid
  home language hl := by cases hl
  language language hl := by cases hl
  className name cls hname hcls entry hentry := by
    cases hname
    cases hcls
    cases hentry
  shelved name found hname := by cases hname
  kept number hnumber := by cases hnumber

/-! ## New lazy parsers and new languages -/

/-- A new lazy parser that makes parsers of the family can become known. -/
theorem addCell (hmono : family.Monotone) (h : store.Grants family known)
    {language : InstanceId} (name : String) {make : Maker}
    (hhome : Reference.home language ∈ known) (hmake : Action.Makes family known make.action) :
    (store.addCell language name make).2.Grants family
      (insert (.cell (store.addCell language name make).1) known) := by
  have hadded := h.of_adds (adds_addCell store language name make)
  refine hadded.grow hmono (.insert_cell _ _) (hadded.locates.insert_cell _) fun id hid hk => ?_
  have heq : id = (store.addCell language name make).1 :=
    Reference.cell.inj ((Set.mem_insert_iff.mp hid).resolve_right hk)
  rw [heq]
  exact ⟨_, cell?_addCell (h.home language hhome) name make,
    hmake.mono hmono (Set.subset_insert _ _), nofun⟩

/-- The rules of a language make parsers of the family where the language is known, if those of its
class and those of its mapping do. -/
theorem makes_of_mem_makers {larger : Known} {className : String} {cls : ClassId}
    {rules : Table (Owner → Maker)} {owner : Owner} (h : store.Grants family known)
    (hclass : Reference.className className ∈ known) (hcls : store.classNamed className = .ok cls)
    (hrules : ∀ entry ∈ rules, ∀ larger owner, known ⊆ larger →
      Reference.language owner.language ∈ larger → Reference.home owner.language ∈ larger →
      Action.Makes family larger (entry.2 owner).action)
    (hsub : known ⊆ larger) (hlanguage : Reference.language owner.language ∈ larger)
    (hhome : Reference.home owner.language ∈ larger) {entry : String × Maker}
    (hentry : entry ∈ store.makers (store.classAt cls).lineage owner rules) :
    Action.Makes family larger entry.2.action :=
  of_mem_makers (P := fun make => Action.Makes family larger make.action)
    (fun inherited hinherited =>
      h.className className cls hclass hcls inherited hinherited _ _ hsub hlanguage hhome)
    (fun rule hrule => hrules rule hrule _ _ hsub hlanguage hhome) hentry

/-- A new language grants its own rules if the rules of its class, and those of the mapping that it
was made with, make parsers of the family. -/
theorem create (hmono : family.Monotone) {className : String} {arguments : Table Value}
    {rules : Table (Owner → Maker)} {language : InstanceId} (h : store.Grants family known)
    (hcreate : store.create className arguments rules = .ok (language, after))
    (hclass : Reference.className className ∈ known)
    (hrules : ∀ entry ∈ rules, ∀ larger owner, known ⊆ larger →
      Reference.language owner.language ∈ larger → Reference.home owner.language ∈ larger →
      Action.Makes family larger (entry.2 owner).action) :
    after.Grants family (Honours.withLanguage after known language) := by
  have hadded := h.of_adds (adds_create hcreate)
  obtain ⟨-, hcreated, -⟩ := Created.of_create hcreate
  refine hadded.grow hmono (.withLanguage _ _ _) (hadded.locates.withLanguage hcreated)
    fun id hid hk => ?_
  obtain ⟨cls, hcls, entry, hentry, hcell⟩ :=
    Honours.exists_maker_of_mem_withLanguage hcreate hid hk
  exact ⟨_, hcell, h.makes_of_mem_makers hclass hcls hrules (Honours.subset_withLanguage _ _ _)
    (Honours.language_mem_withLanguage _ _ _) (Honours.home_mem_withLanguage _ _ _) hentry, nofun⟩

/-! ## What a known language answers -/

/-- A rule of a known language is known. -/
theorem getRule (h : store.Grants family known) {language : InstanceId} {name : String}
    {cell : CellId} (hl : Reference.language language ∈ known)
    (hrule : store.getRule language name = .ok cell) :
    Reference.cell cell ∈ known :=
  getRule_within (h.language language hl).2 hrule

/-- An attribute of a known language leads to what is known. -/
theorem lookUp (h : store.Grants family known) {language : InstanceId} {name : String}
    {found : Object CellId} (hl : Reference.language language ∈ known)
    (hfound : store.lookUp language name = .ok found) :
    found.Within known (Reference.cell · ∈ known) :=
  lookUp_within (h.language language hl).2 hfound

end Store.Grants

end Descent
