import Descent.Proofs.Alike.Created
import Descent.Proofs.Composed.Honours

/-! # Scripts that were performed before

A script that runs no parser asks a store for things that do not change any more once they are
there. So what it ended with can be told from any later store, without performing it once more.

* **`Script.Within`** — a script runs no parser and asks for what is known only.
* **`Script.Replays`** — a script ends in a certain way with what a store can tell. The stages of
  lazy parsers and the answers of counters are left open, for a store does not remember them.
* **`Store.Tracked`** — the known lazy parsers that have been made replay how they were made.
* **`Script.Replays.of_grows`**, **`Store.Tracked.of_grows`** — what replays does so in all later
  stores.
* **`Store.Tracked.addCell`**, **`Store.Tracked.create`** — new lazy parsers and languages can be
  tracked. -/

namespace Descent

/-- Two runs may differ in the stages of lazy parsers and in the answers of counters. -/
def Leeway.caching : Leeway := ⟨False, True⟩

/-- A script runs no parser and asks for what is known only. That it is like some script says that
what it does not know cannot lead it elsewhere. -/
def Script.Within (known : Known) (script : Action Yield) : Prop :=
  script.Quiet ∧ ∃ (pairs : Pairing) (other : Action Yield), (∀ pair ∈ pairs, pair.1 ∈ known) ∧
    Action.Alike .caching pairs script other

/-- The rules that are made in this way ask for what is known, if their language is. -/
def RuleBody.Within (known : Known) (body : Owner → Action (Object Parser)) : Prop :=
  ∀ larger owner, known ⊆ larger → Reference.language owner.language ∈ larger →
    Reference.home owner.language ∈ larger → (body owner).objects.Within larger

/-- A script ends in a certain way with what a store can tell of known languages and known lazy
parsers. -/
inductive Script.Replays (known : Known) (store : Store) : Action Yield → Yield → Prop where
  /-- It is done. -/
  | done (yield : Yield) : Script.Replays known store (.done yield) yield
  /-- It leaves a note. -/
  | note {event : Event} {next : Action Yield} {yield : Yield}
      (hnext : Script.Replays known store next yield) :
      Script.Replays known store (.note event next) yield
  /-- It has a lazy parser made, whose own script replays. -/
  | build {cell : CellId} {found : Cell} {p : Parser} {next : Action Yield} {yield : Yield}
      (hcell : Reference.cell cell ∈ known) (hfound : store.cell? cell = some found)
      (hmade : Script.Replays known store found.make.action.objects (.object (.parser p)))
      (hnext : Script.Replays known store next yield) :
      Script.Replays known store (.build cell next) yield
  /-- It gets a lazy parser that has been added since. -/
  | defer {language : InstanceId} {name : String} {make : Maker} {next : CellId → Action Yield}
      {yield : Yield} {id : CellId} {cell : Cell} (hid : Reference.cell id ∈ known)
      (hcell : store.cell? id = some cell) (hstill : (Cell.unbuilt name make).Still cell)
      (hnext : Script.Replays known store (next id) yield) :
      Script.Replays known store (.defer language name make next) yield
  /-- It asks for some stage. -/
  | inspect {cell : CellId} {next : RuleState → String → Action Yield} {yield : Yield}
      {state : RuleState} {shown : String}
      (hnext : Script.Replays known store (next state shown) yield) :
      Script.Replays known store (.inspect cell next) yield
  /-- It asks for an attribute that is there. -/
  | lookUp {language : InstanceId} {name : String} {next : Object CellId → Action Yield}
      {yield : Yield} {found : Object CellId} (hlanguage : Reference.language language ∈ known)
      (hfound : store.lookUp language name = .ok found)
      (hnext : Script.Replays known store (next found) yield) :
      Script.Replays known store (.lookUp language name next) yield
  /-- It asks for a rule that is there. -/
  | rule {language : InstanceId} {name : String} {next : CellId → Action Yield} {yield : Yield}
      {cell : CellId} (hlanguage : Reference.language language ∈ known)
      (hcell : store.getRule language name = .ok cell)
      (hnext : Script.Replays known store (next cell) yield) :
      Script.Replays known store (.rule language name next) yield
  /-- It gets a language that has been made since. -/
  | create {className : String} {arguments : Table Value} {rules : Table (Owner → Maker)}
      {next : InstanceId → Action Yield} {yield : Yield} {language : InstanceId}
      (hlanguage : Reference.language language ∈ known) (hhome : Reference.home language ∈ known)
      (hcreated : store.Created language className arguments rules)
      (hnext : Script.Replays known store (next language) yield) :
      Script.Replays known store (.create className arguments rules next) yield
  /-- It asks for what was put aside. -/
  | fetch {name : String} {next : Object Handle → Action Yield} {yield : Yield}
      {found : Object Handle} (hfound : store.fetch name = .ok found)
      (hnext : Script.Replays known store (next found) yield) :
      Script.Replays known store (.fetch name next) yield
  /-- It asks a counter for some answer. -/
  | count {counter : Nat} {next : Nat → Action Yield} {yield : Yield} {before : Nat}
      (hnext : Script.Replays known store (next before) yield) :
      Script.Replays known store (.count counter next) yield

/-- The known lazy parsers that have been made replay how they were made, and what is known leads to
what is known. -/
structure Store.Tracked (store : Store) (known : Known) : Prop where
  /-- A known lazy parser is there and asks for what is known. If it has been made, its parser is
  what its script makes. -/
  cell : ∀ id, Reference.cell id ∈ known → ∃ cell, store.cell? id = some cell ∧
    cell.make.action.objects.Within known ∧ ∀ p, cell.parser = some p →
      cell.make.action.objects.Replays known store (.object (.parser p))
  /-- A known place for lazy parsers is there. -/
  home : ∀ language, Reference.home language ∈ known → language < store.instances.size
  /-- A known language is there, and its rules are known. -/
  language : ∀ language, Reference.language language ∈ known → language < store.instances.size ∧
    ∀ rules, (store.instanceAt language).rules = some rules →
      ∀ entry ∈ rules, Reference.cell entry.2 ∈ known
  /-- The rules of a known class ask for what is known. -/
  className : ∀ name cls, Reference.className name ∈ known → store.classNamed name = .ok cls →
    ∀ entry ∈ store.ruleTable (store.classAt cls).lineage,
      RuleBody.Within known (store.definitions.getD entry.2 default).action
  /-- What is known to have been put aside by name leads to what is known. -/
  shelved : ∀ name found, Reference.shelved name ∈ known → store.fetch name = .ok found →
    found.Within known (Handle.Within known)

variable {store after : Store} {known known' larger : Known}

/-! ## What is known -/

/-- What asks for what is known does so when more is. -/
theorem Script.Within.mono (hsub : known ⊆ larger) {script : Action Yield}
    (h : script.Within known) : script.Within larger := by
  obtain ⟨hquiet, pairs, other, hleft, halike⟩ := h
  exact ⟨hquiet, pairs, other, fun pair hpair => hsub (hleft pair hpair), halike⟩

/-- Rules that ask for what is known do so when more is. -/
theorem RuleBody.Within.mono (hsub : known ⊆ larger) {body : Owner → Action (Object Parser)}
    (h : RuleBody.Within known body) : RuleBody.Within larger body :=
  fun largest owner hlarger => h largest owner (hsub.trans hlarger)

/-- Scripts that are alike and quiet ask for what is paired. -/
theorem Action.Alike.within {pairs : Pairing} {action : Action (Object Parser)}
    {other : Action Yield} (h : Action.Alike .caching pairs action.objects other)
    (hquiet : action.Quiet) (hleft : ∀ pair ∈ pairs, pair.1 ∈ known) :
    action.objects.Within known :=
  ⟨hquiet.bind fun _ => trivial, pairs, other, hleft, h⟩

/-- What is known, each paired with itself. -/
def Known.diagonal (known : Known) : Pairing := {pair | pair.1 ∈ known ∧ pair.2 = pair.1}

/-- What is paired is known on the left, also when all that is known is paired with itself. -/
theorem Known.left_diagonal {pairs : Pairing} (hleft : ∀ pair ∈ pairs, pair.1 ∈ known)
    (hsub : known ⊆ larger) : ∀ pair ∈ pairs ∪ larger.diagonal, pair.1 ∈ larger := by
  rintro pair (hpair | hpair)
  · exact hsub (hleft pair hpair)
  · exact hpair.1

/-- Rules that are made alike ask for what is paired. -/
theorem RuleBody.Alike.within {pairs : Pairing} {body body' : Owner → Action (Object Parser)}
    (h : RuleBody.Alike .caching pairs body body') (hleft : ∀ pair ∈ pairs, pair.1 ∈ known) :
    RuleBody.Within known body := by
  intro larger owner hsub hlanguage hhome
  obtain ⟨halike, hquiet⟩ := h (pairs ∪ larger.diagonal) owner owner Set.subset_union_left
    ⟨rfl, .inr ⟨hlanguage, rfl⟩, .inr ⟨hhome, rfl⟩⟩
  exact halike.within (hquiet trivial).1 (Known.left_diagonal hleft hsub)

/-- Further rules that are made alike ask for what is paired. -/
theorem Store.RulesAlike.within {pairs : Pairing} {added added' : Table (Owner → Maker)}
    (h : RulesAlike .caching pairs added added') (hleft : ∀ pair ∈ pairs, pair.1 ∈ known) :
    ∀ entry ∈ added, RuleBody.Within known fun owner => (entry.2 owner).action := by
  induction h with
  | nil => nofun
  | cons hentry _ ih =>
    refine List.forall_mem_cons.mpr ⟨?_, ih⟩
    have halike : RuleBody.Alike .caching pairs _ _ := hentry.2
    exact halike.within hleft

/-! ## Later stores -/

/-- A script that replays does so in all later stores. -/
theorem Script.Replays.of_grows (hgrows : Store.Grows Cell.Still store after)
    (hsub : known ⊆ larger)
    (hlanguage : ∀ language, Reference.language language ∈ known → language < store.instances.size)
    {script : Action Yield} {yield : Yield} (h : script.Replays known store yield) :
    script.Replays larger after yield := by
  induction h with
  | done yield => exact .done yield
  | note _ ih => exact .note ih
  | build hcell hfound _ _ hmade hnext =>
    obtain ⟨found', hfound', hstill⟩ := hgrows.cell _ _ hfound
    rw [← hstill.make] at hmade
    exact .build (hsub hcell) hfound' hmade hnext
  | defer hid hcell hstill _ ih =>
    obtain ⟨cell', hcell', hstill'⟩ := hgrows.cell _ _ hcell
    exact .defer (hsub hid) hcell' (hstill.trans hstill') ih
  | inspect _ ih => exact .inspect ih
  | lookUp hl hfound _ ih =>
    rw [← hgrows.lookUp (hlanguage _ hl)] at hfound
    exact .lookUp (hsub hl) hfound ih
  | rule hl hcell _ ih =>
    rw [← hgrows.getRule (hlanguage _ hl)] at hcell
    exact .rule (hsub hl) hcell ih
  | create hl hhome hcreated _ ih =>
    exact .create (hsub hl) (hsub hhome) (hcreated.of_grows hgrows) ih
  | fetch hfound _ ih =>
    refine .fetch ?_ ih
    rw [← hfound]
    unfold Store.fetch
    rw [hgrows.shelf]
  | count _ ih => exact .count ih

namespace Store.Tracked

/-- What is tracked of languages. -/
theorem locates (h : store.Tracked known) : store.Locates known := ⟨h.home, h.language⟩

/-- A script that replays in a store with what is tracked does so in all later stores. -/
theorem replays (h : store.Tracked known) (hgrows : Grows Cell.Still store after)
    (hsub : known ⊆ larger) {script : Action Yield} {yield : Yield}
    (hreplays : script.Replays known store yield) : script.Replays larger after yield :=
  hreplays.of_grows hgrows hsub fun language hl => (h.language language hl).1

/-- What is tracked is so while the store grows, if what is made replays how it was made. -/
theorem of_grows (h : store.Tracked known) (hgrows : Grows Cell.Still store after)
    (hparser : ∀ id, Reference.cell id ∈ known → ∀ cell, after.cell? id = some cell →
      ∀ p, cell.parser = some p →
        cell.make.action.objects.Replays known after (.object (.parser p))) :
    after.Tracked known where
  cell id hid := by
    obtain ⟨cell, hcell, hwithin, -⟩ := h.cell id hid
    obtain ⟨cell', hcell', hstill⟩ := hgrows.cell id cell hcell
    rw [← hstill.make] at hwithin
    exact ⟨cell', hcell', hwithin, hparser id hid cell' hcell'⟩
  home := (h.locates.of_grows hgrows).home
  language := (h.locates.of_grows hgrows).language
  className name cls hname hcls := by
    rw [hgrows.classNamed] at hcls
    rw [hgrows.ruleTable, hgrows.definitions, hgrows.classAt cls]
    exact h.className name cls hname hcls
  shelved name found hname hfound := by
    refine h.shelved name found hname ?_
    rw [← hfound]
    unfold fetch
    rw [hgrows.shelf]

/-- Adding to a store leaves all tracked. -/
theorem of_adds (h : store.Tracked known) (hadds : Adds store after) : after.Tracked known := by
  have hgrows : Grows Cell.Still store after := .of_adds Cell.Still.refl hadds
  refine h.of_grows hgrows fun id hid cell hcell p hp => ?_
  obtain ⟨old, hold, -, hmade⟩ := h.cell id hid
  rw [hadds.cell?_eq_some hold, Option.some.injEq] at hcell
  subst hcell
  exact h.replays hgrows .rfl (hmade p hp)

/-- A lazy parser may be changed if it gets no parser but one that its script makes. -/
theorem modifyCell (h : store.Tracked known) {id : CellId} {change : Cell → Cell}
    (hstill : ∀ cell : Cell, cell.Still (change cell))
    (hparser : ∀ cell p, store.cell? id = some cell → (change cell).parser = some p →
      cell.parser = some p ∨
        cell.make.action.objects.Replays known store (.object (.parser p))) :
    (store.modifyCell id change).Tracked known := by
  have hgrows := grows_modifyCell store id change Cell.Still.refl hstill
  refine h.of_grows hgrows fun other hother cell hcell p hp => h.replays hgrows .rfl ?_
  obtain ⟨old, hold, -, hmade⟩ := h.cell other hother
  obtain ⟨cell', hcell', hsame⟩ := hgrows.cell other old hold
  rw [hcell, Option.some.injEq] at hcell'
  rw [hcell', hsame.make]
  rcases parser_of_modifyCell hold hcell hp with hp | ⟨rfl, hp⟩
  · exact hmade p hp
  · rcases hparser old p hold hp with hbefore | hnew
    · exact hmade p hbefore
    · exact hnew

/-! ## More that is tracked -/

/-- What is tracked in two ways is so in both at once. -/
theorem union (h : store.Tracked known) (h' : store.Tracked known') :
    store.Tracked (known ∪ known') where
  cell id hid := by
    have hrefl : Grows Cell.Still store store := .refl Cell.Still.refl store
    rcases hid with hid | hid
    · obtain ⟨cell, hcell, hwithin, hmade⟩ := h.cell id hid
      exact ⟨cell, hcell, hwithin.mono Set.subset_union_left, fun p hp =>
        h.replays hrefl Set.subset_union_left (hmade p hp)⟩
    · obtain ⟨cell, hcell, hwithin, hmade⟩ := h'.cell id hid
      exact ⟨cell, hcell, hwithin.mono Set.subset_union_right, fun p hp =>
        h'.replays hrefl Set.subset_union_right (hmade p hp)⟩
  home language hl := hl.elim (h.home language) (h'.home language)
  language language hl := by
    rcases hl with hl | hl
    · obtain ⟨hlt, hrules⟩ := h.language language hl
      exact ⟨hlt, fun rules hr item hitem => .inl (hrules rules hr item hitem)⟩
    · obtain ⟨hlt, hrules⟩ := h'.language language hl
      exact ⟨hlt, fun rules hr item hitem => .inr (hrules rules hr item hitem)⟩
  className name cls hname hcls item hitem := by
    rcases hname with hname | hname
    · exact (h.className name cls hname hcls item hitem).mono Set.subset_union_left
    · exact (h'.className name cls hname hcls item hitem).mono Set.subset_union_right
  shelved name found hname hfound := by
    rcases hname with hname | hname
    · exact (h.shelved name found hname hfound).mono Set.subset_union_left fun _ =>
        Handle.Within.mono Set.subset_union_left
    · exact (h'.shelved name found hname hfound).mono Set.subset_union_right fun _ =>
        Handle.Within.mono Set.subset_union_right

/-- More may be tracked: new lazy parsers that have not been made, and new languages. -/
theorem grow (h : store.Tracked known) (hmore : known.Extends larger)
    (hlocates : store.Locates larger)
    (hcell : ∀ id, Reference.cell id ∈ larger → Reference.cell id ∉ known →
      ∃ cell, store.cell? id = some cell ∧ cell.make.action.objects.Within larger ∧
        cell.parser = none) : store.Tracked larger where
  cell id hid := by
    by_cases hk : Reference.cell id ∈ known
    · obtain ⟨cell, hcell, hwithin, hmade⟩ := h.cell id hk
      exact ⟨cell, hcell, hwithin.mono hmore.subset, fun p hp =>
        h.replays (.refl Cell.Still.refl store) hmore.subset (hmade p hp)⟩
    · obtain ⟨cell, hcell, hwithin, hnone⟩ := hcell id hid hk
      refine ⟨cell, hcell, hwithin, fun p hp => ?_⟩
      rw [hnone] at hp
      cases hp
  home := hlocates.home
  language := hlocates.language
  className name cls hname hcls item hitem :=
    (h.className name cls (hmore.mem hname id) hcls item hitem).mono hmore.subset
  shelved name found hname hfound :=
    (h.shelved name found (hmore.mem hname id) hfound).mono hmore.subset fun _ =>
      Handle.Within.mono hmore.subset

/-- A new lazy parser can be tracked. -/
theorem addCell (h : store.Tracked known) {language : InstanceId} {name : String} {make : Maker}
    (hhome : Reference.home language ∈ known) (hmake : make.action.objects.Within known) :
    (store.addCell language name make).2.Tracked
      (insert (.cell (store.addCell language name make).1) known) := by
  have hadded := h.of_adds (adds_addCell store language name make)
  refine hadded.grow (.insert_cell _ _) (hadded.locates.insert_cell _) fun id hid hk => ?_
  have heq : id = (store.addCell language name make).1 :=
    Reference.cell.inj ((Set.mem_insert_iff.mp hid).resolve_right hk)
  rw [heq]
  exact ⟨_, cell?_addCell (h.home language hhome) name make, hmake.mono (Set.subset_insert _ _),
    rfl⟩

/-- The rules of a language ask for what is known where the language is known, if those of its class
and the further ones do. -/
theorem within_of_mem_makers (h : store.Tracked known) {className : String} {cls : ClassId}
    {added : Table (Owner → Maker)} {owner : Owner}
    (hclass : Reference.className className ∈ known) (hcls : store.classNamed className = .ok cls)
    (hadded : ∀ entry ∈ added, RuleBody.Within known fun owner => (entry.2 owner).action)
    (hsub : known ⊆ larger) (hlanguage : Reference.language owner.language ∈ larger)
    (hhome : Reference.home owner.language ∈ larger) {item : String × Maker}
    (hitem : item ∈ store.makers (store.classAt cls).lineage owner added) :
    item.2.action.objects.Within larger :=
  of_mem_makers (P := fun make => make.action.objects.Within larger)
    (fun inherited hinherited =>
      h.className className cls hclass hcls inherited hinherited _ _ hsub hlanguage hhome)
    (fun rule hrule => hadded rule hrule _ _ hsub hlanguage hhome) hitem

/-- A new language can be tracked, with its lazy parsers. -/
theorem create (h : store.Tracked known) {className : String} {arguments : Table Value}
    {added : Table (Owner → Maker)} {language : InstanceId}
    (hclass : Reference.className className ∈ known)
    (hadded : ∀ entry ∈ added, RuleBody.Within known fun owner => (entry.2 owner).action)
    (hcreate : store.create className arguments added = .ok (language, after)) :
    after.Tracked (Honours.withLanguage after known language) := by
  have hlater := h.of_adds (adds_create hcreate)
  obtain ⟨-, hcreated, -⟩ := Created.of_create hcreate
  refine hlater.grow (.withLanguage _ _ _) (hlater.locates.withLanguage hcreated)
    fun id hid hk => ?_
  obtain ⟨cls, hcls, item, hitem, hcell⟩ := Honours.exists_maker_of_mem_withLanguage hcreate hid hk
  exact ⟨_, hcell, h.within_of_mem_makers hclass hcls hadded (Honours.subset_withLanguage _ _ _)
    (Honours.language_mem_withLanguage _ _ _) (Honours.home_mem_withLanguage _ _ _) hitem, rfl⟩

end Store.Tracked

end Descent
