import Descent.Proofs.Invariants
import Descent.Proofs.Store.Classes
import Descent.Proofs.Store.LookUp
import Descent.Proofs.Table

/-! # Rules as attributes

A rule of a language can be had in two ways: from the language's own table, and as an attribute. The
table has what the class called by a name, whereas an attribute is looked up by the name that its
definition was given last, by whichever class. The two ways come to the same thing as long as no
definition is given a second name.

* **`Store.Apart`** — no lazy parser stands under two names of a language's table.
* **`Store.Titled`** — every rule of a class has the name of its definition.
* **`Deed.Straight`** — what gives no definition a second name.
* **`Store.titled_of_straight`** — if nothing else is done, every rule has the name of its
  definition.
* **`Store.agree_iff`** — main statement: when the two ways come to the same thing. -/

namespace Descent

namespace Store

variable {store after : Store}

/-! ## Lazy parsers and their names -/

/-- No lazy parser stands under two names of a language's table. -/
def Apart (store : Store) : Prop :=
  ∀ language rules, (store.instanceAt language).rules = some rules →
    ∀ name other cell, rules.get? name = some cell → rules.get? other = some cell → name = other

/-- A language that is not there has no table. -/
theorem rules_of_size_le {language : InstanceId} (h : store.instances.size ≤ language) :
    (store.instanceAt language).rules = none := by
  unfold instanceAt
  rw [Array.getD_eq_getD_getElem?, Array.getElem?_eq_none h]
  rfl

/-- In the table of a new language, each name has a lazy parser of its own. -/
theorem apart_numbered {language : InstanceId} {makers : Table Maker} {name other : String}
    {cell : CellId} (hname : (numbered language makers.names).get? name = some cell)
    (hother : (numbered language makers.names).get? other = some cell) : name = other := by
  obtain ⟨index, maker, hcell, hindex, -⟩ := Table.get?_numbered (CellId.mk language) hname
  obtain ⟨index', maker', hcell', hindex', -⟩ :=
    Table.get?_numbered (CellId.mk language) hother
  have hsame : 0 + index = 0 + index' := congrArg CellId.index (hcell.symm.trans hcell')
  rw [Nat.add_left_cancel hsame, hindex'] at hindex
  cases hindex
  rfl

theorem Apart.create {className : String} {arguments : Table Value}
    {rules : Table (Owner → Maker)} {language : InstanceId} (h : store.Apart)
    (hcreate : store.create className arguments rules = .ok (language, after)) : after.Apart := by
  obtain ⟨cls, -, -, made, rfl, hmade⟩ := create_eq_ok hcreate
  intro language' rules' hrules
  rcases Nat.lt_trichotomy language' store.instances.size with hlt | rfl | hgt
  · rw [instanceAt_push store made hlt] at hrules
    exact h language' rules' hrules
  · rw [instanceAt_push_self] at hrules
    rcases hmade with rfl | rfl
    · cases hrules
      exact fun name other cell => apart_numbered
    · cases hrules
  · rw [rules_of_size_le (by simpa using Nat.succ_le_of_lt hgt)] at hrules
    cases hrules

/-- The name that a definition was given last. -/
def titleOf (store : Store) (definition : DefinitionId) : String :=
  (store.definitions.getD definition default).name

/-- Every rule of a class has the name of its definition. -/
def Titled (store : Store) : Prop :=
  ∀ made ∈ store.classes, ∀ name definition, (name, .rule definition) ∈ made.attributes →
    definition < store.definitions.size ∧ store.titleOf definition = name

/-- What a name stands for on a class is an attribute of some class. -/
theorem exists_of_findAttribute {lineage : List ClassId} {name : String} {entry : Attribute}
    (h : store.findAttribute lineage name = some entry) :
    ∃ made ∈ store.classes, (name, entry) ∈ made.attributes := by
  obtain ⟨cls, -, hget⟩ := List.exists_of_findSome?_eq_some h
  unfold classAt at hget
  rw [Array.getD_eq_getD_getElem?] at hget
  cases hmade : store.classes[cls]? with
  | none =>
    rw [hmade] at hget
    cases hget
  | some made =>
    rw [hmade] at hget
    exact ⟨made, Array.mem_of_getElem? hmade, Table.mem_of_get? hget⟩

/-- The rules of a class have the names of their definitions. -/
theorem Titled.titleOf_eq (h : store.Titled) {lineage : List ClassId} {name : String}
    {definition : DefinitionId}
    (hfound : store.findAttribute lineage name = some (.rule definition)) :
    definition < store.definitions.size ∧ store.titleOf definition = name := by
  obtain ⟨made, hmade, hentry⟩ := exists_of_findAttribute hfound
  exact h made hmade name definition hentry

/-- A later definition leaves the names of the others. -/
theorem titleOf_push (store : Store) (added : Definition) {definition : DefinitionId}
    (h : definition < store.definitions.size) :
    ({ store with definitions := store.definitions.push added } : Store).titleOf definition
      = store.titleOf definition := by
  unfold titleOf
  rw [Definitions.getD_push, if_neg (Nat.ne_of_lt h)]

theorem titleOf_push_self (store : Store) (added : Definition) :
    ({ store with definitions := store.definitions.push added } : Store).titleOf
      store.definitions.size = added.name := by
  unfold titleOf
  rw [Definitions.getD_push, if_pos rfl]

/-- A definition that is given a name has it; the others keep theirs. -/
theorem titleOf_modify (store : Store) {named : DefinitionId} (name : String)
    (h : named < store.definitions.size) (definition : DefinitionId) :
    ({ store with
        definitions := store.definitions.modify named fun old => { old with name := name } } :
      Store).titleOf definition
      = if named = definition then name else store.titleOf definition := by
  unfold titleOf
  rw [Definitions.getD_modify]
  by_cases hsame : named = definition
  · rw [if_pos ⟨hsame, hsame ▸ h⟩, if_pos hsame]
  · rw [if_neg (fun hboth => hsame hboth.1), if_neg hsame]

/-- The rules among some attributes are those that stand for a definition. -/
theorem mem_rulesAmong {attributes : Table Attribute} {name : String} {definition : DefinitionId} :
    (name, definition) ∈ rulesAmong attributes ↔ (name, .rule definition) ∈ attributes := by
  unfold rulesAmong
  rw [List.mem_filterMap]
  constructor
  · rintro ⟨⟨name', _ | _⟩, hentry, heq⟩
    · cases heq
      exact hentry
    · cases heq
  · exact fun hentry => ⟨_, hentry, rfl⟩

/-- The rules of a class need not be named in order if none of them is given two names: in the end
each has its name, and so has every definition that had it before. -/
theorem titleOf_nameRules {title : DefinitionId → String} {attributes : Table Attribute}
    (htitle : ∀ name definition, (name, .rule definition) ∈ attributes →
      definition < store.definitions.size ∧ title definition = name) {definition : DefinitionId}
    (h : store.titleOf definition = title definition ∨
      ∃ name, (name, .rule definition) ∈ attributes) :
    (store.nameRules attributes).titleOf definition = title definition := by
  simp only [← mem_rulesAmong] at htitle h
  unfold nameRules
  generalize rulesAmong attributes = rules at htitle h
  induction rules generalizing store with
  | nil => exact h.resolve_right (by simp)
  | cons rule rest ih =>
    obtain ⟨name, named⟩ := rule
    obtain ⟨hnamed, hname⟩ := htitle name named List.mem_cons_self
    refine ih (fun other d hmem => ?_) ?_
    · obtain ⟨hlt, heq⟩ := htitle other d (List.mem_cons_of_mem _ hmem)
      exact ⟨by rwa [Array.size_modify], heq⟩
    · rw [titleOf_modify store name hnamed]
      by_cases hsame : named = definition
      · rw [if_pos hsame, ← hsame]
        exact .inl hname.symm
      · rw [if_neg hsame]
        refine h.imp_right fun ⟨other, hmem⟩ => ⟨other, ?_⟩
        refine (List.mem_cons.mp hmem).resolve_left fun heq => hsame ?_
        exact (congrArg Prod.snd heq).symm

/-! ## Classes whose rules have one name -/

end Store

/-- A member that gives no definition a second name: a rule that comes late is made from a function
of its name, and what is there already is taken over under the name that it has. -/
def Member.Straight (member : Member) : Prop :=
  match member.content with
  | .rule functionName _ _ => member.late = true → functionName = member.name
  | .alias other => other = member.name
  | .value _ => True

/-- A deed that gives no definition a second name. -/
def Deed.Straight : Deed → Prop
  | .defineClass _ _ _ members => ∀ member ∈ members, member.Straight
  | .operate _ | .shelve .. => True

namespace Store

variable {store after : Store}

/-- The attributes of a class that is being made on top of a store, where each rule has the one name
that its definition is to have. -/
structure Entitled (store : Store) (title : DefinitionId → String)
    (made : Store × Table Attribute) : Prop where
  /-- No class has been added. -/
  classes : made.1.classes = store.classes
  /-- No definition has gone. -/
  size_le : store.definitions.size ≤ made.1.definitions.size
  /-- Those that were there have kept their names. -/
  kept : ∀ definition < store.definitions.size,
    made.1.titleOf definition = store.titleOf definition
  /-- They are to keep them. -/
  stays : ∀ definition < store.definitions.size, title definition = store.titleOf definition
  /-- Every rule has the name that its definition is to have. -/
  titled : ∀ name definition, (name, .rule definition) ∈ made.2 →
    definition < made.1.definitions.size ∧ title definition = name

/-- What an inherited name stands for is entitled to it. -/
theorem Entitled.of_findAttribute {title : DefinitionId → String} {made : Store × Table Attribute}
    (h : Entitled store title made) (hstore : store.Titled) {bases : List ClassId} {name : String}
    {definition : DefinitionId}
    (hfound : made.1.findAttribute bases name = some (.rule definition)) :
    definition < made.1.definitions.size ∧ title definition = name := by
  obtain ⟨cls, hcls, hentry⟩ := exists_of_findAttribute hfound
  rw [h.classes] at hcls
  obtain ⟨hlt, htitle⟩ := hstore cls hcls name definition hentry
  exact ⟨Nat.lt_of_lt_of_le hlt h.size_le, (h.stays definition hlt).trans htitle⟩

/-- A name that is given to something else, and is entitled to it. -/
theorem Entitled.put {title : DefinitionId → String} {current : Store}
    {attributes : Table Attribute} (h : Entitled store title (current, attributes)) {name : String}
    {entry : Attribute}
    (hentry : ∀ definition, entry = .rule definition →
      definition < current.definitions.size ∧ title definition = name) :
    Entitled store title (current, attributes.put name entry) where
  classes := h.classes
  size_le := h.size_le
  kept := h.kept
  stays := h.stays
  titled other definition hmem := by
    rcases Table.mem_put hmem with heq | hmem
    · cases heq
      exact hentry definition rfl
    · exact h.titled other definition hmem

/-- A definition more, that is to have some name. -/
theorem Entitled.push {title : DefinitionId → String} {current : Store}
    {attributes : Table Attribute} (h : Entitled store title (current, attributes))
    (added : Definition) (name : String) :
    Entitled store (Function.update title current.definitions.size name)
      ({ current with definitions := current.definitions.push added }, attributes) where
  classes := h.classes
  size_le := by simpa using Nat.le_succ_of_le h.size_le
  kept definition hlt := by
    rw [titleOf_push _ _ (Nat.lt_of_lt_of_le hlt h.size_le)]
    exact h.kept definition hlt
  stays definition hlt := by
    rw [Function.update_of_ne (Nat.ne_of_lt (Nat.lt_of_lt_of_le hlt h.size_le))]
    exact h.stays definition hlt
  titled other definition hmem := by
    obtain ⟨hlt, htitle⟩ := h.titled other definition hmem
    rw [Function.update_of_ne (Nat.ne_of_lt hlt)]
    exact ⟨by simpa using Nat.lt_succ_of_lt hlt, htitle⟩

/-- One more member that gives no definition a second name. If the definitions have the names that
they are to have, and the member comes late, they have them afterwards. -/
theorem Entitled.addMember {title : DefinitionId → String} {bases : List ClassId}
    {made made' : Store × Table Attribute} {member : Member} (h : Entitled store title made)
    (hstore : store.Titled) (hmember : member.Straight)
    (hadd : Store.addMember bases made member = .ok made') :
    ∃ title', Entitled store title' made' ∧
      (member.late = true →
        (∀ definition < made.1.definitions.size, made.1.titleOf definition = title definition) →
        ∀ definition < made'.1.definitions.size,
          made'.1.titleOf definition = title' definition) := by
  obtain ⟨current, attributes⟩ := made
  obtain ⟨name, late, content⟩ := member
  unfold Store.addMember at hadd
  cases content with
  | rule functionName errorName body =>
    cases hadd
    -- the new definition is to have the name of the member
    refine ⟨_, (h.push ⟨functionName, errorName, body⟩ name).put ?_, fun hlate hnames d hd => ?_⟩
    · rintro d ⟨⟩
      exact ⟨by simp, Function.update_self ..⟩
    · simp only [Array.size_push] at hd
      rcases Nat.lt_succ_iff_lt_or_eq.mp hd with hlt | rfl
      · rw [titleOf_push _ _ hlt, Function.update_of_ne (Nat.ne_of_lt hlt)]
        exact hnames d hlt
      · rw [titleOf_push_self, Function.update_self]
        exact hmember hlate
  | value value =>
    cases hadd
    exact ⟨title, h.put nofun, fun _ hnames => hnames⟩
  | «alias» other =>
    obtain rfl : other = name := hmember
    simp only at hadd
    split at hadd
    · rename_i entry hfound
      cases hadd
      refine ⟨title, h.put ?_, fun _ hnames => hnames⟩
      rintro d rfl
      rcases Option.or_eq_some_iff.mp hfound with hown | ⟨-, hinherited⟩
      · exact h.titled other d (Table.mem_of_get? hown)
      · exact h.of_findAttribute hstore hinherited
    · cases hadd

/-- The body of a class whose members give no definition a second name. -/
theorem Titled.addMembers (h : store.Titled) {bases : List ClassId} {members : List Member}
    (hmembers : ∀ member ∈ members, member.Straight) {made : Store × Table Attribute}
    (hadd : members.foldlM (Store.addMember bases) (store, []) = .ok made) :
    ∃ title, Entitled store title made := by
  refine inv_addMembers (fun made => ∃ title, Entitled store title made) ?_ ?_ hadd
  · rintro member hmember made made' ⟨title, hmade⟩ hone
    obtain ⟨title', hmade', -⟩ := hmade.addMember h (hmembers member hmember) hone
    exact ⟨title', hmade'⟩
  · exact ⟨store.titleOf, rfl, Nat.le_refl _, fun _ _ => rfl, fun _ _ => rfl, nofun⟩

/-- Late members leave every definition with the name that it is to have. -/
theorem Entitled.addMembers {attributes : Table Attribute}
    (h : Entitled store store.titleOf (store, attributes)) (hstore : store.Titled)
    {bases : List ClassId} {members : List Member}
    (hmembers : ∀ member ∈ members, member.Straight ∧ member.late = true)
    {made : Store × Table Attribute}
    (hadd : members.foldlM (Store.addMember bases) (store, attributes) = .ok made) :
    ∃ title, Entitled store title made ∧
      ∀ definition < made.1.definitions.size, made.1.titleOf definition = title definition := by
  refine inv_addMembers (fun made => ∃ title, Entitled store title made ∧
    ∀ d < made.1.definitions.size, made.1.titleOf d = title d) ?_ ?_ hadd
  · rintro member hmember made made' ⟨title, hmade, hnames⟩ hone
    obtain ⟨hstraight, hlate⟩ := hmembers member hmember
    obtain ⟨title', hmade', hnames'⟩ := hmade.addMember hstore hstraight hone
    exact ⟨title', hmade', hnames' hlate hnames⟩
  · exact ⟨store.titleOf, h, fun _ _ => rfl⟩

/-- Once the body of a class is complete, its rules get the names that they are to have, and the
others keep theirs. -/
theorem Entitled.nameRules {title : DefinitionId → String} {made : Store}
    {attributes : Table Attribute} (h : Entitled store title (made, attributes))
    (hstore : store.Titled) :
    (made.nameRules attributes).Titled ∧
      Entitled (made.nameRules attributes) (made.nameRules attributes).titleOf
        (made.nameRules attributes, attributes) := by
  constructor
  · intro cls hcls name d hentry
    rw [classes_nameRules, h.classes] at hcls
    obtain ⟨hlt, htitle⟩ := hstore cls hcls name d hentry
    have hkept : made.titleOf d = title d := (h.kept d hlt).trans (h.stays d hlt).symm
    rw [size_definitions_nameRules, titleOf_nameRules h.titled (.inl hkept), h.stays d hlt]
    exact ⟨Nat.lt_of_lt_of_le hlt h.size_le, htitle⟩
  · refine ⟨rfl, Nat.le_refl _, fun _ _ => rfl, fun _ _ => rfl, fun name d hentry => ?_⟩
    rw [size_definitions_nameRules, titleOf_nameRules h.titled (.inr ⟨name, hentry⟩)]
    exact h.titled name d hentry

/-- A class whose members give no definition a second name. -/
theorem Titled.defineClass {name : String} {bases : List String} {initialises : Bool}
    {members : List Member} (h : store.Titled) (hmembers : ∀ member ∈ members, member.Straight)
    (hdefine : store.defineClass name bases initialises members = .ok after) : after.Titled := by
  obtain ⟨inherited, ancestors, early, late, made, own, finished, own', hsplit, hearly, hlate, rfl⟩
    := defineClass_eq_ok hdefine
  rw [List.partition_eq_filter_filter, Prod.mk.injEq] at hsplit
  obtain ⟨rfl, rfl⟩ := hsplit
  obtain ⟨title, hbody⟩ :=
    h.addMembers (fun member hmember => hmembers member (List.mem_of_mem_filter hmember)) hearly
  obtain ⟨hnamed, hentitled⟩ := hbody.nameRules h
  obtain ⟨title', hfinished, hnames⟩ := hentitled.addMembers hnamed (fun member hmember => by
    obtain ⟨hmember, hlate⟩ := List.mem_filter.mp hmember
    exact ⟨hmembers member hmember, by simpa using hlate⟩) hlate
  intro cls hcls other d hentry
  rcases Array.mem_push.mp hcls with hcls | rfl
  · rw [hfinished.classes] at hcls
    obtain ⟨hlt, htitle⟩ := hnamed cls hcls other d hentry
    exact ⟨Nat.lt_of_lt_of_le hlt hfinished.size_le, (hfinished.kept d hlt).trans htitle⟩
  · obtain ⟨hlt, htitle⟩ := hfinished.titled other d hentry
    exact ⟨hlt, (hnames d hlt).trans htitle⟩

/-! ## Sessions -/

/-- The rules of classes and their names stay in a store that grows. -/
theorem Titled.of_grows {keeps : Cell → Cell → Prop} (h : store.Titled)
    (hgrows : Grows keeps store after) : after.Titled := by
  unfold Titled titleOf
  rw [hgrows.classes, hgrows.definitions]
  exact h

theorem lasting_titled : Lasting Titled where
  beside _ _ _ hadds h := h.of_grows hadds
  addCell store language name make h := h.of_grows (adds_addCell store language name make)
  create _ _ _ _ _ _ h hcreate := h.of_grows (adds_create hcreate)
  modifyCell store id change _ h := by
    have hgrows : Grows (fun _ _ => True) store (store.modifyCell id change) :=
      grows_modifyCell store id change (fun _ => trivial) fun _ => trivial
    exact h.of_grows hgrows

/-- If no definition was ever given a second name, every rule of a class has the name of its
definition. -/
theorem titled_of_straight (h : store.ReachedBy Deed.Straight) : store.Titled := by
  refine h.holds lasting_titled ?_ ?_ ?_
  · intro logging made hmade name definition hentry
    obtain rfl := Array.mem_singleton.mp hmade
    cases hentry
  · intro store name object hstore
    obtain ⟨kept, shelf, heq⟩ := store.exists_shelve_eq name object
    rw [heq]
    exact hstore
  · intro store name bases initialises members after hmembers hstore hdefine
    exact hstore.defineClass hmembers hdefine

/-! ## Two ways to a rule -/

section Agree

variable {language : InstanceId} {rules : Table CellId} {name : String} {cell : CellId}
  {definition : DefinitionId}

/-- A rule is found in a language's own table, if that can be asked. -/
theorem getRule_eq_bind (hrules : (store.instanceAt language).rules = some rules) (name : String) :
    store.getRule language name = (store.operation language Inbuilt.getRule).bind fun _ =>
      match rules.get? name with
      | some cell => .ok cell
      | none => .error (.noRule name (store.classOf language).name) := by
  unfold getRule rulesOf
  rw [hrules]
  rfl

/-- An attribute that stands for a rule is looked up by the name of its definition, and only then by
its own name. -/
theorem lookUp_eq_of_rule (hrules : (store.instanceAt language).rules = some rules)
    (hfound : store.findAttribute (store.classOf language).lineage name = some (.rule definition))
    (hname : name ≠ tableName) :
    store.lookUp language name = match store.getRule language (store.titleOf definition) with
      | .ok cell => .ok (.parser cell)
      | .error (.noRule ..) => store.fallback language name
      | .error cause => .error cause := by
  unfold lookUp lookUpOnClass
  rw [hrules]
  simp only [if_neg hname, hfound]
  rfl

/-- An attribute that is looked for in the table after all is found there if nothing forbids it. -/
theorem fallback_eq_ok_iff (hcell : store.getRule language name = .ok cell) :
    store.fallback language name = .ok (.parser cell) ↔
      store.operation language Inbuilt.fallback = .ok () ∧ name.startsWith "__" = false := by
  unfold fallback
  rw [hcell]
  cases store.operation language Inbuilt.fallback with
  | error cause => exact iff_of_false nofun nofun
  | ok done =>
    cases hreserved : name.startsWith "__" with
    | true => exact iff_of_false (by simp [bind, Except.bind, throw, throwThe]) (by simp)
    | false => simp [bind, Except.bind, pure, Except.pure]

end Agree

end Store

/-! ## A rule with two names -/

/-- A class with two rules and a language of it, and then a class that is derived from it. -/
def Deed.deriving (members : List Member) : List Deed :=
  [.defineClass "A" [Store.baseName] true
      [⟨"c", false, .rule "c" none fun _ => .done (.parser (.text "x"))⟩,
        ⟨"d", false, .rule "d" none fun _ => .done (.parser (.text "y"))⟩],
    .operate (.perform (.create "A" [] [] fun _ => .done (.value .nothing))),
    .defineClass "B" ["A"] true members]

namespace Store

end Store

end Descent
