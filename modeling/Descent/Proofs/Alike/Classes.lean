import Descent.Proofs.Alike.Answers
import Descent.Proofs.Store.Classes

/-! # Classes that are defined alike

* **`Definition.action_alike`** — rules with bodies that are alike make parsers alike, also where
  they are called differently in error messages, if labels may differ.
* **`Definitions.Alike`** — definitions of the same names that make parsers alike one by one.
* **`Store.Alike.defineClass`** — main statement: if the members of a class are alike, it is defined
  alike. -/

namespace Descent

variable {leeway : Leeway} {pairs larger : Pairing}

/-! ## Rules -/

/-- What two rules may be called in error messages: the same, or any keys if labels may differ. -/
def ErrorNamesAlike (leeway : Leeway) (errorName errorName' : Option Value) : Prop :=
  errorName' = errorName ∨ leeway.labels ∧
    (∀ label, errorName = some label → label.isKey = true) ∧
      ∀ label, errorName' = some label → label.isKey = true

namespace Parser.Alike

variable {of of' : Parser} {labels labels' : Labels}

/-- Where labels cannot be replaced the errors are the same. -/
theorem undescribed (hof : Parser.Alike leeway pairs of of') :
    Parser.Alike leeway pairs of.undescribed of'.undescribed := by
  refine .custom fun source place => .run hof fun result result' hresult => ?_
  cases hresult with
  | matched stop value => exact .result (.matched stop value)
  | failed hexpected =>
    simp only
    split
    · exact .raise _
    · exact .result (.failed hexpected)

/-- Parsers that are alike may be relabelled with keys, if labels may differ, or with the same
labels. -/
theorem described (hof : Parser.Alike leeway pairs of of')
    (h : labels' = labels ∨ leeway.labels ∧
      (labels.first :: labels.others).all Value.isKey = true ∧
        (labels'.first :: labels'.others).all Value.isKey = true) :
    Parser.Alike leeway pairs (of.described labels) (of'.described labels') := by
  unfold Parser.described
  rcases h with rfl | ⟨hlabels, hkeys, hkeys'⟩
  · split
    · exact .desc hof (.inl rfl)
    · exact hof.undescribed
  · rw [if_pos hkeys, if_pos hkeys']
    exact .desc hof (.inr hlabels)

/-- One of two parsers that are alike may be relabelled with keys, if labels may differ. -/
theorem described_left (hlabels : leeway.labels)
    (hkeys : (labels.first :: labels.others).all Value.isKey = true)
    (hof : Parser.Alike leeway pairs of of') :
    Parser.Alike leeway pairs (of.described labels) of' := by
  unfold Parser.described
  rw [if_pos hkeys]
  exact .descLeft hlabels hof

/-- So may the other one. -/
theorem described_right (hlabels : leeway.labels)
    (hkeys : (labels.first :: labels.others).all Value.isKey = true)
    (hof : Parser.Alike leeway pairs of of') :
    Parser.Alike leeway pairs of (of'.described labels) := by
  unfold Parser.described
  rw [if_pos hkeys]
  exact .descRight hlabels hof

end Parser.Alike

/-- What is no parser has nothing that could be relabelled. -/
theorem Object.described_of_ne {errorName : Option Value} {object : Object Parser}
    (h : ∀ p, object ≠ .parser p) : object.described errorName = object := by
  cases object with
  | parser p => exact absurd rfl (h p)
  | value | table | other => rfl

/-- Objects that are alike remain so with such names for error messages. -/
theorem Object.Pairs.described {errorName errorName' : Option Value}
    {object object' : Object Parser} (herror : ErrorNamesAlike leeway errorName errorName')
    (h : object.Pairs pairs (Parser.Alike leeway pairs) object') :
    Action.Alike leeway pairs (.done (.object (object.described errorName)))
      (.done (.object (object'.described errorName'))) := by
  rcases h.eq_or with ⟨p, p', rfl, rfl, hp⟩ | ⟨hne, hne', hobject⟩
  · rcases herror with rfl | ⟨hlabels, hkey, hkey'⟩
    · cases errorName' with
      | none => exact .parser hp
      | some label => exact .parser (hp.described (.inl rfl))
    · cases errorName with
      | none =>
        cases errorName' with
        | none => exact .parser hp
        | some label' => exact .parser (hp.described_right hlabels (by simp [hkey' label' rfl]))
      | some label =>
        have hlabel : ([label] : List Value).all Value.isKey = true := by simp [hkey label rfl]
        cases errorName' with
        | none => exact .parser (hp.described_left hlabels hlabel)
        | some label' =>
          exact .parser (hp.described (.inr ⟨hlabels, hlabel, by simp [hkey' label' rfl]⟩))
  · rw [described_of_ne hne, described_of_ne hne']
    exact .nonParser hobject

/-- Rules with bodies that are alike make parsers alike. -/
theorem Definition.action_alike {definition definition' : Definition}
    (herror : ErrorNamesAlike leeway definition.errorName definition'.errorName)
    (hbody : RuleBody.Alike leeway pairs definition.body definition'.body) :
    RuleBody.Alike leeway pairs definition.action definition'.action := by
  intro larger owner owner' hsub howner
  obtain ⟨halike, hquiet⟩ := hbody larger owner owner' hsub howner
  refine ⟨?_, fun hstages =>
    ⟨(hquiet hstages).1.bind fun _ => trivial, (hquiet hstages).2.bind fun _ => trivial⟩⟩
  -- the name is given to whatever the body ends with
  let named (errorName : Option Value) : Yield → Action Yield
    | .object object => .done (.object (object.described errorName))
    | .result result => .done (.result result)
  have hnamed : ∀ (definition : Definition) owner, (definition.action owner).objects
      = (definition.body owner).objects.bind (named definition.errorName) := by
    intro definition owner
    unfold Definition.action
    rw [Script.objects, Script.objects, Script.bind_assoc, Script.bind_assoc]
    rfl
  rw [hnamed, hnamed]
  refine halike.bind fun largest yield yield' _ hyield => ?_
  cases hyield with
  | parser hp => exact Object.Pairs.described herror (show Object.Pairs _ _ (.parser _) _ from hp)
  | nonParser hobject => exact (hobject.mono .rfl fun _ _ => False.elim).described herror
  | result hresult => exact .result hresult

/-! ## Definitions -/

/-- Definitions of the same names that make parsers alike one by one. -/
structure Definitions.Alike (leeway : Leeway) (pairs : Pairing)
    (definitions definitions' : Array Definition) : Prop where
  /-- There are as many. -/
  size : definitions'.size = definitions.size
  /-- Their names are the same. -/
  name : ∀ id, (definitions'.getD id default).name = (definitions.getD id default).name
  /-- They make parsers alike. -/
  action : ∀ id, RuleBody.Alike leeway pairs (definitions.getD id default).action
    (definitions'.getD id default).action

namespace Definitions.Alike

variable {definitions definitions' : Array Definition}

/-- There may be no definitions at all. -/
theorem empty : Definitions.Alike leeway pairs #[] #[] where
  size := rfl
  name _ := rfl
  action _ _ _ _ _ _ := ⟨.nonParser rfl, fun _ => ⟨trivial, trivial⟩⟩

theorem mono (hsub : pairs ⊆ larger) (h : Definitions.Alike leeway pairs definitions definitions') :
    Definitions.Alike leeway larger definitions definitions' where
  size := h.size
  name := h.name
  action id largest owner owner' hsub' := h.action id largest owner owner' (hsub.trans hsub')

/-- One more definition on both sides. -/
theorem push (h : Definitions.Alike leeway pairs definitions definitions')
    {definition definition' : Definition} (hname : definition'.name = definition.name)
    (haction : RuleBody.Alike leeway pairs definition.action definition'.action) :
    Definitions.Alike leeway pairs (definitions.push definition)
      (definitions'.push definition') where
  size := by rw [Array.size_push, Array.size_push, h.size]
  name id := by
    rw [getD_push, getD_push, h.size]
    split
    · exact hname
    · exact h.name id
  action id := by
    rw [getD_push, getD_push, h.size]
    split
    · exact haction
    · exact h.action id

/-- Another name for the same definition on both sides. -/
theorem rename (h : Definitions.Alike leeway pairs definitions definitions') (id : DefinitionId)
    (name : String) :
    Definitions.Alike leeway pairs (definitions.modify id fun old => { old with name := name })
      (definitions'.modify id fun old => { old with name := name }) where
  size := by rw [Array.size_modify, Array.size_modify, h.size]
  name other := by
    rw [getD_modify, getD_modify, h.size]
    split
    · rfl
    · exact h.name other
  action other := by
    rw [getD_modify, getD_modify, h.size]
    split
    · exact h.action other
    · exact h.action other

end Definitions.Alike

/-! ## Classes -/

/-- The ancestors of classes are brought into the same order. -/
theorem Store.Alike.ancestry {store store' : Store} (h : store.Alike leeway pairs store')
    (bases : List ClassId) : store'.ancestry bases = store.ancestry bases := by
  unfold Store.ancestry
  simp only [h.classAt]

/-- Members of the same name that make parsers alike if they are rules, and are the same if not. -/
inductive Member.Alike (leeway : Leeway) (pairs : Pairing) : Member → Member → Prop where
  /-- Rules. -/
  | rule {name : String} {late : Bool} {functionName : String} {errorName errorName' : Option Value}
      {body body' : RuleBody}
      (h : RuleBody.Alike leeway pairs (Definition.action ⟨functionName, errorName, body⟩)
        (Definition.action ⟨functionName, errorName', body'⟩)) :
      Member.Alike leeway pairs ⟨name, late, .rule functionName errorName body⟩
        ⟨name, late, .rule functionName errorName' body'⟩
  /-- Other names for what there is. -/
  | synonym (name : String) (late : Bool) (other : String) :
      Member.Alike leeway pairs ⟨name, late, .alias other⟩ ⟨name, late, .alias other⟩
  /-- Values. -/
  | value (name : String) (late : Bool) (value : Value) :
      Member.Alike leeway pairs ⟨name, late, .value value⟩ ⟨name, late, .value value⟩

/-- Stores that are alike and have the same definitions, while classes are defined that leave all
else as it was in `before` and `before'`. -/
structure Store.DefinedAlike (leeway : Leeway) (pairs : Pairing)
    (before before' store store' : Store) : Prop where
  /-- What is paired is made alike. -/
  alike : store.Alike leeway pairs store'
  /-- The definitions are alike one by one. -/
  definitions : Definitions.Alike leeway pairs store.definitions store'.definitions
  /-- The languages are as they were. -/
  instances : store.instances = before.instances ∧ store'.instances = before'.instances
  /-- So are the counters. -/
  counters : store.counters = before.counters ∧ store'.counters = before'.counters

namespace Store.DefinedAlike

variable {before before' store store' : Store}

/-- At the beginning there are no rules, so that nothing can differ. -/
theorem initial (leeway : Leeway) (logging logging' : Bool) :
    DefinedAlike leeway {(.className baseName, .className baseName)} (Store.initial logging)
      (Store.initial logging') (Store.initial logging) (Store.initial logging') where
  alike :=
    { classes := rfl
      classNames := rfl
      ruleName := fun _ => rfl
      cell := nofun
      home := nofun
      language := nofun
      className := fun _ _ _ _ item _ => Definitions.Alike.empty.action item.2
      shelved := nofun
      kept := nofun }
  definitions := .empty
  instances := ⟨rfl, rfl⟩
  counters := ⟨rfl, rfl⟩

/-- Other definitions that are alike. -/
theorem define (h : DefinedAlike leeway pairs before before' store store')
    {definitions definitions' : Array Definition}
    (hdefinitions : Definitions.Alike leeway pairs definitions definitions') :
    DefinedAlike leeway pairs before before' { store with definitions := definitions }
      { store' with definitions := definitions' } where
  alike :=
    { classes := h.alike.classes
      classNames := h.alike.classNames
      ruleName := hdefinitions.name
      cell := h.alike.cell
      home := h.alike.home
      language := h.alike.language
      className := fun _ _ _ _ item _ => hdefinitions.action item.2
      shelved := h.alike.shelved
      kept := h.alike.kept }
  definitions := hdefinitions
  instances := h.instances
  counters := h.counters

/-- One more class, which may be paired with itself. -/
theorem addClass (h : DefinedAlike leeway pairs before before' store store') (made : Class)
    (name : String) (cls : ClassId) :
    DefinedAlike leeway (insert (.className name, .className name) pairs) before before'
      { store with
        classes := store.classes.push made
        classNames := store.classNames.put name cls }
      { store' with
        classes := store'.classes.push made
        classNames := store'.classNames.put name cls } where
  alike := by
    -- the one new pair is of a class, so all other things were paired before
    have hsub := Set.subset_insert (Reference.className name, Reference.className name) pairs
    refine ⟨?_, ?_, h.alike.ruleName, ?_, ?_, ?_, ?_, ?_, ?_⟩
    · simp only [h.alike.classes]
    · simp only [h.alike.classNames]
    · intro id id' hid
      obtain ⟨cell, cell', hcell, hcell', halike⟩ :=
        h.alike.cell id id' ((Set.mem_insert_iff.mp hid).resolve_left nofun)
      exact ⟨cell, cell', hcell, hcell', halike.mono hsub⟩
    · intro language language' hl
      exact h.alike.home language language' ((Set.mem_insert_iff.mp hl).resolve_left nofun)
    · intro language language' hl
      obtain ⟨hlt, hlt', hcls, hrules⟩ :=
        h.alike.language language language' ((Set.mem_insert_iff.mp hl).resolve_left nofun)
      exact ⟨hlt, hlt', hcls, hrules.imp fun _ _ => Table.Rel.imp fun _ _ hcell => hsub hcell⟩
    · intro _ _ _ _ item _
      exact (h.definitions.mono hsub).action item.2
    · intro shelved hshelved
      refine (h.alike.shelved shelved ((Set.mem_insert_iff.mp hshelved).resolve_left nofun)).imp ?_
      exact fun _ _ hfound => hfound.mono hsub fun _ _ => Handle.Pairs.mono hsub
    · intro number number' hnumber
      exact (h.alike.kept number number' ((Set.mem_insert_iff.mp hnumber).resolve_left nofun)).mono
        hsub
  definitions := h.definitions.mono (Set.subset_insert _ _)
  instances := h.instances
  counters := h.counters

/-- A member is added alike. -/
theorem addMember (h : DefinedAlike leeway pairs before before' store store')
    (attributes : Table Attribute) (bases : List ClassId) {member member' : Member}
    (hmember : member.Alike leeway pairs member') :
    Answers (fun made made' => DefinedAlike leeway pairs before before' made.1 made'.1 ∧
        made'.2 = made.2)
      (Store.addMember bases (store, attributes) member)
      (Store.addMember bases (store', attributes) member') := by
  cases hmember with
  | rule haction =>
    unfold Store.addMember
    simp only [h.definitions.size]
    exact .ok ⟨h.define (h.definitions.push rfl haction), rfl⟩
  | synonym name late other =>
    unfold Store.addMember
    simp only [h.alike.findAttribute]
    cases (attributes.get? other).or (store.findAttribute bases other) with
    | some found => exact .ok ⟨h, rfl⟩
    | none => exact .error _
  | value name late v =>
    unfold Store.addMember
    simp only [h.alike.classes]
    exact .ok ⟨h, rfl⟩

/-- Members are added alike one by one. -/
theorem addMembers (h : DefinedAlike leeway pairs before before' store store')
    (attributes : Table Attribute) (bases : List ClassId) {members members' : List Member}
    (hmembers : List.Forall₂ (Member.Alike leeway pairs) members members') :
    Answers (fun made made' => DefinedAlike leeway pairs before before' made.1 made'.1 ∧
        made'.2 = made.2)
      (members.foldlM (Store.addMember bases) (store, attributes))
      (members'.foldlM (Store.addMember bases) (store', attributes)) := by
  induction hmembers generalizing store store' attributes with
  | nil => exact .ok ⟨h, rfl⟩
  | cons hmember _ ih =>
    rw [List.foldlM_cons, List.foldlM_cons]
    rcases (h.addMember attributes bases hmember).eq_or with
      ⟨⟨made, own⟩, ⟨made', own'⟩, e, e', hmade, hown⟩ | ⟨cause, e, e'⟩
    · rw [e, e']
      obtain rfl : own' = own := hown
      exact ih hmade own'
    · rw [e, e']
      exact .error cause

/-- Rules get the names of their last attributes alike. -/
theorem nameRules (h : DefinedAlike leeway pairs before before' store store')
    (attributes : Table Attribute) :
    DefinedAlike leeway pairs before before' (store.nameRules attributes)
      (store'.nameRules attributes) := by
  unfold Store.nameRules
  induction rulesAmong attributes generalizing store store' with
  | nil => exact h
  | cons rule rest ih => exact ih (h.define (h.definitions.rename rule.2 rule.1))

/-- A class is defined alike if its members are alike. -/
theorem defineClass (h : DefinedAlike leeway pairs before before' store store') (name : String)
    (bases : List String) (initialises : Bool) {members members' : List Member}
    (hmembers : List.Forall₂ (Member.Alike leeway pairs) members members') :
    Answers (DefinedAlike leeway (insert (.className name, .className name) pairs) before before')
      (store.defineClass name bases initialises members)
      (store'.defineClass name bases initialises members') := by
  -- members that are alike are early or late alike
  have hfilter : ∀ keep : Bool → Bool, List.Forall₂ (Member.Alike leeway pairs)
      (members.filter fun member => keep member.late)
      (members'.filter fun member => keep member.late) := by
    intro keep
    refine List.rel_filter ?_ hmembers
    rintro member member' hmember
    cases hmember <;> exact Iff.rfl
  unfold Store.defineClass
  rw [show store'.classNamed = store.classNamed from funext h.alike.classNamed]
  simp only [h.alike.classAt, List.partition_eq_filter_filter, bind, Except.bind, pure, Except.pure]
  cases bases.mapM store.classNamed with
  | error cause => exact .error cause
  | ok bases =>
    simp only
    have hearly := h.addMembers [] (bases.flatMap fun cls => (store.classAt cls).lineage)
      (hfilter fun late => !late)
    have hlate := hfilter fun late => !!late
    rcases hearly.eq_or with ⟨⟨made, own⟩, ⟨made', own'⟩, e, e', hmade, hown⟩ | ⟨cause, e, e'⟩
    · rw [e, e']
      obtain rfl : own' = own := hown
      simp only [hmade.alike.ancestry]
      cases made.ancestry bases with
      | error cause => exact .error cause
      | ok ancestors =>
        simp only
        -- the late members come after the rules have got their names
        have hall := (hmade.nameRules own').addMembers own'
          (bases.flatMap fun cls => (store.classAt cls).lineage) hlate
        rcases hall.eq_or with
          ⟨⟨finished, own⟩, ⟨finished', own'⟩, e, e', hfinished, hown⟩ | ⟨cause, e, e'⟩
        · obtain rfl : own' = own := hown
          have hsize : finished'.classes.size = finished.classes.size :=
            congrArg Array.size hfinished.alike.classes
          simp only [Function.comp_def]
          rw [e, e']
          simp only [hsize]
          exact .ok (hfinished.addClass _ name _)
        · simp only [Function.comp_def]
          rw [e, e']
          exact .error cause
    · rw [e, e']
      exact .error cause

end Store.DefinedAlike

end Descent
