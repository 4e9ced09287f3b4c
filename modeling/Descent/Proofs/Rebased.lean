import Descent.Proofs.Attributes
import Descent.Proofs.Discreet

/-! # Languages taken for others

A language is taken for one of the class from which all others descend. What it answers may then
differ where its class comes into play, but all else in the store is as it was.

* **`Store.rebase`** — the store with a language of the class from which all others descend.
* **`Nearly`** — the same result, or errors that differ at most in the class that has no such rule.
* **`Store.Rebasable`** — a discreet store in which the language answers alike either way, as far as
  it may be asked.
* **`Store.Rebasable.addCell`**, **`Store.Rebasable.create`**, **`Store.Rebasable.modifyCell`** — what
  scripts do to such a store. -/

namespace Descent

/-! ## What ends nearly the same -/

/-- Errors that are the same, or that say of two classes that they have no such rule. -/
inductive Raised.Near : Raised → Raised → Prop where
  /-- The same error. -/
  | same (cause : Raised) : Raised.Near cause cause
  /-- The class is another one. -/
  | noRule (rule className className' : String) :
      Raised.Near (.noRule rule className) (.noRule rule className')

/-- The same result, of which something holds, or errors that are the same but for a class. -/
inductive Nearly {α : Type} (post : α → Prop) : Except Raised α → Except Raised α → Prop where
  /-- The same result. -/
  | ok {result : α} (h : post result) : Nearly post (.ok result) (.ok result)
  /-- Errors that are the same but for a class. -/
  | error {cause cause' : Raised} (h : cause.Near cause') : Nearly post (.error cause) (.error cause')

namespace Nearly

variable {α β : Type} {post : α → Prop} {ended ended' : Except Raised α}

/-- Whatever something ends with, it is near to itself. -/
theorem refl (h : ∀ result, ended = .ok result → post result) : Nearly post ended ended := by
  cases ended with
  | ok result => exact .ok (h result rfl)
  | error cause => exact .error (.same cause)

/-- Less may be said of the result. -/
theorem imp {post' : α → Prop} (hpost : ∀ result, post result → post' result)
    (h : Nearly post ended ended') : Nearly post' ended ended' := by
  cases h with
  | ok h => exact .ok (hpost _ h)
  | error h => exact .error h

/-- What is done with the same result ends alike. -/
theorem bind {post' : β → Prop} {f f' : α → Except Raised β} (h : Nearly post ended ended')
    (hf : ∀ result, post result → Nearly post' (f result) (f' result)) :
    Nearly post' (ended.bind f) (ended'.bind f') := by
  cases h with
  | ok h => exact hf _ h
  | error h => exact .error h

/-- What holds once something reversible is done with the results holds without it. -/
theorem of_map {post : β → Prop} {f : α → β} (hf : Function.Injective f)
    (h : Nearly post (ended.map f) (ended'.map f)) :
    Nearly (fun result => post (f result)) ended ended' := by
  cases ended with
  | ok result =>
    generalize hmapped : ended'.map f = mapped at h
    cases h with
    | ok h =>
      obtain ⟨result', rfl, heq⟩ := Store.exists_of_map_eq_ok hmapped
      rw [hf heq]
      exact .ok h
  | error cause =>
    generalize hmapped : ended'.map f = mapped at h
    cases h with
    | error h =>
      cases ended' with
      | ok result' => cases hmapped
      | error cause' =>
        cases hmapped
        exact .error h

end Nearly

namespace Store

variable {store after : Store} {language : InstanceId}

/-- The store in which a language is one of the class from which all others descend, made without
arguments. It has its rules still. -/
def rebase (store : Store) (language : InstanceId) : Store :=
  { store with
    instances := store.instances.modify language fun old =>
      { old with cls := base, arguments := [] } }

@[simp] theorem size_rebase (store : Store) (language : InstanceId) :
    (store.rebase language).instances.size = store.instances.size := size_modify store language _

@[simp] theorem rules_rebase (store : Store) (language other : InstanceId) :
    ((store.rebase language).instanceAt other).rules = (store.instanceAt other).rules := by
  unfold instanceAt rebase
  rw [Array.getD_eq_getD_getElem?, Array.getD_eq_getD_getElem?, Array.getElem?_modify]
  split
  · cases store.instances[other]? <;> rfl
  · rfl

theorem cells_rebase (store : Store) (language other : InstanceId) :
    ((store.rebase language).instanceAt other).cells = (store.instanceAt other).cells := by
  unfold instanceAt rebase
  rw [Array.getD_eq_getD_getElem?, Array.getD_eq_getD_getElem?, Array.getElem?_modify]
  split
  · cases store.instances[other]? <;> rfl
  · rfl

@[simp] theorem cell?_rebase (store : Store) (language : InstanceId) (id : CellId) :
    (store.rebase language).cell? id = store.cell? id := by
  unfold cell?
  rw [cells_rebase]

@[simp] theorem cellAt_rebase (store : Store) (language : InstanceId) (id : CellId) :
    (store.rebase language).cellAt id = store.cellAt id := by
  unfold cellAt
  rw [cell?_rebase]

@[simp] theorem shownObject_rebase (store : Store) (language : InstanceId)
    (object : Object Parser) :
    (store.rebase language).shownObject object = store.shownObject object := by
  unfold shownObject shownTable shownCell
  simp only [cellAt_rebase]

/-- The other languages are as they were. -/
theorem concurs_rebase (store : Store) {other : InstanceId} (hne : other ≠ language) :
    Concurs other store (store.rebase language) := by
  have hat : (store.rebase language).instanceAt other = store.instanceAt other := by
    unfold instanceAt rebase
    rw [Array.getD_eq_getD_getElem?, Array.getD_eq_getD_getElem?, Array.getElem?_modify,
      if_neg hne.symm]
  exact ⟨rfl, rfl, congrArg _ hat, congrArg _ hat⟩

/-! ## What scripts do to a store -/

/-- Two changes to languages can be made in either order. -/
theorem modify_comm (instances : Array Instance) (language other : InstanceId)
    {change change' : Instance → Instance} (h : ∀ old, change (change' old) = change' (change old)) :
    (instances.modify language change).modify other change'
      = (instances.modify other change').modify language change := by
  refine Array.ext_getElem? fun index => ?_
  simp only [Array.getElem?_modify]
  cases instances[index]? with
  | none => simp
  | some old => split <;> split <;> simp [h]

theorem rebase_modifyCell (store : Store) (language : InstanceId) (id : CellId)
    (change : Cell → Cell) :
    (store.modifyCell id change).rebase language = (store.rebase language).modifyCell id change := by
  unfold rebase modifyCell
  simp only [Store.mk.injEq, true_and, and_true]
  exact modify_comm _ _ _ fun _ => rfl

theorem rebase_setState (store : Store) (language : InstanceId) (id : CellId) (state : RuleState) :
    (store.setState id state).rebase language = (store.rebase language).setState id state :=
  rebase_modifyCell store language id _

theorem rebase_setParser (store : Store) (language : InstanceId) (id : CellId) (parser : Parser) :
    (store.setParser id parser).rebase language = (store.rebase language).setParser id parser :=
  rebase_modifyCell store language id _

theorem addCell_rebase (store : Store) (language other : InstanceId) (name : String)
    (make : Maker) :
    (store.rebase language).addCell other name make
      = ((store.addCell other name make).1, (store.addCell other name make).2.rebase language) := by
  unfold addCell
  refine Prod.ext ?_ ?_
  · simp only [cells_rebase]
  · unfold rebase
    simp only [Store.mk.injEq, true_and, and_true]
    exact modify_comm _ _ _ fun _ => rfl

theorem rebase_log (store : Store) (language : InstanceId) (record : Record) :
    (store.log record).rebase language = (store.rebase language).log record := by
  unfold log
  split
  · rename_i h
    exact (if_pos h).symm
  · rename_i h
    exact (if_neg h).symm

/-- A new language is the same besides a language of another class. -/
theorem create_rebase (hl : language < store.instances.size) (className : String)
    (arguments : Table Value) (rules : Table (Owner → Maker)) :
    (store.rebase language).create className arguments rules
      = (store.create className arguments rules).map fun (other, after) =>
          (other, after.rebase language) := by
  -- to add a language and to change an earlier one can be done in either order
  have hpush : ∀ made : Instance, (store.rebase language).instances.push made
      = ({ store with instances := store.instances.push made }.rebase language).instances := by
    intro made
    unfold rebase
    refine Array.ext_getElem? fun index => ?_
    simp only [Array.getElem?_push, Array.getElem?_modify, Array.size_modify]
    by_cases hlast : index = store.instances.size
    · simp [hlast, hl.ne]
    · simp [hlast]
  unfold create
  rw [show (store.rebase language).classNamed className = store.classNamed className from rfl,
    size_rebase]
  cases store.classNamed className with
  | error cause => rfl
  | ok cls =>
    have hat : (store.rebase language).classAt cls = store.classAt cls := rfl
    have htaken : (store.rebase language).firstTaken? = store.firstTaken? := rfl
    have hmakers : (store.rebase language).makers = store.makers := rfl
    simp only [bind, Except.bind, pure, Except.pure, hat, htaken, hmakers, hpush]
    split
    · split
      · rfl
      · rfl
    · rfl

/-! ## What is asked of the language -/

/-- No operation on a language by which its rules are found has been replaced. -/
def Operable (store : Store) (language : InstanceId) : Prop :=
  ∀ name ∈ [Inbuilt.getRule, Inbuilt.fallback, Inbuilt.ruleNames, Inbuilt.ruleState],
    store.operation language name = .ok ()

/-- Either way a language has the same rules, or it says that it has no such rule. -/
theorem nearly_getRule {rules : Table CellId} (hrules : (store.instanceAt language).rules = some rules)
    (h : store.Operable language) (h' : (store.rebase language).Operable language) (name : String) :
    Nearly (fun _ => True) (store.getRule language name)
      ((store.rebase language).getRule language name) := by
  rw [getRule_eq_bind hrules, getRule_eq_bind ((rules_rebase store _ _).trans hrules),
    h _ (by decide), h' _ (by decide)]
  simp only [Except.bind]
  cases rules.get? name with
  | some cell => exact .ok trivial
  | none => exact .error (.noRule _ _ _)

/-- So it is with attributes that are looked for in the table. -/
theorem nearly_fallback {rules : Table CellId}
    (hrules : (store.instanceAt language).rules = some rules) (h : store.Operable language)
    (h' : (store.rebase language).Operable language) (name : String) :
    Nearly (fun _ => True) (store.fallback language name)
      ((store.rebase language).fallback language name) := by
  unfold fallback
  rw [h _ (by decide), h' _ (by decide)]
  change Nearly _ (if name.startsWith "__" then _ else _) (if name.startsWith "__" then _ else _)
  split
  · exact .error (.same _)
  · exact (nearly_getRule hrules h h' name).bind fun cell _ => .ok trivial

/-- A discreet store in which a language answers alike when it is taken for one of the class from
which all others descend, as far as it may be asked. -/
structure Rebasable (permit : Permit) (language : InstanceId) (store : Store) : Prop where
  /-- The language is there. -/
  there : language < store.instances.size
  /-- It has rules. -/
  rules : ∃ rules, (store.instanceAt language).rules = some rules
  /-- It is asked for what is permitted. -/
  discreet : store.Discreet permit
  /-- It can be asked for its rules. -/
  operable : store.Operable language
  /-- So it can be if it is taken for another one. -/
  operable' : (store.rebase language).Operable language
  /-- Either way it has the attributes that it may be asked for. -/
  lookUp : ∀ name, permit language name →
    Nearly (fun _ => True) (store.lookUp language name) ((store.rebase language).lookUp language name)

namespace Rebasable

variable {permit : Permit} {keeps : Cell → Cell → Prop}

/-- A language that is taken for another one goes on to be when the store grows. -/
theorem concurs (h : store.Rebasable permit language) (hgrows : Grows keeps store after) :
    Concurs language (store.rebase language) (after.rebase language) := by
  have hcls : ∀ {store : Store}, language < store.instances.size →
      ((store.rebase language).instanceAt language).cls = base := by
    intro store hl
    unfold rebase
    rw [instanceAt_modify _ _ _ _ hl, if_pos rfl]
  refine ⟨hgrows.definitions, hgrows.classes, ?_, ?_⟩
  · rw [hcls h.there, hcls (Nat.lt_of_lt_of_le h.there hgrows.size_le)]
  · rw [rules_rebase, rules_rebase, hgrows.rules language h.there]

/-- A language answers as before when the store grows. -/
theorem of_grows (h : store.Rebasable permit language) (hgrows : Grows keeps store after)
    (hdiscreet : after.Discreet permit) : after.Rebasable permit language where
  there := Nat.lt_of_lt_of_le h.there hgrows.size_le
  rules := by
    rw [hgrows.rules language h.there]
    exact h.rules
  discreet := hdiscreet
  operable name hname := by
    rw [(hgrows.concurs h.there).operation]
    exact h.operable name hname
  operable' name hname := by
    rw [(h.concurs hgrows).operation]
    exact h.operable' name hname
  lookUp name hname := by
    rw [hgrows.lookUp h.there, (h.concurs hgrows).lookUp]
    exact h.lookUp name hname

/-- So it does where the languages are the same. -/
theorem of_instances_eq (h : store.Rebasable permit language) (hadds : Adds store after)
    (hinstances : after.instances = store.instances) : after.Rebasable permit language :=
  h.of_grows hadds (h.discreet.of_instances_eq hadds hinstances)

/-- An entry is added to the log. -/
theorem log (h : store.Rebasable permit language) (record : Record) :
    (store.log record).Rebasable permit language := by
  refine h.of_instances_eq (adds_log store record) ?_
  unfold Store.log
  split <;> rfl

/-- A lazy parser is added that is made discreetly. -/
theorem addCell (h : store.Rebasable permit language) (other : InstanceId) (name : String)
    {make : Maker} (hmake : Action.Discreet permit make.action.objects) :
    (store.addCell other name make).2.Rebasable permit language :=
  h.of_grows (adds_addCell store other name make) (h.discreet.addCell other name hmake)

/-- A lazy parser gets to another stage, or it gets a discreet parser. -/
theorem modifyCell (h : store.Rebasable permit language) {id : CellId} {change : Cell → Cell}
    (hchange : ∀ cell, cell.Discreet permit → (change cell).Discreet permit) :
    (store.modifyCell id change).Rebasable permit language := by
  have hgrows : Grows (fun _ _ => True) store (store.modifyCell id change) :=
    grows_modifyCell store id change (fun _ => trivial) fun _ => trivial
  exact h.of_grows hgrows (h.discreet.modifyCell hchange)

theorem setState (h : store.Rebasable permit language) (id : CellId) (state : RuleState) :
    (store.setState id state).Rebasable permit language :=
  h.modifyCell fun _ hcell => ⟨hcell.make, hcell.parser⟩

theorem setParser (h : store.Rebasable permit language) (id : CellId) {parser : Parser}
    (hparser : parser.Discreet permit) : (store.setParser id parser).Rebasable permit language := by
  refine h.modifyCell fun cell hcell => ⟨hcell.make, fun p hp => ?_⟩
  cases hp
  exact hparser

/-- A new language with further rules that are made discreetly. -/
theorem create (h : store.Rebasable permit language) {className : String} {arguments : Table Value}
    {rules : Table (Owner → Maker)} {other : InstanceId}
    (hcreate : store.create className arguments rules = .ok (other, after))
    (hrules : ∀ entry ∈ rules, ∀ owner, permit.Free owner.language →
      Action.Discreet permit (entry.2 owner).action.objects) :
    after.Rebasable permit language ∧ permit.Free other := by
  refine ⟨h.of_grows (adds_create hcreate) (h.discreet.create hcreate hrules), ?_⟩
  obtain ⟨-, -, rfl, -⟩ := create_eq_ok hcreate
  exact h.discreet.free _ (Nat.le_refl _)

/-! ### Answers -/

/-- Any language answers alike, as far as it may be asked. -/
theorem lookUp_any (h : store.Rebasable permit language) {other : InstanceId} {name : String}
    (hname : permit other name) :
    Nearly (fun _ => True) (store.lookUp other name) ((store.rebase language).lookUp other name) := by
  by_cases heq : other = language
  · subst heq
    exact h.lookUp name hname
  · rw [(concurs_rebase store heq).lookUp]
    exact .refl fun _ _ => trivial

/-- Any rule of any language is the same, unless there is none. -/
theorem getRule_any (h : store.Rebasable permit language) (other : InstanceId) (name : String) :
    Nearly (fun _ => True) (store.getRule other name)
      ((store.rebase language).getRule other name) := by
  by_cases heq : other = language
  · subst heq
    obtain ⟨rules, hrules⟩ := h.rules
    exact nearly_getRule hrules h.operable h.operable' name
  · rw [(concurs_rebase store heq).getRule]
    exact .refl fun _ _ => trivial

/-- The names of the rules are the same. -/
theorem ruleNames (h : store.Rebasable permit language) :
    (store.rebase language).ruleNames language = store.ruleNames language := by
  obtain ⟨rules, hrules⟩ := h.rules
  unfold Store.ruleNames rulesOf
  rw [h.operable _ (by decide), h.operable' _ (by decide), rules_rebase, hrules]

/-- So are the stages that they are in. -/
theorem ruleState (h : store.Rebasable permit language) (name : String) :
    Nearly (fun _ => True) (store.ruleState language name)
      ((store.rebase language).ruleState language name) := by
  unfold Store.ruleState
  rw [h.operable _ (by decide), h.operable' _ (by decide)]
  refine (h.getRule_any language name).bind fun cell _ => ?_
  rw [cellAt_rebase]
  exact .ok trivial

end Rebasable

end Store

end Descent
