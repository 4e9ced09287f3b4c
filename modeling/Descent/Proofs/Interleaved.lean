import Descent.Proofs.Observed
import Descent.Proofs.Onward

/-! # Languages do not step on each other

Two languages are used in turn. What is seen of the steps on either of them, that is how they end
and which entries they leave in the log, is what is seen when that language is used alone.

A run on two stores carries this: a step on one language goes alike on the store on which that is
used alone, and leaves the lazy parsers of the other language as they are.

* **`Store.Tandem`** — two stores of which the second is that of a language used alone.
* **`Session.Sight`**, **`Session.Seen`**, **`Session.sightsOf`** — what is seen in some steps, and
  what of it is about one language.
* **`Session.Step.observe_tandem`** — what one step preserves.
* **`Session.Seen.own`**, **`Session.Seen.together`** — what is seen in turn is seen alone, and the
  other way round.
* **`Store.CallsOwn`** — the functions of rules are called with the language they belong to.
* **`Session.seen_iff_alone`** — main statement, for two languages whose rules lead to no lazy parser
  in common that has yet to be made.
* **`not_forall_seen_iff_alone`** — of a lazy parser in common that has yet to be made, only one of
  the languages has the entries in its log. -/

namespace Descent

/-- Two stores of which the second is that of a language used alone. -/
structure Store.Tandem (pairs : Pairing) (store alone : Store) : Prop where
  /-- What is paired is alike, and has been made on both or on neither. -/
  inStep : store.InStep .exact pairs alone
  /-- A log is kept on both or on neither. -/
  logging : alone.logging = store.logging

/-- What is paired in two ways has been made before. -/
def Store.Parted (store : Store) (pairs pairs' : Pairing) : Prop :=
  ∀ id id₁ id₂ cell, id.Pairs pairs id₁ → id.Pairs pairs' id₂ → store.cell? id = some cell →
    cell.parser ≠ none

/-- It does not matter which of the two ways comes first. -/
theorem Store.Parted.symm {store : Store} {pairs pairs' : Pairing} (h : store.Parted pairs pairs') :
    store.Parted pairs' pairs := fun id id₁ id₂ cell h₁ h₂ => h id id₂ id₁ cell h₂ h₁

namespace Session

/-- A step and what is seen of it. -/
structure Sight where
  /-- The step. -/
  step : Step
  /-- What it ends with. -/
  ended : Except Raised Answer
  /-- The entries of the log for it. -/
  records : List Record

/-- Steps one after another, of which this is seen from a store on. None of them asks a counter. -/
def Seen (languages : Table InstanceId) (depth : Nat) : List Sight → Store → Prop
  | [], _ => True
  | sight :: rest, store => ∃ after,
      (sight.step.observe languages depth).on store.cleared = some (sight.ended, after) ∧
        after.records.toList = sight.records ∧
        (∀ counter, after.countOf counter = store.countOf counter) ∧
        Seen languages depth rest after

variable {languages : Table InstanceId} {store alone other after later : Store}
  {pairs pairs' : Pairing} {name name' : String} {language language' : InstanceId}
  {step : Step} {depth : Nat} {ended : Except Raised Answer}

theorem apace_cleared (h : store.Tandem pairs alone) (spared : Set CellId)
    (hthere : ∀ id ∈ spared, store.cell? id ≠ none)
    (hmade : ∀ id ∈ spared, ∀ id' cell, id.Pairs pairs id' → store.cell? id = some cell →
      cell.parser ≠ none) :
    store.cleared.Apace spared pairs store.cleared alone.cleared where
  inStep := h.inStep.of_adds (Store.adds_of_instances_eq rfl rfl rfl rfl rfl rfl)
    (Store.adds_of_instances_eq rfl rfl rfl rfl rfl rfl) h.inStep.counters
  avoids := .refl hthere hmade
  records := rfl
  logging := h.logging
  still := rfl

/-- A step on a language is seen alike when the language is used alone, and leaves the other language
as it is. -/
theorem Step.observe_tandem (hstep : step.language? = some name)
    (hname : languages.get? name = some language)
    (hlanguage : (Reference.language language, Reference.language language) ∈ pairs)
    (h : store.Tandem pairs alone) (h' : store.Tandem pairs' other)
    (hparted : store.Parted pairs pairs')
    (hon : (step.observe languages depth).on store.cleared = some (ended, after))
    (hcounters : ∀ counter, after.countOf counter = store.countOf counter) :
    ∃ larger later, pairs ⊆ larger ∧
      Eval.Eventually (step.observe languages) alone.cleared (ended, later) ∧
      later.records = after.records ∧
      (∀ counter, later.countOf counter = alone.countOf counter) ∧
      after.Tandem larger later ∧ after.Tandem pairs' other ∧ after.Parted larger pairs' := by
  -- the lazy parsers of the other language are none of this step's business
  let spared : Set CellId := {id | ∃ id', id.Pairs pairs' id'}
  have hfits : (sparing store.cleared spared).fits pairs store.cleared alone.cleared := by
    refine apace_cleared h spared ?_ ?_
    · rintro id ⟨id', hid⟩
      exact h'.inStep.cell?_ne_none hid
    · rintro id ⟨id', hid⟩ id₁ cell hid₁ hcell
      exact hparted id id₁ id' cell hid₁ hid hcell
  obtain ⟨larger, ended', later, hsub, heventually, hafter, hended⟩ :=
    Step.observe_mimics hstep hname hlanguage depth _ _ hfits _ _ hon
  have heq : ended' = ended := by
    cases hended with
    | ok heq => rw [heq]
    | error hcause => rw [hcause.eq not_false]
  rw [heq] at heventually
  refine ⟨larger, later, hsub, heventually, hafter.records, fun counter => ?_,
    ⟨hafter.inStep, hafter.logging⟩, ⟨?_, ?_⟩, ?_⟩
  · rw [hafter.inStep.counters, hcounters, h.inStep.counters]
  · refine hafter.avoids.inStep (h'.inStep.of_adds ?_ (.refl (fun _ => rfl) other) h'.inStep.counters)
      (fun id id' hid => ⟨id', hid⟩) hcounters
    exact Store.adds_of_instances_eq rfl rfl rfl rfl rfl rfl
  · rw [h'.logging]
    exact hafter.still.symm
  · rintro id id₁ id₂ cell hid₁ hid₂ hcell
    rw [hafter.avoids.same id ⟨id₂, hid₂⟩] at hcell
    exact hafter.avoids.made id ⟨id₂, hid₂⟩ id₁ cell hid₁ hcell

/-- What a language used alone is seen to do in a step, it does among others. -/
theorem Step.observe_among (hstep : step.language? = some name)
    (hname : languages.get? name = some language)
    (hlanguage : (Reference.language language, Reference.language language) ∈ pairs)
    (h : store.Tandem pairs alone)
    (hon : (step.observe languages depth).on alone.cleared = some (ended, later))
    (hcounters : ∀ counter, later.countOf counter = alone.countOf counter) :
    ∃ depth' after, (step.observe languages depth').on store.cleared = some (ended, after) ∧
      ∀ counter, after.countOf counter = store.countOf counter := by
  have hflip : alone.Tandem pairs.flip store := ⟨h.inStep.flip, h.logging.symm⟩
  have hfits : (sparing alone.cleared ∅).fits pairs.flip alone.cleared store.cleared :=
    apace_cleared hflip ∅ (fun _ hid => hid.elim) fun _ hid => hid.elim
  have hflipped : (Reference.language language, Reference.language language) ∈ pairs.flip := hlanguage
  obtain ⟨larger, ended', after, -, ⟨depth', hdepth'⟩, hafter, hended⟩ :=
    Step.observe_mimics hstep hname hflipped depth _ _ hfits _ _ hon
  have heq : ended' = ended := by
    cases hended with
    | ok heq => rw [heq]
    | error hcause => rw [hcause.eq not_false]
  refine ⟨depth', after, ?_, fun counter => ?_⟩
  · rw [hdepth' depth' (Nat.le_refl _), heq]
  · rw [hafter.inStep.counters, hcounters, h.inStep.counters]

/-- What is seen at some depth is seen at every greater depth. -/
theorem Seen.mono {depth' : Nat} (hle : depth ≤ depth') {sights : List Sight}
    (hsights : ∀ sight ∈ sights, ∃ name, sight.step.language? = some name)
    (h : Seen languages depth sights store) : Seen languages depth' sights store := by
  induction sights generalizing store with
  | nil => trivial
  | cons sight rest ih =>
    obtain ⟨after, hon, hrecords, hcounters, hrest⟩ := h
    obtain ⟨name, hstep⟩ := hsights sight List.mem_cons_self
    exact ⟨after, Step.observe_below hstep languages hle _ _ hon, hrecords, hcounters,
      ih (fun other hother => hsights other (List.mem_cons_of_mem _ hother)) hrest⟩

/-- The sights of the steps on one language. -/
def sightsOf (name : String) (sights : List Sight) : List Sight :=
  sights.filter fun sight => sight.step.language? = some name

@[simp] theorem sightsOf_cons_of_pos {sight : Sight} (h : sight.step.language? = some name)
    (rest : List Sight) : sightsOf name (sight :: rest) = sight :: sightsOf name rest := by
  simp [sightsOf, h]

@[simp] theorem sightsOf_cons_of_neg {sight : Sight} (h : sight.step.language? ≠ some name)
    (rest : List Sight) : sightsOf name (sight :: rest) = sightsOf name rest := by
  simp [sightsOf, h]

/-- All of these are sights of steps on a language. -/
theorem language_of_mem_sightsOf {sights : List Sight} {sight : Sight}
    (h : sight ∈ sightsOf name sights) : ∃ name, sight.step.language? = some name :=
  ⟨name, of_decide_eq_true (List.mem_filter.mp h).2⟩

/-- What is seen in the steps on one language is seen, too, if that is used alone. -/
theorem Seen.own {sights : List Sight} (hne : name ≠ name')
    (hname : languages.get? name = some language)
    (hname' : languages.get? name' = some language')
    (hlanguage : (Reference.language language, Reference.language language) ∈ pairs)
    (hlanguage' : (Reference.language language', Reference.language language') ∈ pairs')
    (h : store.Tandem pairs alone) (h' : store.Tandem pairs' other)
    (hparted : store.Parted pairs pairs')
    (hsights : ∀ sight ∈ sights, sight.step.language? = some name ∨
      sight.step.language? = some name')
    (hseen : Seen languages depth sights store) :
    ∃ depth', Seen languages depth' (sightsOf name sights) alone := by
  induction sights generalizing store alone other pairs pairs' with
  | nil => exact ⟨0, trivial⟩
  | cons sight rest ih =>
    obtain ⟨after, hon, hrecords, hcounters, hrest⟩ := hseen
    have hsights' := fun other hother => hsights other (List.mem_cons_of_mem _ hother)
    rcases hsights sight List.mem_cons_self with hstep | hstep
    · obtain ⟨larger, later, hsub, ⟨depth₁, hdepth₁⟩, hlog, hcount, hafter, hafter', hpart⟩ :=
        Step.observe_tandem hstep hname hlanguage h h' hparted hon hcounters
      obtain ⟨depth₂, hdepth₂⟩ := ih (hsub hlanguage) hlanguage' hafter hafter' hpart hsights' hrest
      refine ⟨max depth₁ depth₂, ?_⟩
      rw [sightsOf_cons_of_pos hstep]
      exact ⟨later, hdepth₁ _ (Nat.le_max_left _ _), by rw [hlog, hrecords], hcount,
        hdepth₂.mono (Nat.le_max_right _ _) fun _ => language_of_mem_sightsOf⟩
    · -- a step on the other language changes nothing for this one
      obtain ⟨larger, later, hsub, -, -, -, hafter', hafter, hpart⟩ :=
        Step.observe_tandem hstep hname' hlanguage' h' h hparted.symm hon hcounters
      obtain ⟨depth', hdepth'⟩ :=
        ih hlanguage (hsub hlanguage') hafter hafter' hpart.symm hsights' hrest
      refine ⟨depth', ?_⟩
      rw [sightsOf_cons_of_neg fun heq => hne (Option.some.inj (heq.symm.trans hstep))]
      exact hdepth'

/-- The next step on a language used alone can be taken among the steps on another one. -/
theorem Seen.next {sight : Sight} {rest : List Sight} (hstep : sight.step.language? = some name)
    (hname : languages.get? name = some language)
    (hlanguage : (Reference.language language, Reference.language language) ∈ pairs)
    (h : store.Tandem pairs alone) (h' : store.Tandem pairs' other)
    (hparted : store.Parted pairs pairs') (hseen : Seen languages depth (sight :: rest) alone) :
    ∃ depth' after larger later, pairs ⊆ larger ∧
      (sight.step.observe languages depth').on store.cleared = some (sight.ended, after) ∧
      after.records.toList = sight.records ∧
      (∀ counter, after.countOf counter = store.countOf counter) ∧
      after.Tandem larger later ∧ after.Tandem pairs' other ∧ after.Parted larger pairs' ∧
      Seen languages depth rest later := by
  obtain ⟨later, hon, hrecords, hcounters, hrest⟩ := hseen
  obtain ⟨depth', after, hon', hcounters'⟩ :=
    Step.observe_among hstep hname hlanguage h hon hcounters
  obtain ⟨larger, later', hsub, ⟨depth₁, hdepth₁⟩, hlog, -, hafter, hafter', hpart⟩ :=
    Step.observe_tandem hstep hname hlanguage h h' hparted hon' hcounters'
  -- the language used alone cannot end in two ways
  have hbelow := Step.observe_below hstep languages (Nat.le_max_left depth depth₁) _ _ hon
  rw [hdepth₁ _ (Nat.le_max_right depth depth₁), Option.some.injEq, Prod.mk.injEq] at hbelow
  obtain rfl := hbelow.2
  exact ⟨depth', after, larger, later', hsub, hon', by rw [← hlog, hrecords], hcounters', hafter,
    hafter', hpart, hrest⟩

/-- What is seen of two languages, each used alone, is seen of the two in turn. -/
theorem Seen.together {sights : List Sight} {depth' : Nat} (hne : name ≠ name')
    (hname : languages.get? name = some language)
    (hname' : languages.get? name' = some language')
    (hlanguage : (Reference.language language, Reference.language language) ∈ pairs)
    (hlanguage' : (Reference.language language', Reference.language language') ∈ pairs')
    (h : store.Tandem pairs alone) (h' : store.Tandem pairs' other)
    (hparted : store.Parted pairs pairs')
    (hsights : ∀ sight ∈ sights, sight.step.language? = some name ∨
      sight.step.language? = some name')
    (hseen : Seen languages depth (sightsOf name sights) alone)
    (hseen' : Seen languages depth' (sightsOf name' sights) other) :
    ∃ depth'', Seen languages depth'' sights store := by
  induction sights generalizing store alone other pairs pairs' with
  | nil => exact ⟨0, trivial⟩
  | cons sight rest ih =>
    have hsights' := fun other hother => hsights other (List.mem_cons_of_mem _ hother)
    have hany : ∀ other ∈ rest, ∃ name, other.step.language? = some name := fun other hother =>
      (hsights' other hother).elim (fun hstep => ⟨_, hstep⟩) fun hstep => ⟨_, hstep⟩
    rcases hsights sight List.mem_cons_self with hstep | hstep
    · -- it is the next step on the first language, and none on the second
      rw [sightsOf_cons_of_pos hstep] at hseen
      rw [sightsOf_cons_of_neg fun heq => hne (Option.some.inj (hstep.symm.trans heq))] at hseen'
      obtain ⟨depth₁, after, larger, later, hsub, hon, hrecords, hcounters, hafter, hafter', hpart,
        hrest⟩ := Seen.next hstep hname hlanguage h h' hparted hseen
      obtain ⟨depth₂, hdepth₂⟩ :=
        ih (hsub hlanguage) hlanguage' hafter hafter' hpart hsights' hrest hseen'
      exact ⟨max depth₁ depth₂, after,
        Step.observe_below hstep languages (Nat.le_max_left _ _) _ _ hon, hrecords, hcounters,
        hdepth₂.mono (Nat.le_max_right _ _) hany⟩
    · -- the other way round
      rw [sightsOf_cons_of_pos hstep] at hseen'
      rw [sightsOf_cons_of_neg fun heq => hne (Option.some.inj (heq.symm.trans hstep))] at hseen
      obtain ⟨depth₁, after, larger, later, hsub, hon, hrecords, hcounters, hafter, hafter', hpart,
        hrest⟩ := Seen.next hstep hname' hlanguage' h' h hparted.symm hseen'
      obtain ⟨depth₂, hdepth₂⟩ :=
        ih hlanguage (hsub hlanguage') hafter' hafter hpart.symm hsights' hseen hrest
      exact ⟨max depth₁ depth₂, after,
        Step.observe_below hstep languages (Nat.le_max_left _ _) _ _ hon, hrecords, hcounters,
        hdepth₂.mono (Nat.le_max_right _ _) hany⟩

end Session

/-! ## The functions of rules -/

/-- Whatever is done from a store on, the rules of a language are made by the functions of its class
and of its mapping, called with this language and its arguments. -/
def Store.CallsOwn (store : Store) (language : InstanceId) : Prop :=
  ∀ className arguments added makers, store.Created language className arguments added →
    store.makers? (store.instanceAt language).cls ⟨language, arguments⟩ added = some makers →
    ∀ depth deeds, ∀ scene ∈ Film.ofDeeds (Film.upTo depth) deeds store, ∀ index rule make,
      makers[index]? = some (rule, make) →
        ∃ cell, scene.store.cell? ⟨language, index⟩ = some cell ∧ cell.make = make

/-- So it is for every language. -/
theorem Store.callsOwn (store : Store) (language : InstanceId) : store.CallsOwn language := by
  intro className arguments added makers hcreated hmakers depth deeds scene hscene index rule make
    hmake
  obtain ⟨cell, hcell, hstill⟩ := hcreated.cell makers hmakers index rule make hmake
  obtain ⟨later, hlater, hstill'⟩ :=
    ((Film.advancing_ofDeeds depth deeds store).scene scene hscene).cell _ cell hcell
  exact ⟨later, hlater, hstill'.make.trans hstill.make⟩

/-! ## Two languages -/

/-- Steps on two languages, in whichever order they come, are seen to end as they do just if the
steps on the one language are when it is used alone, and those on the other one likewise. What the
rules of both lead to has to have been made before. The functions of rules are called with the
language that these belong to. -/
theorem Session.seen_iff_alone {languages : Table InstanceId} {name name' : String}
    {language language' : InstanceId} {store : Store} {pairs pairs' : Pairing}
    {sights : List Sight} (hname : languages.get? name = some language)
    (hname' : languages.get? name' = some language') (h : store.Anonymous pairs)
    (h' : store.Anonymous pairs')
    (hlanguage : (Reference.language language, Reference.language language) ∈ pairs)
    (hlanguage' : (Reference.language language', Reference.language language') ∈ pairs')
    (hshared : ∀ id cell, id.Pairs pairs id → id.Pairs pairs' id → store.cell? id = some cell →
      cell.parser ≠ none)
    (hsights : ∀ sight ∈ sights, sight.step.language? = some name ∨
      sight.step.language? = some name') :
    ((∃ depth, Seen languages depth sights store) ↔
        (∃ depth, Seen languages depth (sightsOf name sights) store) ∧
          ∃ depth, Seen languages depth (sightsOf name' sights) store) ∧
      store.CallsOwn language ∧ store.CallsOwn language' := by
  refine ⟨?_, store.callsOwn language, store.callsOwn language'⟩
  by_cases hne : name = name'
  · -- then all steps are on one language
    subst hne
    have hall : sightsOf name sights = sights :=
      List.filter_eq_self.mpr fun sight hsight =>
        decide_eq_true ((hsights sight hsight).elim id id)
    rw [hall, and_self]
  have htandem : store.Tandem pairs store := ⟨h.inStep, rfl⟩
  have htandem' : store.Tandem pairs' store := ⟨h'.inStep, rfl⟩
  have hparted : store.Parted pairs pairs' := by
    intro id id₁ id₂ cell hid₁ hid₂ hcell
    obtain rfl := h.same id id₁ hid₁
    obtain rfl := h'.same id id₂ hid₂
    exact hshared id cell hid₁ hid₂ hcell
  constructor
  · rintro ⟨depth, hseen⟩
    exact ⟨hseen.own hne hname hname' hlanguage hlanguage' htandem htandem' hparted hsights,
      hseen.own (Ne.symm hne) hname' hname hlanguage' hlanguage htandem' htandem hparted.symm
        fun sight hsight => (hsights sight hsight).symm⟩
  · rintro ⟨⟨depth, hseen⟩, depth', hseen'⟩
    exact hseen.together hne hname hname' hlanguage hlanguage' htandem htandem' hparted hsights
      hseen'

/-! ## Two languages of one class -/

/-- The names of two languages. -/
def twoLanguages : Table InstanceId := [("x", 0), ("y", 1)]

theorem twoNames : twoLanguages.get? "x" = some 0 ∧ twoLanguages.get? "y" = some 1 := ⟨rfl, rfl⟩

/-- A text that is an argument. -/
def wordOf (arguments : Table Value) : Object Parser :=
  match arguments.get? "word" with
  | some (.str word) => .parser (.text word)
  | _ => .value .nothing

/-- It is found wherever the language is. -/
def wordBody : RuleBody := fun owner => .done (wordOf owner.arguments)

/-- Two rules: this text, and one that cannot be made. -/
def wordMembers : List Member :=
  [⟨"word", false, .rule "word" none wordBody⟩,
    ⟨"broken", false, .rule "broken" none fun _ => .raise (.own .value "no")⟩]

/-- A store with a class of which one rule is this text and the other cannot be made. -/
def wordClasses : Store :=
  { Store.initial true with
    definitions := #[⟨"word", none, wordBody⟩,
      ⟨"broken", none, fun _ => .raise (.own .value "no")⟩]
    classes := #[⟨Store.baseName, [0], [], true⟩,
      ⟨"Words", [1, 0], [("word", .rule 0), ("broken", .rule 1)], true⟩]
    classNames := [(Store.baseName, 0), ("Words", 1)] }

/-- A language of that class that has been used by nobody. -/
def wordLanguage (language : InstanceId) (word : String) : Instance :=
  let owner : Owner := ⟨language, [("word", .str word)]⟩
  ⟨1, owner.arguments, some [("word", ⟨language, 0⟩), ("broken", ⟨language, 1⟩)],
    #[.unbuilt "word" (.mk (Definition.action ⟨"word", none, wordBody⟩ owner)),
      .unbuilt "broken" (.mk (Definition.action
        ⟨"broken", none, fun _ => .raise (.own .value "no")⟩ owner))]⟩

/-- The store with one such language, or with two. -/
def wordStore (words : List String) : Store :=
  { wordClasses with
    instances := (words.zipIdx.map fun (word, language) => wordLanguage language word).toArray }

/-- The classes, each paired with itself. -/
def wordNames : Pairing :=
  insert (.className "Words", .className "Words")
    {(.className Store.baseName, .className Store.baseName)}

theorem defineClass_word :
    (Store.initial true).defineClass "Words" [Store.baseName] true wordMembers = .ok wordClasses :=
  rfl

theorem anonymous_wordClasses : wordClasses.Anonymous wordNames := by
  have hmembers : List.Forall₂ (Member.Alike .exact
      {(.className Store.baseName, .className Store.baseName)}) wordMembers wordMembers := by
    refine .cons (.rule (Definition.action_alike (.inl rfl) ?_))
      (.cons (.rule (Definition.action_alike (.inl rfl) ?_)) .nil)
    · intro larger owner owner' _ howner
      refine ⟨?_, fun hstages => hstages.elim⟩
      have hword : Action.Alike .exact larger (.done (.object (wordOf owner.arguments)))
          (.done (.object (wordOf owner.arguments))) := by
        unfold wordOf
        split
        · exact .parser (.text _)
        · exact .nonParser rfl
      show Action.Alike .exact larger (.done (.object (wordOf owner.arguments)))
        (.done (.object (wordOf owner'.arguments)))
      rwa [howner.arguments]
    · exact fun _ _ _ _ _ => ⟨.raise _, fun hstages => hstages.elim⟩
  have hdefined := (Store.DefinedAlike.initial .exact true true).defineClass "Words"
    [Store.baseName] true hmembers
  rw [defineClass_word] at hdefined
  cases hdefined with
  | ok hdefined =>
    refine ⟨(Store.InStep.initial .exact true true).of_defined hdefined (Set.subset_insert _ _)
      fun id id' hid => (Set.mem_insert_iff.mp hid).resolve_left nofun, fun id id' hid => ?_⟩
    rcases hid with hid | hid <;> cases hid

theorem create_word :
    wordClasses.create "Words" [("word", .str "a")] [] = .ok (0, wordStore ["a"]) := rfl

theorem create_word_again :
    (wordStore ["a"]).create "Words" [("word", .str "b")] [] = .ok (1, wordStore ["a", "b"]) := rfl

/-- What is paired with itself for the first language. -/
def wordPairs : Pairing := (wordStore ["a"]).pairLanguages wordNames 0 0

/-- What is paired with itself for the second one. -/
def wordPairs' : Pairing := (wordStore ["a", "b"]).pairLanguages wordNames 1 1

theorem anonymous_word : (wordStore ["a", "b"]).Anonymous wordPairs ∧
    (wordStore ["a", "b"]).Anonymous wordPairs' := by
  have hclass : (Reference.className "Words", Reference.className "Words") ∈ wordNames :=
    Set.mem_insert _ _
  have hlater := Store.adds_create create_word
  have hlater' := Store.adds_create create_word_again
  exact ⟨(anonymous_wordClasses.create hclass .nil create_word).of_adds hlater',
    (anonymous_wordClasses.of_adds hlater).create hclass .nil create_word_again⟩

/-- What is seen in some steps on the two languages, one of which fails. -/
def wordSights : List Session.Sight :=
  [⟨.run (.rule "x" "word" false) ['a', 'b'] .start, .ok (.result (.matched ⟨1, 1, 2⟩ (.str "a"))),
      [.building "word" .unbuilt, .ready "word"]⟩,
    ⟨.run (.rule "y" "broken" true) ['b'] .start, .error (.own .value "no"),
      [.building "broken" .unbuilt]⟩,
    ⟨.build (.rule "y" "word" false), .ok (.built false),
      [.building "word" .unbuilt, .ready "word"]⟩,
    ⟨.parse (.rule "y" "word" false) ['b'], .ok (.result (.matched ⟨1, 1, 2⟩ (.str "b"))),
      [.matched ⟨1, 1, 2⟩ 1]⟩,
    ⟨.state "x" "broken", .ok (.state .unbuilt), []⟩]

/-- The steps on two languages of one class are seen to end like this in turn, and so they are on
each language alone. -/
theorem Session.seen_iff_alone_words :
    (wordStore ["a", "b"]).Anonymous wordPairs ∧ (wordStore ["a", "b"]).Anonymous wordPairs' ∧
      (wordStore ["a", "b"]).Created 0 "Words" [("word", .str "a")] [] ∧
      (wordStore ["a", "b"]).Created 1 "Words" [("word", .str "b")] [] ∧
      Seen twoLanguages 8 wordSights (wordStore ["a", "b"]) ∧
      (∃ depth, Seen twoLanguages depth (sightsOf "x" wordSights) (wordStore ["a", "b"])) ∧
      (∃ depth, Seen twoLanguages depth (sightsOf "y" wordSights) (wordStore ["a", "b"])) ∧
      (wordStore ["a", "b"]).CallsOwn 0 ∧ (wordStore ["a", "b"]).CallsOwn 1 := by
  obtain ⟨h, h'⟩ := anonymous_word
  have hnames : ∀ id id' : CellId, ¬ id.Pairs wordNames id' := by
    rintro id id' (hid | hid) <;> cases hid
  have hseen : Seen twoLanguages 8 wordSights (wordStore ["a", "b"]) :=
    ⟨_, rfl, rfl, fun _ => rfl, _, rfl, rfl, fun _ => rfl, _, rfl, rfl, fun _ => rfl, _, rfl, rfl,
      fun _ => rfl, _, rfl, rfl, fun _ => rfl, trivial⟩
  have hshared : ∀ id cell, id.Pairs wordPairs id → id.Pairs wordPairs' id →
      (wordStore ["a", "b"]).cell? id = some cell → cell.parser ≠ none := by
    intro id cell hid hid'
    -- no lazy parser belongs to both languages
    obtain ⟨index, rfl, -⟩ := Store.exists_of_pairLanguages hid (hnames _ _)
    obtain ⟨index, hid, -⟩ := Store.exists_of_pairLanguages hid' (hnames _ _)
    cases hid
  have hsights : ∀ sight ∈ wordSights, sight.step.language? = some "x" ∨
      sight.step.language? = some "y" := by decide
  obtain ⟨hiff, hcalls, hcalls'⟩ := Session.seen_iff_alone twoNames.1 twoNames.2 h h'
    Store.language_mem_pairLanguages Store.language_mem_pairLanguages hshared hsights
  obtain ⟨hown, hown'⟩ := hiff.mp ⟨8, hseen⟩
  have hcreated := (Store.Created.of_create create_word).2.1.of_grows
    (.of_adds Cell.Still.refl (Store.adds_create create_word_again))
  exact ⟨h, h', hcreated, (Store.Created.of_create create_word_again).2.1, hseen, hown, hown',
    hcalls, hcalls'⟩

/-! ## Two languages with a lazy parser in common -/

/-- Nothing of a language is paired. -/
def Pairing.Omits (pairs : Pairing) (language : InstanceId) : Prop :=
  ∀ pair ∈ pairs, pair.1 ≠ .language language ∧ pair.1 ≠ .home language ∧
    ∀ index, pair.1 ≠ .cell ⟨language, index⟩

/-- How a parser is made that is what was put aside. -/
def lentMaker : Maker := .mk (.fetch "lent" fun found => .done (found.map Handle.parser))

/-- A language of which the one rule is what was put aside. -/
def lentLanguage (language : InstanceId) : Instance :=
  ⟨0, [], some [("item", ⟨language, 0⟩)], #[.unbuilt "item" lentMaker]⟩

/-- A store in which a lazy parser was put aside, with these languages besides. -/
def lentStore (languages : List InstanceId) : Store :=
  { Store.initial true with
    instances := (⟨0, [], some [], #[.unbuilt "lent" (.mk (.done (.parser (.text "x"))))]⟩ ::
      languages.map lentLanguage).toArray
    shelf := [("lent", .parser (.lazy ⟨0, 0⟩))] }

/-- The rules of such a language. -/
def lentRules : Table (Owner → Maker) := [("item", fun _ => lentMaker)]

theorem create_lent :
    (lentStore []).create Store.baseName [] lentRules = .ok (1, lentStore [1]) := rfl

theorem create_lent_again :
    (lentStore [1]).create Store.baseName [] lentRules = .ok (2, lentStore [1, 2]) := rfl

/-- What was put aside, paired with itself. -/
def lentNames : Pairing :=
  {(.className Store.baseName, .className Store.baseName), (.shelved "lent", .shelved "lent"),
    (.cell ⟨0, 0⟩, .cell ⟨0, 0⟩)}

/-- Handles that are paired stand for parsers that are alike. -/
theorem Handle.Pairs.parser {leeway : Leeway} {pairs : Pairing} {handle handle' : Handle}
    (h : handle.Pairs pairs handle') : Parser.Alike leeway pairs handle.parser handle'.parser := by
  cases handle <;> cases handle' <;> first
    | exact .eof | exact .location | exact .lazy h | exact .kept h | exact h.elim

theorem lentMaker_alike {pairs : Pairing}
    (h : (Reference.shelved "lent", Reference.shelved "lent") ∈ pairs) :
    Action.Alike .exact pairs lentMaker.action.objects lentMaker.action.objects := by
  refine .fetch h fun larger found found' _ hfound => ?_
  cases found with
  | parser handle =>
    cases found' with
    | parser handle' => exact .parser (Handle.Pairs.parser hfound)
    | _ => exact hfound.elim
  | _ =>
    cases found' with
    | parser handle' => exact hfound.elim
    | _ => exact .nonParser hfound

theorem lentRules_alike : Store.RulesAlike .exact lentNames lentRules lentRules :=
  .cons ⟨rfl, fun _ _ _ hsub _ => ⟨lentMaker_alike (hsub (.inr (.inl rfl))),
    fun hstages => hstages.elim⟩⟩ .nil

theorem anonymous_lent : (lentStore []).Anonymous lentNames := by
  have hcell : ∀ id id' : CellId, id.Pairs lentNames id' → id = ⟨0, 0⟩ ∧ id' = ⟨0, 0⟩ := by
    rintro id id' (hid | hid | hid) <;> cases hid
    exact ⟨rfl, rfl⟩
  refine ⟨⟨⟨rfl, rfl, fun _ => rfl, ?_, ?_, ?_, ?_, ?_, ?_⟩, ?_, ?_, ?_, fun _ => rfl⟩, ?_⟩
  · intro id id' hid
    obtain ⟨rfl, rfl⟩ := hcell id id' hid
    exact ⟨_, _, rfl, rfl, rfl, .parser (.text "x"), fun hstages => hstages.elim⟩
  · rintro language language' (hid | hid | hid) <;> cases hid
  · rintro language language' (hid | hid | hid) <;> cases hid
  · rintro name cls (hid | hid | hid) <;> cases hid
    rintro hcls entry hentry
    cases hcls
    cases hentry
  · rintro name (hid | hid | hid) <;> cases hid
    exact .ok (.inr (.inr rfl))
  · rintro number number' (hid | hid | hid) <;> cases hid
  · rintro id id' hid cell cell' hthere hthere'
    obtain ⟨rfl, rfl⟩ := hcell id id' hid
    cases hthere
    cases hthere'
    exact ⟨rfl, .none⟩
  · exact fun id id₁ id₂ h₁ h₂ => (hcell _ _ h₁).2.trans (hcell _ _ h₂).2.symm
  · exact fun id₁ id₂ id' h₁ h₂ => (hcell _ _ h₁).1.trans (hcell _ _ h₂).1.symm
  · exact fun id id' hid => (hcell _ _ hid).1.trans (hcell _ _ hid).2.symm

/-- What is paired with itself for the first language. -/
def lentPairs : Pairing := (lentStore [1]).pairLanguages lentNames 1 1

/-- What is paired with itself for the second one. -/
def lentPairs' : Pairing := (lentStore [1, 2]).pairLanguages lentNames 2 2

theorem anonymous_lents : (lentStore [1, 2]).Anonymous lentPairs ∧
    (lentStore [1, 2]).Anonymous lentPairs' := by
  have hclass : (Reference.className Store.baseName, Reference.className Store.baseName) ∈
      lentNames := .inl rfl
  have hlater := Store.adds_create create_lent
  have hlater' := Store.adds_create create_lent_again
  exact ⟨(anonymous_lent.create hclass lentRules_alike create_lent).of_adds hlater',
    (anonymous_lent.of_adds hlater).create hclass lentRules_alike create_lent_again⟩

theorem omits_lents : lentPairs.Omits 2 ∧ lentPairs'.Omits 1 := by
  constructor
  · rintro pair ((rfl | rfl | rfl) | rfl | rfl | ⟨index, -, rfl⟩) <;> exact ⟨nofun, nofun, nofun⟩
  · rintro pair ((rfl | rfl | rfl) | rfl | rfl | ⟨index, -, rfl⟩) <;> exact ⟨nofun, nofun, nofun⟩

/-- The names of the two languages. -/
def lentLanguages : Table InstanceId := [("x", 1), ("y", 2)]

/-- What is seen when the one rule of each is run. The first one to be run makes what was put
aside. -/
def lentSights : List Session.Sight :=
  [⟨.run (.rule "x" "item" true) ['x'] .start, .ok (.result (.matched ⟨1, 1, 2⟩ (.str "x"))),
      [.building "item" .unbuilt, .ready "item", .building "lent" .unbuilt, .ready "lent"]⟩,
    ⟨.run (.rule "y" "item" true) ['x'] .start, .ok (.result (.matched ⟨1, 1, 2⟩ (.str "x"))),
      [.building "item" .unbuilt, .ready "item"]⟩]

/-- The records of the second language used alone. -/
theorem records_lent :
    (((Session.Step.run (.rule "y" "item" true) ['x'] .start).observe lentLanguages 8).on
        (lentStore [1, 2]).cleared).map (·.2.records.toList) =
      some [.building "item" .unbuilt, .ready "item", .building "lent" .unbuilt, .ready "lent"] :=
  rfl

/-- It is not enough that neither language is mentioned by the rules of the other one: what was put
aside is made only once. -/
theorem not_forall_seen_iff_alone :
    ¬ ∀ (languages : Table InstanceId) (name name' : String) (language language' : InstanceId)
      (store : Store) (pairs pairs' : Pairing) (sights : List Session.Sight),
      languages.get? name = some language → languages.get? name' = some language' →
      language ≠ language' → store.Anonymous pairs → store.Anonymous pairs' →
      (Reference.language language, Reference.language language) ∈ pairs →
      (Reference.language language', Reference.language language') ∈ pairs' →
      pairs.Omits language' → pairs'.Omits language →
      (∀ sight ∈ sights, sight.step.language? = some name ∨ sight.step.language? = some name') →
      ((∃ depth, Session.Seen languages depth sights store) ↔
        (∃ depth, Session.Seen languages depth (Session.sightsOf name sights) store) ∧
          ∃ depth, Session.Seen languages depth (Session.sightsOf name' sights) store) := by
  intro hall
  have hseen : Session.Seen lentLanguages 8 lentSights (lentStore [1, 2]) :=
    ⟨_, rfl, rfl, fun _ => rfl, _, rfl, rfl, fun _ => rfl, trivial⟩
  obtain ⟨h, h'⟩ := anonymous_lents
  obtain ⟨-, depth, after, hon, hrecords, -⟩ :=
    (hall lentLanguages "x" "y" 1 2 (lentStore [1, 2]) lentPairs lentPairs' lentSights rfl rfl
      (by decide) h h' Store.language_mem_pairLanguages Store.language_mem_pairLanguages
      omits_lents.1 omits_lents.2 (by decide)).mp ⟨8, hseen⟩
  -- alone, the second language has to make it, too
  have hdeep := Session.Step.observe_below rfl lentLanguages (Nat.le_max_left depth 8) _ _ hon
  obtain ⟨⟨ended, later⟩, hlater, hmade⟩ := Option.map_eq_some_iff.mp records_lent
  have hdeep' := Session.Step.observe_below rfl lentLanguages (Nat.le_max_right depth 8) _ _ hlater
  rw [hdeep, Option.some.injEq, Prod.mk.injEq] at hdeep'
  rw [hdeep'.2] at hrecords
  rw [hrecords] at hmade
  cases hmade

end Descent
