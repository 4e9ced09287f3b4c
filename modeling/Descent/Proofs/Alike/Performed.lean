import Descent.Proofs.Alike.Builders

/-! # Performing scripts that run no parser

* **`Store.Later`** — a later store, in which more may be tracked.
* **`Engine.Records`** — whatever a script ends with, it replays afterwards.
* **`Action.Alike.records`** — main statement: so it is with scripts that run no parser, if the lazy
  parsers that they have made are.
* **`Engine.Builds.remembers_levels`** — so they are, at all depths. -/

namespace Descent

/-- A later store, in which more may be tracked. -/
structure Store.Later (store : Store) (known : Known) (after : Store) (larger : Known) : Prop where
  /-- What was known is. -/
  sub : known ⊆ larger
  /-- The store has grown. -/
  grows : Grows Cell.Still store after
  /-- All that is known is tracked. -/
  tracked : after.Tracked larger

variable {store middle after : Store} {known known' larger : Known} {pairs : Pairing}

namespace Store.Later

/-- A store in which all is tracked is no later than itself. -/
theorem refl (h : store.Tracked known) : store.Later known store known :=
  ⟨.rfl, .refl Cell.Still.refl store, h⟩

/-- A store to which something was added. -/
theorem of_adds (h : store.Tracked known) (hadds : Adds store after) :
    store.Later known after known :=
  ⟨.rfl, .of_adds Cell.Still.refl hadds, h.of_adds hadds⟩

/-- What comes later still. -/
theorem trans (h : store.Later known middle known') (h' : middle.Later known' after larger) :
    store.Later known after larger :=
  ⟨h.sub.trans h'.sub, h.grows.still_trans h'.grows, h'.tracked⟩

/-- A store with a new lazy parser. -/
theorem addCell (h : store.Tracked known) {language : InstanceId} {name : String} {make : Maker}
    (hhome : Reference.home language ∈ known) (hmake : make.action.objects.Within known) :
    store.Later known (store.addCell language name make).2
      (insert (.cell (store.addCell language name make).1) known) :=
  ⟨Set.subset_insert _ _, .of_adds Cell.Still.refl (adds_addCell store language name make),
    h.addCell hhome hmake⟩

/-- A store with a new language. -/
theorem create (h : store.Tracked known) {className : String} {arguments : Table Value}
    {added : Table (Owner → Maker)} {language : InstanceId}
    (hclass : Reference.className className ∈ known)
    (hadded : ∀ entry ∈ added, RuleBody.Within known fun owner => (entry.2 owner).action)
    (hcreate : store.create className arguments added = .ok (language, after)) :
    store.Later known after (Honours.withLanguage after known language) :=
  ⟨Honours.subset_withLanguage _ _ _, .of_adds Cell.Still.refl (adds_create hcreate),
    h.create hclass hadded hcreate⟩

end Store.Later

/-! ## What is paired with itself -/

/-- What leads to known lazy parsers only is paired with itself. -/
theorem Object.Within.selfPairs {P : Type} {inside : P → Prop} {inside' : P → P → Prop}
    {object : Object P} (hinside : ∀ p, inside p → inside' p p)
    (h : object.Within known inside) :
    object.Pairs (pairs ∪ Known.diagonal known) inside' object := by
  cases object with
  | parser p => exact hinside p h
  | value v => exact rfl
  | table rules =>
    refine List.forall₂_same.mpr fun item hitem => ⟨rfl, ?_⟩
    exact .inr ⟨h item hitem, rfl⟩
  | other kind shown => exact ⟨rfl, rfl⟩

/-- A known parser that can be recognised again is paired with itself. -/
theorem Handle.Within.selfPairs {handle : Handle} (h : handle.Within known) :
    handle.Pairs (pairs ∪ Known.diagonal known) handle := by
  cases handle with
  | eof | location => trivial
  | lazy cell => exact .inr ⟨h, rfl⟩
  | kept number => exact .inr ⟨h, rfl⟩

/-! ## Scripts -/

/-- Whatever a script ends with when it is performed, it replays afterwards. -/
def Engine.Records (engine : Engine Eval) (known : Known) (store : Store)
    (script : Action Yield) : Prop :=
  ∀ ended after, (engine.perform script).on store = some (ended, after) →
    ∃ larger, store.Later known after larger ∧
      ∀ yield, ended = .ok yield → script.Replays larger after yield

/-- Whatever known lazy parser has been made, its script replays afterwards. -/
def Engine.Remembers (engine : Engine Eval) : Prop :=
  ∀ known store cell, store.Tracked known → Reference.cell cell ∈ known → ∀ ended after,
    (engine.build cell).on store = some (ended, after) →
      ∃ larger, store.Later known after larger ∧ ∀ p, ended = .ok p → ∃ found,
        after.cell? cell = some found ∧
          found.make.action.objects.Replays larger after (.object (.parser p))

namespace Engine.Records

variable {engine : Engine Eval} {script next : Action Yield}

/-- A script that is done at once. -/
theorem ended (ht : store.Tracked known) {outcome : Except Raised Yield}
    (hperform : (engine.perform script).on store = some (outcome, store))
    (hreplays : ∀ yield, outcome = .ok yield → script.Replays known store yield) :
    engine.Records known store script := by
  intro ended after hon
  rw [hperform] at hon
  cases hon
  exact ⟨known, .refl ht, hreplays⟩

/-- A script that does something and goes on. -/
theorem goesOn (h : engine.Records known' middle next) (hlater : store.Later known middle known')
    (hperform : (engine.perform script).on store = (engine.perform next).on middle)
    (hreplays : ∀ after larger yield, middle.Later known' after larger →
      next.Replays larger after yield → script.Replays larger after yield) :
    engine.Records known store script := by
  intro ended after hon
  rw [hperform] at hon
  obtain ⟨larger, hlater', hended⟩ := h ended after hon
  exact ⟨larger, hlater.trans hlater', fun yield hyield =>
    hreplays after larger yield hlater' (hended yield hyield)⟩

/-- A script that reads something off the store and goes on, or ends with an error. -/
theorem consults {β : Type} {view : Store → Except Raised β} {next : β → Action Yield}
    (ht : store.Tracked known)
    (hperform : engine.perform script
      = Eval.consult view >>= fun found => engine.perform (next found))
    (hreplays : ∀ found after larger yield, view store = .ok found →
      store.Later known after larger → (next found).Replays larger after yield →
      script.Replays larger after yield)
    (h : ∀ found, view store = .ok found → engine.Records known store (next found)) :
    engine.Records known store script := by
  cases hview : view store with
  | error cause =>
    have hended : (engine.perform script).on store = some (.error cause, store) := by
      rw [hperform]
      exact Eval.bind_error (Eval.consult_of hview)
    exact .ended ht hended nofun
  | ok found =>
    refine .goesOn (h found hview) (.refl ht) ?_ fun after larger yield =>
      hreplays found after larger yield hview
    rw [hperform]
    exact Eval.bind_ok (Eval.consult_of hview)

/-- A script that looks an attribute of a language up. -/
theorem lookUp {language : InstanceId} {name : String}
    {next : Object CellId → Action Yield} (ht : store.Tracked known)
    (hlanguage : Reference.language language ∈ known)
    (h : ∀ found, store.lookUp language name = .ok found → engine.Records known store (next found)) :
    engine.Records known store (.lookUp language name next) := by
  refine consults ht rfl (fun found after larger yield hfound hlater hyield => ?_) h
  rw [← hlater.grows.lookUp (ht.language _ hlanguage).1] at hfound
  exact .lookUp (hlater.sub hlanguage) hfound hyield

/-- A script that asks for a rule of a language. -/
theorem rule {language : InstanceId} {name : String} {next : CellId → Action Yield}
    (ht : store.Tracked known) (hlanguage : Reference.language language ∈ known)
    (h : ∀ cell, store.getRule language name = .ok cell → engine.Records known store (next cell)) :
    engine.Records known store (.rule language name next) := by
  refine consults ht rfl (fun cell after larger yield hrule hlater hyield => ?_) h
  rw [← hlater.grows.getRule (ht.language _ hlanguage).1] at hrule
  exact .rule (hlater.sub hlanguage) hrule hyield

/-- A script that fetches something that was put aside. -/
theorem fetch {name : String} {next : Object Handle → Action Yield} (ht : store.Tracked known)
    (h : ∀ found, store.fetch name = .ok found → engine.Records known store (next found)) :
    engine.Records known store (.fetch name next) := by
  refine consults ht rfl (fun found after larger yield hfound hlater hyield => ?_) h
  refine .fetch ?_ hyield
  rw [← hfound]
  unfold Store.fetch
  rw [hlater.grows.shelf]

/-- A script that has a lazy parser made and goes on. -/
theorem build {cell : CellId} (hengine : engine.Remembers) (ht : store.Tracked known)
    (hcell : Reference.cell cell ∈ known)
    (h : ∀ middle known', store.Later known middle known' → engine.Records known' middle next) :
    engine.Records known store (.build cell next) := by
  intro ended after hon
  cases hbuild : (engine.build cell).on store with
  | none =>
    rw [Engine.perform, Eval.bind_none hbuild] at hon
    cases hon
  | some built =>
    obtain ⟨built, middle⟩ := built
    obtain ⟨known', hlater, hmade⟩ := hengine known store cell ht hcell _ _ hbuild
    cases built with
    | error cause =>
      rw [Engine.perform, Eval.bind_error hbuild] at hon
      cases hon
      exact ⟨known', hlater, nofun⟩
    | ok p =>
      obtain ⟨found, hfound, hreplays⟩ := hmade p rfl
      refine goesOn (h middle known' hlater) hlater (Eval.bind_ok hbuild)
        (fun after larger yield hlater' hyield => ?_) ended after hon
      -- what the lazy parser was made of is still on record when the script has ended
      obtain ⟨found', hfound', hstill⟩ := hlater'.grows.cell cell found hfound
      have hreplays' := hlater.tracked.replays hlater'.grows hlater'.sub hreplays
      rw [← hstill.make] at hreplays'
      exact .build (hlater'.sub (hlater.sub hcell)) hfound' hreplays' hyield

/-- A script that makes a new lazy parser and goes on. -/
theorem defer {language : InstanceId} {name : String} {make : Maker}
    {next : CellId → Action Yield} (ht : store.Tracked known)
    (hhome : Reference.home language ∈ known) (hmake : make.action.objects.Within known)
    (h : engine.Records (insert (.cell (store.addCell language name make).1) known)
      (store.addCell language name make).2 (next (store.addCell language name make).1)) :
    engine.Records known store (.defer language name make next) := by
  have hcell := Store.cell?_addCell (ht.home _ hhome) name make
  refine goesOn h (.addCell ht hhome hmake) rfl fun after larger yield hlater hyield => ?_
  obtain ⟨cell', hcell', hstill⟩ := hlater.grows.cell _ _ hcell
  exact .defer (hlater.sub (Set.mem_insert _ _)) hcell' hstill hyield

/-- A script that makes a new language and goes on. -/
theorem create {className : String} {arguments : Table Value} {rules : Table (Owner → Maker)}
    {next : InstanceId → Action Yield} (ht : store.Tracked known)
    (hclass : Reference.className className ∈ known)
    (hrules : ∀ entry ∈ rules, RuleBody.Within known fun owner => (entry.2 owner).action)
    (h : ∀ language middle, store.create className arguments rules = .ok (language, middle) →
      engine.Records (Store.Honours.withLanguage middle known language) middle (next language)) :
    engine.Records known store (.create className arguments rules next) := by
  cases hcreate : store.create className arguments rules with
  | error cause => exact ended ht (Eval.bind_error (Eval.attempt_error hcreate)) nofun
  | ok made =>
    obtain ⟨language, middle⟩ := made
    refine goesOn (h language middle hcreate) (.create ht hclass hrules hcreate)
      (Eval.bind_ok (Eval.attempt_ok hcreate)) fun after larger yield hlater hyield => ?_
    exact .create (hlater.sub (Store.Honours.language_mem_withLanguage middle known language))
      (hlater.sub (Store.Honours.home_mem_withLanguage middle known language))
      ((Store.Created.of_create hcreate).2.1.of_grows hlater.grows) hyield

end Engine.Records

/-- A script that runs no parser replays after it was performed. That it is like some other script
says that it asks only for what is paired, and so for what is known. -/
theorem Action.Alike.records {engine : Engine Eval} (hengine : engine.Remembers) {pairs : Pairing}
    {known : Known} {store : Store} {action action' : Action Yield}
    (hleft : ∀ pair ∈ pairs, pair.1 ∈ known) (ht : store.Tracked known) :
    Action.Alike .caching pairs action action' → action.Quiet → engine.Records known store action
  | .note hnext, hquiet =>
      have hlater := Store.Later.of_adds ht (Store.adds_note store _)
      .goesOn (hnext.records hengine hleft hlater.tracked hquiet) hlater rfl fun _ _ _ _ => .note
  | .parser hp, _ => .ended ht rfl fun _ e => Except.ok.inj e ▸ .done _
  | .nonParser hobject, _ => .ended ht rfl fun _ e => Except.ok.inj e ▸ .done _
  | .result hresult, _ => .ended ht rfl fun _ e => Except.ok.inj e ▸ .done _
  | .raise cause, _ => .ended ht rfl nofun
  | .run hparser hnext, hquiet => hquiet.elim
  | .build hcell hnext, hquiet =>
      .build hengine ht (hleft _ hcell) fun _ _ hlater => hnext.records hengine
        (fun pair hpair => hlater.sub (hleft pair hpair)) hlater.tracked hquiet
  | @Action.Alike.defer _ _ language _ name make _ next _ hhome hmake hquiet' hnext, hquiet => by
    let made := store.addCell language name make
    have hwithin := hmake.within (hquiet' trivial).1 hleft
    have hleft' : ∀ pair ∈ insert (Reference.cell made.1, Reference.cell made.1) pairs,
        pair.1 ∈ insert (Reference.cell made.1) known := by
      rintro pair (rfl | hpair)
      · exact Set.mem_insert _ _
      · exact Set.mem_insert_of_mem _ (hleft pair hpair)
    exact .defer ht (hleft _ hhome) hwithin <|
      (hnext _ made.1 made.1 (Set.subset_insert _ _) (Set.mem_insert _ _)).records hengine hleft'
        (ht.addCell (hleft _ hhome) hwithin) (hquiet made.1)
  | @Action.Alike.inspect _ _ cell _ next _ hstages hcell hnext, _ => (hstages trivial).elim
  | @Action.Alike.inspectAny _ _ cell _ next _ hnext, hquiet =>
    let found := store.cellAt cell
    .goesOn ((hnext found.state found.shown default default).records hengine hleft ht (hquiet _ _))
      (.refl ht) rfl fun _ _ _ _ => .inspect
  | @Action.Alike.lookUp _ _ language _ name next _ hlanguage hnext, hquiet => by
    refine .lookUp ht (hleft _ hlanguage) fun found hfound => ?_
    have hwithin := Store.lookUp_within (ht.language _ (hleft _ hlanguage)).2 hfound
    exact (hnext _ found found Set.subset_union_left
      (hwithin.selfPairs fun cell hcell => .inr ⟨hcell, rfl⟩)).records hengine
      (Known.left_diagonal hleft .rfl) ht (hquiet found)
  | @Action.Alike.rule _ _ language _ name next _ hlanguage hnext, hquiet => by
    refine .rule ht (hleft _ hlanguage) fun cell hrule => ?_
    have hcell : (Reference.cell cell, Reference.cell cell) ∈ known.diagonal :=
      ⟨Store.getRule_within (ht.language _ (hleft _ hlanguage)).2 hrule, rfl⟩
    exact (hnext (pairs ∪ known.diagonal) cell cell Set.subset_union_left (.inr hcell)).records
      hengine (Known.left_diagonal hleft .rfl) ht (hquiet cell)
  | @Action.Alike.create _ _ className arguments rules _ next _ hclass hnames hrules hquiet'
      hnext, hquiet => by
    have hadded := (Store.RulesAlike.of_zip hnames hrules hquiet').within hleft
    refine .create ht (hleft _ hclass) hadded fun language middle hcreate => ?_
    have hlater := Store.Later.create ht (hleft _ hclass) hadded hcreate
    have hlanguage := Store.Honours.language_mem_withLanguage middle known language
    have hhome := Store.Honours.home_mem_withLanguage middle known language
    -- the new language is known now, so it may be paired with itself
    exact (hnext (pairs ∪ Known.diagonal (Store.Honours.withLanguage middle known language))
      language language Set.subset_union_left (.inr ⟨hlanguage, rfl⟩) (.inr ⟨hhome, rfl⟩)).records
      hengine (Known.left_diagonal hleft hlater.sub) hlater.tracked (hquiet language)
  | @Action.Alike.fetch _ _ name next _ hname hnext, hquiet => by
    refine .fetch ht fun found hfound => ?_
    have hwithin := ht.shelved name found (hleft _ hname) hfound
    exact (hnext _ found found Set.subset_union_left
      (hwithin.selfPairs fun handle => Handle.Within.selfPairs)).records hengine
      (Known.left_diagonal hleft .rfl) ht (hquiet found)
  | @Action.Alike.count _ _ counter next _ hstages hnext, _ => (hstages trivial).elim
  | @Action.Alike.countAny _ _ counter _ next _ hstages hnext, hquiet =>
    have hlater := Store.Later.of_adds ht (Store.adds_count store counter)
    have hrecords := (hnext (store.count counter).1 default).records hengine hleft hlater.tracked
      (hquiet _)
    .goesOn hrecords hlater rfl fun _ _ _ _ => .count

/-! ## Lazy parsers -/

namespace Engine

variable {build : Engine Eval → CellId → Eval Parser} {engine : Engine Eval} {cell : CellId}
  {found : Cell} {started : Store} {finish : Except Raised (Object Parser) → Store → Store}
  {outcome : Except Raised (Object Parser)}

/-- The object that a script makes is what it ends with. -/
theorem perform_objects (engine : Engine Eval) (action : Action (Object Parser)) (store : Store) :
    (engine.perform action.objects).on store
      = ((engine.perform action).on store).map fun (ended, after) =>
        (ended.map Yield.object, after) := by
  rw [perform_bind]
  exact Eval.map_on _ _ _

/-- A script that ends with a parser makes it. -/
theorem perform_of_objects {action : Action (Object Parser)} {store after : Store} {p : Parser}
    (h : (engine.perform action.objects).on store = some (.ok (.object (.parser p)), after)) :
    (engine.perform action).on store = some (.ok (.parser p), after) := by
  rw [perform_objects, Option.map_eq_some_iff] at h
  obtain ⟨⟨ended, middle⟩, hon, heq⟩ := h
  cases ended with
  | error cause => cases heq
  | ok object =>
    cases heq
    exact hon

/-- The store that is made ready for a script is later. -/
theorem Calls.later (hcalls : Calls build store cell found started finish)
    (ht : store.Tracked known) : store.Later known started known :=
  ⟨.rfl, hcalls.grows, hcalls.tracked known ht⟩

/-- If the script of a known lazy parser made a parser, it replays. -/
theorem Calls.records (hcalls : Calls build store cell found started finish)
    (hengine : engine.Remembers) (ht : store.Tracked known)
    (hwithin : found.make.action.objects.Within known)
    (hperform : (engine.perform found.make.action).on started = some (outcome, middle)) :
    ∃ larger, started.Later known middle larger ∧ ∀ p, outcome = .ok (.parser p) →
      found.make.action.objects.Replays larger middle (.object (.parser p)) := by
  obtain ⟨hquiet, pairs, other, hleft, halike⟩ := hwithin
  have hon : (engine.perform found.make.action.objects).on started
      = some (outcome.map Yield.object, middle) := by
    rw [perform_objects, hperform]
    rfl
  obtain ⟨larger, hlater, hreplays⟩ :=
    halike.records hengine hleft (hcalls.tracked known ht) hquiet _ _ hon
  refine ⟨larger, hlater, ?_⟩
  rintro p rfl
  exact hreplays _ rfl

/-- When the script of a lazy parser has ended, all that is tracked still is, if it replays. -/
theorem Calls.finished (hcalls : Calls build store cell found started finish)
    (hfound : store.cell? cell = some found) (ht : middle.Tracked known')
    (hlater : started.Later known middle larger) (hreplays : ∀ p, outcome = .ok (.parser p) →
      found.make.action.objects.Replays larger middle (.object (.parser p))) :
    middle.Later known' (finish outcome middle) (known' ∪ larger) := by
  refine ⟨Set.subset_union_left, hcalls.finish_grows outcome middle, ?_⟩
  refine hcalls.finish_tracked _ outcome middle (ht.union hlater.tracked) (fun later hthere => ?_)
    fun p hp => hlater.tracked.replays (.refl Cell.Still.refl middle) Set.subset_union_right
      (hreplays p hp)
  obtain ⟨first, hfirst, hstill⟩ := hcalls.grows.cell cell found hfound
  obtain ⟨later', hlater', hstill'⟩ := hlater.grows.cell cell first hfirst
  rw [hthere, Option.some.injEq] at hlater'
  rw [hlater', hstill'.make, hstill.make]

/-- At all depths, the scripts of lazy parsers that have been made replay. -/
theorem Builds.remembers_levels (h : Builds build) (depth : Nat) :
    (levels build depth).Remembers := by
  induction depth with
  | zero =>
    intro known store cell ht hcell ended after hon
    cases hon
  | succ depth ih =>
    intro known store cell ht hcell ended after hon
    obtain ⟨found, hfound, hwithin, hmade⟩ := ht.cell cell hcell
    rcases h.present store cell found hfound with ⟨p, hp, hbuild⟩ | ⟨started, finish, hcalls⟩
    · rw [levels, hbuild] at hon
      cases hon
      refine ⟨known, .refl ht, ?_⟩
      rintro p' ⟨⟩
      exact ⟨found, hfound, hmade p hp⟩
    · rw [levels, hcalls.on, Option.map_eq_some_iff] at hon
      obtain ⟨⟨outcome, middle⟩, hperform, heq⟩ := hon
      cases heq
      obtain ⟨larger, hlater, hreplays⟩ := hcalls.records ih ht hwithin hperform
      have hafter := (hcalls.later ht).trans
        (hlater.trans (hcalls.finished hfound hlater.tracked hlater hreplays))
      refine ⟨_, hafter, fun p hp => ?_⟩
      obtain ⟨found', hfound', hstill⟩ := hafter.grows.cell cell found hfound
      refine ⟨found', hfound', ?_⟩
      rw [hstill.make]
      exact hlater.tracked.replays (hcalls.finish_grows outcome middle) Set.subset_union_left
        (hreplays p (parserOf_eq_ok hp))

end Engine

end Descent
