import Descent.Proofs.Alike.Classes
import Descent.Proofs.Alike.Tracked
import Descent.Proofs.Journal
import Descent.Proofs.Store.Opens
import Mathlib.Logic.Relation

/-! # What has been made before has no say in parsing

Lazy parsers are made when they are first run and kept from then on. A rule that is made by a pure
builder, which runs no parser and does the same each time, ends in the same way whatever has been
run before, and even if nothing were kept and its builder were called anew each time.

* **`Store.Pure`**, **`Parser.Pure`** — stores and parsers with pure builders.
* **`Store.Uses`** — a store after something was done with pure parsers.
* **`Eval.Agree`** — computations end alike on two stores.
* **`Store.Pure.agree_rule`** — main statement: a rule that is made by pure builders ends alike
  whatever has been made before, on its language and on a new one, and if nothing is kept. -/

namespace Descent

/-- What is paired in a store is made by pure builders: by scripts that run no parser and end alike
each time they are performed. What has been made is what they make. -/
def Store.Pure (store : Store) (pairs : Pairing) : Prop :=
  ∃ known, store.Tied known known pairs store

/-- The functions of a parser, and the builders of the lazy parsers in it, do the same each time,
whatever has been made before. -/
def Parser.Pure (store : Store) (p : Parser) : Prop :=
  ∃ pairs, store.Pure pairs ∧ Parser.Alike .caching pairs p p

/-- Something is done with pure parsers. -/
def Operation.Pure (store : Store) : Operation → Prop
  | .run parser _ _ => parser.Pure store
  | .parse root _ => root.Pure store
  | .tryParse root _ => root.Pure store
  | .build cell => (Parser.lazy cell).Pure store
  | .perform action => ∃ pairs, store.Pure pairs ∧
      Action.Alike .caching pairs action.objects action.objects

/-- A store after something was done with pure parsers, whatever that ended with. -/
def Store.Uses (store after : Store) : Prop :=
  ∃ (operation : Operation) (depth : Nat) (ended : Except Raised Unit), operation.Pure store ∧
    (operation.apply (Engine.upTo depth)).on store = some (ended, after)

/-- Two families of computations, at greater and greater depths, end alike on two stores: the one
ends just if the other one does, and whatever they end with is the same, but for the stages that an
error shows. -/
def Eval.Agree {α : Type} (first : Nat → Eval α) (store : Store) (second : Nat → Eval α)
    (store' : Store) : Prop :=
  ((∃ depth ended, (first depth).on store = some ended) ↔
    ∃ depth ended, (second depth).on store' = some ended) ∧
  ∀ depth depth' ended ended' after after', (first depth).on store = some (ended, after) →
    (second depth').on store' = some (ended', after') → Outcomes .caching Eq ended ended'

variable {store after store' : Store} {known known' : Known} {pairs : Pairing} {p : Parser}

/-! ## What is done with pure parsers -/

/-- A store in which more is tracked. -/
theorem Store.Later.union (h : store.Tracked known) (h' : store.Tracked known') :
    store.Later known' store (known ∪ known') :=
  ⟨Set.subset_union_right, .refl Cell.Still.refl store, h.union h'⟩

/-- A computation that mimics itself leaves a later store. -/
theorem Eval.Mimics.later {α β : Type} {R : Pairing → α → β → Prop} {first : Eval α}
    {family : Nat → Eval β}
    (h : ∀ known, Mimics (tracked store known store known) pairs R first family)
    (hpure : store.Pure pairs) (ht : store.Tracked known) {ended : Except Raised α}
    (hon : first.on store = some (ended, after)) : ∃ larger, store.Later known after larger := by
  obtain ⟨known', htied⟩ := hpure
  have hlater := Store.Later.union ht htied.tracked
  have hrefl := Store.Later.refl hlater.tracked
  obtain ⟨_, _, _, -, -, ⟨larger, -, hafter, -⟩, -⟩ :=
    h (known ∪ known') store store ⟨_, _, hrefl, hrefl, htied.later hlater hlater⟩ ended after hon
  exact ⟨larger, ⟨Set.subset_union_left.trans hafter.sub, hafter.grows, hafter.tracked⟩⟩

open Engine

/-- At all depths, an engine that keeps what it makes mimics itself. -/
theorem mimics_upTo (store : Store) (known : Known) (depth : Nat) :
    (upTo depth).Mimics (tracked store known store known) upTo := by
  rw [← levels_assemble]
  exact builds_assemble.mimics_levels builds_assemble depth

section Later

variable {depth : Nat}

/-- A run of a pure parser leaves a later store. -/
theorem Parser.Pure.later_run (h : p.Pure store) (ht : store.Tracked known) {source : Source}
    {place : Position} {ended : Except Raised Result}
    (hon : ((upTo depth).run p source place).on store = some (ended, after)) :
    ∃ larger, store.Later known after larger := by
  obtain ⟨pairs, hpure, hp⟩ := h
  exact Eval.Mimics.later (fun known => (mimics_upTo store known depth).run source place hp) hpure
    ht hon

/-- A parse with a pure parser leaves a later store. -/
theorem Parser.Pure.later_parse (h : p.Pure store) (ht : store.Tracked known) {source : Source}
    {ended : Except Raised Result}
    (hon : ((upTo depth).parse p source).on store = some (ended, after)) :
    ∃ larger, store.Later known after larger := by
  rcases Eval.bind_eq_some hon with ⟨cause, hrun, -⟩ | ⟨result, middle, hrun, hlog⟩
  · exact h.later_run ht hrun
  · obtain ⟨larger, hlater⟩ := h.later_run ht hrun
    refine ⟨larger, hlater.trans (.of_adds hlater.tracked ?_)⟩
    rcases Eval.bind_eq_some hlog with ⟨cause, hlog, -⟩ | ⟨done, logged, hlog, hdone⟩
    · exact ((Eval.Basic.logResult source result).opens hlog).adds
    · cases hdone
      exact ((Eval.Basic.logResult source result).opens hlog).adds

/-- A store after a pure parser was run. -/
theorem Store.Uses.of_run (h : p.Pure store) {source : Source} {place : Position}
    {ended : Except Raised Result}
    (hon : ((upTo depth).run p source place).on store = some (ended, after)) :
    Store.Uses store after :=
  ⟨.run p source place, depth, ended.map fun _ => (), h,
    (Eval.map_on _ _ _).trans (congrArg _ hon)⟩

/-- Whatever is done with pure parsers leaves a later store. -/
theorem Operation.Pure.later {operation : Operation} (h : operation.Pure store)
    (ht : store.Tracked known) {ended : Except Raised Unit}
    (hon : (operation.apply (upTo depth)).on store = some (ended, after)) :
    ∃ larger, store.Later known after larger := by
  -- what an operation ends with is forgotten, and that changes nothing
  have hforget : ∀ {α : Type} {first : Eval α},
      (first >>= fun _ => pure ()).on store = some (ended, after) →
        ∃ outcome, first.on store = some (outcome, after) := by
    intro α first hfirst
    rw [Eval.map_on, Option.map_eq_some_iff] at hfirst
    obtain ⟨⟨outcome, middle⟩, hfirst, heq⟩ := hfirst
    cases heq
    exact ⟨outcome, hfirst⟩
  cases operation with
  | run parser source start =>
    obtain ⟨outcome, hrun⟩ := hforget hon
    exact Parser.Pure.later_run h ht hrun
  | parse root source =>
    obtain ⟨outcome, hparse⟩ := hforget hon
    exact Parser.Pure.later_parse h ht hparse
  | tryParse root source =>
    obtain ⟨outcome, hparse⟩ := hforget hon
    have hskip : (root.skip .eof).Pure store := by
      obtain ⟨pairs, hpure, hroot⟩ := h
      exact ⟨pairs, hpure, hroot.skip .eof⟩
    rcases Eval.bind_eq_some hparse with ⟨cause, hparse, -⟩ | ⟨result, middle, hparse, hresult⟩
    · exact hskip.later_parse ht hparse
    · -- what comes after the parse leaves the store alone
      cases result with
      | matched stop value =>
        cases hresult
        exact hskip.later_parse ht hparse
      | failed failure =>
        cases hresult
        exact hskip.later_parse ht hparse
  | build cell =>
    obtain ⟨outcome, hbuild⟩ := hforget hon
    obtain ⟨pairs, hpure, hcell⟩ := h
    cases hcell with
    | lazy hcell =>
      exact Eval.Mimics.later (fun known => (mimics_upTo store known depth).build hcell) hpure ht
        hbuild
  | perform action =>
    obtain ⟨outcome, hperform⟩ := hforget hon
    obtain ⟨pairs, hpure, haction⟩ := h
    exact Eval.Mimics.later (fun known => (mimics_upTo store known depth).objects haction) hpure ht
      hperform

end Later

/-- Whatever has been done with pure parsers, the store is a later one. -/
theorem Store.later_of_uses (h : Relation.ReflTransGen Store.Uses store after)
    (ht : store.Tracked known) : ∃ larger, store.Later known after larger := by
  induction h with
  | refl => exact ⟨known, .refl ht⟩
  | tail _ huses ih =>
    obtain ⟨_, hlater⟩ := ih
    obtain ⟨operation, depth, ended, hpure, hon⟩ := huses
    obtain ⟨larger, hafter⟩ := hpure.later hlater.tracked hon
    exact ⟨larger, hlater.trans hafter⟩

/-! ## Stores with other histories -/

/-- On stores that are tied, parsers that are alike end alike, whichever way lazy parsers are
made. -/
theorem Store.Tied.agree (h : store.Tied known known' pairs store') {p' : Parser}
    (hp : Parser.Alike .caching pairs p p') {build build' : Engine Eval → CellId → Eval Parser}
    (hbuild : Builds build) (hbuild' : Builds build') (source : Source) (place : Position) :
    Eval.Agree (fun depth => (levels build depth).run p source place) store
      (fun depth => (levels build' depth).run p' source place) store' := by
  have hmimics := fun depth => (hbuild.mimics_levels hbuild' depth).run source place hp store store'
    ⟨_, _, .refl h.tracked, .refl h.tracked', h⟩
  have hmimics' := fun depth => (hbuild'.mimics_levels hbuild depth).run source place hp.flip store'
    store ⟨_, _, .refl h.tracked', .refl h.tracked, h.flip⟩
  refine ⟨⟨?_, ?_⟩, ?_⟩
  · rintro ⟨depth, ⟨ended, after⟩, hon⟩
    obtain ⟨_, ended', after', -, ⟨depth', hdepth'⟩, -, -⟩ := hmimics depth ended after hon
    exact ⟨depth', _, hdepth' depth' (Nat.le_refl _)⟩
  · rintro ⟨depth, ⟨ended, after⟩, hon⟩
    obtain ⟨_, ended', after', -, ⟨depth', hdepth'⟩, -, -⟩ := hmimics' depth ended after hon
    exact ⟨depth', _, hdepth' depth' (Nat.le_refl _)⟩
  · intro depth depth' ended ended' after after' hon hon'
    obtain ⟨_, other, _, -, ⟨deep, hdeep⟩, -, hended⟩ := hmimics depth ended after hon
    -- the second cannot end in two ways, however deep it may go
    have hbelow := (hbuild'.below_levels (Nat.le_max_left depth' deep)).run p' source place _ _ hon'
    rw [hdeep _ (Nat.le_max_right depth' deep), Option.some.injEq] at hbelow
    cases hbelow
    exact hended.imp fun _ _ hresult => hresult.eq not_false

/-- Pure classes make languages with pure builders. -/
theorem Store.Pure.create (h : store.Pure pairs) {language : InstanceId} {className : String}
    {arguments : Table Value} {added : Table (Owner → Maker)}
    (hclass : (Reference.className className, Reference.className className) ∈ pairs)
    (hadded : Store.RulesAlike .caching pairs added added)
    (hcreate : store.create className arguments added = .ok (language, after)) :
    after.Pure (after.pairLanguages pairs language language) := by
  obtain ⟨known, htied⟩ := h
  have hlater := Store.Later.create htied.tracked (htied.left _ hclass) (hadded.within htied.left)
    hcreate
  have hlanguage := Store.Honours.language_mem_withLanguage after known language
  have hhome := Store.Honours.home_mem_withLanguage after known language
  have hcreated := (Store.Created.of_create hcreate).2.1
  exact ⟨_, (htied.later hlater hlater).created hlanguage hhome hlanguage hhome hcreated hcreated
    hclass hadded⟩

/-- Where only classes are paired, there is nothing that could have been made. -/
theorem Store.Alike.pure (h : store.Alike .caching pairs store)
    (hclasses : ∀ pair ∈ pairs, ∃ name, pair = (.className name, .className name)) :
    store.Pure pairs := by
  have hleft : ∀ pair ∈ pairs, pair.1 ∈ Prod.fst '' pairs := fun _ => Set.mem_image_of_mem _
  -- classes are all that is paired
  have hname : ∀ reference ∈ Prod.fst '' pairs, ∃ name, reference = .className name ∧
      (Reference.className name, Reference.className name) ∈ pairs := by
    rintro reference ⟨pair, hpair, rfl⟩
    obtain ⟨name, rfl⟩ := hclasses pair hpair
    exact ⟨name, rfl, hpair⟩
  have htracked : store.Tracked (Prod.fst '' pairs) :=
    { cell := fun id hid => by
        obtain ⟨name, e, -⟩ := hname _ hid
        cases e
      home := fun language hl => by
        obtain ⟨name, e, -⟩ := hname _ hl
        cases e
      language := fun language hl => by
        obtain ⟨name, e, -⟩ := hname _ hl
        cases e
      className := fun name cls hname' hcls item hitem => by
        obtain ⟨name, e, hpair⟩ := hname _ hname'
        cases e
        exact (h.className name cls hpair hcls item hitem).within hleft
      shelved := fun name found hshelved => by
        obtain ⟨name, e, -⟩ := hname _ hshelved
        cases e }
  refine ⟨_, h, hleft, fun pair hpair => ?_, htracked, htracked⟩
  obtain ⟨name, rfl⟩ := hclasses pair hpair
  exact hleft _ hpair

/-- A rule that is made by pure builders ends alike whatever has been done with pure parsers since
its language was made: on the language itself, on another one that is made in the same way, and if
nothing is kept and builders are called anew each time. So it does when it is run again. -/
theorem Store.Pure.agree_rule {base fresh store : Store} {pairs : Pairing} {className : String}
    {arguments : Table Value} {added : Table (Owner → Maker)} {language : InstanceId}
    {rule : String} {cell : CellId}
    (hcreate : base.create className arguments added = .ok (language, fresh))
    (hfresh : fresh.Pure pairs)
    (hlanguage : (Reference.language language, Reference.language language) ∈ pairs)
    (hrule : fresh.getRule language rule = .ok cell)
    (hstore : Relation.ReflTransGen Store.Uses fresh store) (source : Source) (place : Position) :
    let run := fun (cell : CellId) (depth : Nat) => (upTo depth).run (.lazy cell) source place
    let runAnew := fun depth => (anew depth).run (.lazy cell) source place
    store.getRule language rule = .ok cell ∧
      (∀ store', Relation.ReflTransGen Store.Uses fresh store' →
        Eval.Agree (run cell) store (run cell) store' ∧
          Eval.Agree (run cell) store runAnew store') ∧
      (∀ depth ended after, (run cell depth).on store = some (ended, after) →
        ∃ depth' ended' after', (run cell depth').on after = some (ended', after') ∧
          Outcomes .caching Eq ended ended') ∧
      ∀ classes, base.Pure classes →
        (Reference.className className, Reference.className className) ∈ classes →
        Store.RulesAlike .caching classes added added →
        ∃ language' made cell', store.create className arguments added = .ok (language', made) ∧
          made.getRule language' rule = .ok cell' ∧
          Eval.Agree (run cell) store (run cell') made := by
  intro run runAnew
  obtain ⟨known, htied⟩ := hfresh
  obtain ⟨larger, hlater⟩ := Store.later_of_uses hstore htied.tracked
  have hcell : cell.Pairs pairs cell := (htied.alike.getRule hlanguage rule).of_ok hrule hrule
  have hagree : ∀ store', Relation.ReflTransGen Store.Uses fresh store' →
      Eval.Agree (run cell) store (run cell) store' ∧
        Eval.Agree (run cell) store runAnew store' := by
    intro store' hstore'
    obtain ⟨larger', hlater'⟩ := Store.later_of_uses hstore' htied.tracked
    have hpairs := htied.later hlater hlater'
    have hkept := hpairs.agree (.lazy hcell) builds_assemble builds_assemble source place
    have hanew := hpairs.agree (.lazy hcell) builds_assemble builds_callAnew source place
    rw [levels_assemble] at hkept hanew
    exact ⟨hkept, hanew⟩
  refine ⟨?_, hagree, ?_, ?_⟩
  · have hthere := (htied.tracked.language language (htied.left _ hlanguage)).1
    rw [hlater.grows.getRule hthere, hrule]
  · intro depth ended after hon
    have huses : Store.Uses store after :=
      .of_run ⟨pairs, ⟨larger, htied.later hlater hlater⟩, .lazy hcell⟩ hon
    obtain ⟨⟨hends, hsame⟩, -⟩ := hagree after (hstore.tail huses)
    obtain ⟨depth', ⟨ended', after'⟩, hon'⟩ := hends.mp ⟨depth, _, hon⟩
    exact ⟨depth', ended', after', hon', hsame _ _ _ _ _ _ hon hon'⟩
  · rintro classes ⟨knownClasses, hclasses⟩ hclass hadded
    have hbase := Store.Later.create hclasses.tracked (hclasses.left _ hclass)
      (hadded.within hclasses.left) hcreate
    obtain ⟨_, hfresh⟩ := Store.later_of_uses hstore hbase.tracked
    have hstores := hclasses.later_right (hbase.trans hfresh)
    cases hmade : store.create className arguments added with
    | error cause =>
      have hfails := Store.create_eq_error hstores.alike.classes.symm
        hstores.alike.classNames.symm rfl hmade
      rw [hcreate] at hfails
      cases hfails
    | ok result =>
      obtain ⟨language', made⟩ := result
      obtain ⟨_, _, -, -, hlanguages⟩ := hstores.create hclass hadded hcreate hmade
      obtain ⟨_, hlater'⟩ := Store.later_of_uses hstore hlanguages.tracked
      obtain ⟨cell', hrule', hcell'⟩ :=
        (hlanguages.alike.getRule Store.language_mem_pairLanguages rule).exists_ok hrule
      have hagree' := (hlanguages.later hlater' (.refl hlanguages.tracked')).agree (.lazy hcell')
        builds_assemble builds_assemble source place
      rw [levels_assemble] at hagree'
      exact ⟨language', made, cell', rfl, hrule', hagree'⟩

/-! ## A language with two rules -/

/-- One letter, and then what another rule matches, if it matches at all. -/
def turnMaker (letter other : String) (owner : Owner) : Maker :=
  .mk (.rule owner.language other fun cell =>
    .done (.parser (.seq [.text letter, (Parser.lazy cell).opt .nothing])))

/-- Two letters that take turns. -/
def turnRules : Table (Owner → Maker) := [("a", turnMaker "a" "b"), ("b", turnMaker "b" "a")]

/-- A store with a language of these rules, none of which has been run. -/
def turnStore : Store :=
  { Store.initial false with
    instances := #[⟨0, [], some [("a", ⟨0, 0⟩), ("b", ⟨0, 1⟩)],
      #[.unbuilt "a" (turnMaker "a" "b" ⟨0, []⟩), .unbuilt "b" (turnMaker "b" "a" ⟨0, []⟩)]⟩] }

/-- What is paired in this store: everything with itself. -/
def turnPairs : Pairing :=
  turnStore.pairLanguages {(.className Store.baseName, .className Store.baseName)} 0 0

/-- The rules do the same each time. -/
theorem turnRules_alike (pairs : Pairing) :
    Store.RulesAlike .caching pairs turnRules turnRules := by
  have hturn : ∀ letter other, RuleBody.Alike .caching pairs
      (fun owner => (turnMaker letter other owner).action)
      fun owner => (turnMaker letter other owner).action := by
    intro letter other larger owner owner' _ howner
    refine ⟨.rule howner.language fun larger' cell cell' _ hcell => ?_, fun _ =>
      ⟨fun _ => trivial, fun _ => trivial⟩⟩
    exact .parser (.seqCons (.text letter) (.seqCons (.or (.lazy hcell) (.ok .nothing)) .seqNil))
  exact .cons ⟨rfl, hturn "a" "b"⟩ (.cons ⟨rfl, hturn "b" "a"⟩ .nil)

/-- At the beginning there is one class, and it has no rules. -/
theorem Store.pure_initial (logging : Bool) :
    (Store.initial logging).Pure {(.className Store.baseName, .className Store.baseName)} :=
  (Store.DefinedAlike.initial .caching logging logging).alike.pure fun _ hpair => ⟨_, hpair⟩

/-- The rules that take turns, run when they have been made and when they have not, on another
language, and when nothing is kept: all ways they match the same. -/
theorem Store.Pure.agree_rule_turns :
    let run := fun (cell : CellId) (depth : Nat) => (upTo depth).run (.lazy cell) ['b', 'a'] .start
    let runAnew := fun depth => (anew depth).run (.lazy ⟨0, 1⟩) ['b', 'a'] .start
    let found := Result.matched ⟨2, 1, 3⟩ (.tuple [.str "b", .tuple [.str "a", .nothing]])
    (Store.initial false).create Store.baseName [] turnRules = .ok (0, turnStore) ∧
      turnStore.Pure turnPairs ∧ (.language 0, .language 0) ∈ turnPairs ∧
      turnStore.getRule 0 "b" = .ok ⟨0, 1⟩ ∧
      (∃ after, (run ⟨0, 1⟩ 12).on turnStore = some (.ok found, after)) ∧
      (∃ after, (runAnew 12).on turnStore = some (.ok found, after)) ∧
      ∃ store, ((upTo 12).run (.lazy ⟨0, 0⟩) ['a'] .start).on turnStore
          = some (.ok (.matched ⟨1, 1, 2⟩ (.tuple [.str "a", .nothing])), store) ∧
        (turnStore.cellAt ⟨0, 1⟩).state = .unbuilt ∧ (store.cellAt ⟨0, 1⟩).state = .ready ∧
        Relation.ReflTransGen Store.Uses turnStore store ∧
        Eval.Agree (run ⟨0, 1⟩) store (run ⟨0, 1⟩) turnStore ∧
        Eval.Agree (run ⟨0, 1⟩) store runAnew turnStore ∧
        ∃ language' made cell', store.create Store.baseName [] turnRules = .ok (language', made) ∧
          made.getRule language' "b" = .ok cell' ∧
          Eval.Agree (run ⟨0, 1⟩) store (run cell') made := by
  intro run runAnew found
  have hbase := Store.pure_initial false
  have hclass : (Reference.className Store.baseName, Reference.className Store.baseName)
      ∈ ({(.className Store.baseName, .className Store.baseName)} : Pairing) := rfl
  have hcreate : (Store.initial false).create Store.baseName [] turnRules = .ok (0, turnStore) :=
    rfl
  have hpure : turnStore.Pure turnPairs := hbase.create hclass (turnRules_alike _) hcreate
  have hlanguage : (Reference.language 0, Reference.language 0) ∈ turnPairs :=
    Store.language_mem_pairLanguages
  have hcell : CellId.Pairs turnPairs ⟨0, 0⟩ ⟨0, 0⟩ := .inr (.inr (.inr ⟨0, Nat.two_pos, rfl⟩))
  have hrule : turnStore.getRule 0 "b" = .ok ⟨0, 1⟩ := rfl
  obtain ⟨store, hrun, hstate⟩ : ∃ store, ((upTo 12).run (.lazy ⟨0, 0⟩) ['a'] .start).on turnStore
      = some (.ok (.matched ⟨1, 1, 2⟩ (.tuple [.str "a", .nothing])), store) ∧
      (store.cellAt ⟨0, 1⟩).state = .ready := ⟨_, rfl, rfl⟩
  have huses :=
    Relation.ReflTransGen.single (Store.Uses.of_run ⟨turnPairs, hpure, .lazy hcell⟩ hrun)
  obtain ⟨-, hagree, -, hnew⟩ :=
    Store.Pure.agree_rule hcreate hpure hlanguage hrule huses ['b', 'a'] .start
  obtain ⟨hkept, hanew⟩ := hagree turnStore .refl
  exact ⟨hcreate, hpure, hlanguage, hrule, ⟨_, rfl⟩, ⟨_, rfl⟩, store, hrun, rfl, hstate, huses,
    hkept, hanew, hnew _ hbase hclass (turnRules_alike _)⟩

/-! ## What can be told apart all the same -/

/-- A rule of a language was run. -/
def Store.RunsRule (language : InstanceId) (store after : Store) : Prop :=
  ∃ (rule : String) (cell : CellId) (source : Source) (place : Position) (depth : Nat)
    (ended : Except Raised Result), store.getRule language rule = .ok cell ∧
      ((upTo depth).run (.lazy cell) source place).on store = some (ended, after)

/-- Rules whose builders make the same parser each time end, whatever rules have been run before,
like those of a language that is fresh. -/
def EndsAsFresh (same : Except Raised Result → Except Raised Result → Prop) : Prop :=
  ∀ (added : Table (Owner → Maker)) (language : InstanceId) (fresh store : Store) (rule : String)
    (cell : CellId) (source : Source) (place : Position),
    (∀ entry ∈ added, ∃ p : Owner → Parser, ∀ owner,
      (entry.2 owner).action = .done (.parser (p owner))) →
    (Store.initial false).create Store.baseName [] added = .ok (language, fresh) →
    Relation.ReflTransGen (Store.RunsRule language) fresh store →
    fresh.getRule language rule = .ok cell → ∀ depth ended ended' after after',
    ((upTo depth).run (.lazy cell) source place).on fresh = some (ended, after) →
    ((upTo depth).run (.lazy cell) source place).on store = some (ended', after') →
    same ended ended'

/-- The rules of a language: a given parser, and a text beside it. -/
def besideText (p : Owner → Parser) : Table (Owner → Maker) :=
  [("a", fun owner => .mk (.done (.parser (p owner)))),
    ("b", fun _ => .mk (.done (.parser (.text "x"))))]

/-- A store with a language of these rules, where the text may have been run. -/
def besideStore (p : Owner → Parser) (state : RuleState) (made : Option Parser) : Store :=
  { Store.initial false with
    instances := #[⟨0, [], some [("a", ⟨0, 0⟩), ("b", ⟨0, 1⟩)],
      #[.unbuilt "a" (.mk (.done (.parser (p ⟨0, []⟩)))),
        ⟨"b", state, .mk (.done (.parser (.text "x"))), made⟩]⟩] }

/-- If rules end like fresh ones, the given parser does so when the text has been run. -/
theorem EndsAsFresh.beside {same : Except Raised Result → Except Raised Result → Prop}
    (h : EndsAsFresh same) (p : Owner → Parser) {ended ended' : Except Raised Result}
    {after after' : Store}
    (hfresh : ((upTo 6).run (.lazy ⟨0, 0⟩) ['x'] .start).on (besideStore p .unbuilt none)
      = some (ended, after))
    (hlater : ((upTo 6).run (.lazy ⟨0, 0⟩) ['x'] .start).on
      (besideStore p .ready (some (.text "x"))) = some (ended', after')) : same ended ended' := by
  have hrun : Store.RunsRule 0 (besideStore p .unbuilt none)
      (besideStore p .ready (some (.text "x"))) := ⟨"b", ⟨0, 1⟩, ['x'], .start, 6, _, rfl, rfl⟩
  refine h (besideText p) 0 _ _ "a" ⟨0, 0⟩ ['x'] .start ?_ rfl (.single hrun) rfl 6 _ _ _ _ hfresh
    hlater
  intro entry hentry
  rcases List.mem_pair.mp hentry with rfl | rfl
  · exact ⟨p, fun _ => rfl⟩
  · exact ⟨fun _ => .text "x", fun _ => rfl⟩

/-- A chain function that makes the table of rules and no parser. -/
def makesTable (owner : Owner) : Parser :=
  .chain (.text "x") fun _ => .lookUp owner.language "_rules" fun found => .done (found.map .lazy)

/-- A map function that asks for the stage of the other rule. -/
def asksStage (owner : Owner) : Parser :=
  .map (.text "x") fun _ => .rule owner.language "b" fun cell =>
    .inspect cell fun state _ => .done (.str state.name)

/-- Errors that show a table of rules tell what has been run before, and so do functions that ask
for stages. -/
theorem not_endsAsFresh :
    ¬ EndsAsFresh (fun ended ended' => ended' = ended) ∧
      ¬ EndsAsFresh fun ended ended' => ∀ result, ended = .ok result → ended' = .ok result := by
  refine ⟨fun h => ?_, fun h => ?_⟩
  · have hsame := h.beside makesTable rfl rfl
    have hshown := Raised.chainedNonParser.inj (Except.error.inj hsame)
    revert hshown
    decide
  · have hsame := h.beside asksStage rfl rfl _ rfl
    have hstage := (Result.matched.inj (Except.ok.inj hsame)).2
    revert hstage
    decide

end Descent
