import Descent.Proofs.Flattened

/-! # Sessions with class hierarchies as mappings

The language that is made from all rules of a class as one mapping, and from those of another mapping
besides, behaves as the language of the class does: whatever is done with its rules has the same
outcomes and leaves the rules in the same stages. Only an error may name the other class.

* **`Session.PlaysAlike`** — steps on a language have the same outcomes in two stores.
* **`Store.create_flattens`** — main statement: when a language of a class is made, which rules it
  has, and that the language of the mapping behaves the same.
* **`Store.not_forall_playsAlike`** — it does not if a rule goes by the name of another one. -/

namespace Descent

/-- Whatever a language is called, steps on it that ask it for no more than they may have the same
outcomes in two stores, whether they end or not. -/
def Session.PlaysAlike (language : InstanceId) (asked : String → Prop) (store store' : Store) : Prop :=
  ∀ (session : Session) (named : String) (steps : List Step) (depth : Nat),
    session.languages.get? named = some language → (∀ step ∈ steps, step.Reaches named asked) →
      Option.Rel (List.Forall₂ Outcome.Near) (play (Engine.upTo depth) session store steps)
        (play (Engine.upTo depth) session store' steps)

/-- A language of a class whose rules are not hidden by something that is no rule is not made if and
only if a name of the mapping is an attribute of the class already, and nothing else comes of that.
Otherwise it has the rules of the class in the order of their first appearance, each as the most
derived class has it, and then those of the mapping. If the class leaves attributes that are rules to
these, no rule goes by the name of another one, and all scripts ask the language for no more than
they may, the language behaves as the one does that is made from all the rules as a mapping. No rule
goes by the name of another one if no definition was ever given a second name. -/
theorem Store.create_flattens {store : Store} (h : store.Reached) {className : String} {cls : ClassId}
    (hcls : store.classNamed className = .ok cls)
    (hinitialises : (store.classAt cls).initialises = true)
    (hvisible : ∀ name ∈ store.rulesOn (store.classAt cls).lineage,
      ∃ definition, store.findAttribute (store.classAt cls).lineage name = some (.rule definition))
    (arguments : Table Value) {mapping : Table (Owner → Maker)} (hmapping : mapping.names.Nodup) :
    ((∃ cause, store.create className arguments mapping = .error cause) ↔
      ∃ name ∈ mapping.names, store.hasAttribute (store.classAt cls).lineage name = true) ∧
    (∀ cause, store.create className arguments mapping = .error cause →
      (∃ name ∈ mapping.names, store.hasAttribute (store.classAt cls).lineage name = true ∧
        cause = .nameTaken name (store.classAt cls).name) ∧
      (Eval.attempt (·.create className arguments mapping)).on store
        = some (.error cause, store)) ∧
    ∀ language made, store.create className arguments mapping = .ok (language, made) →
      (∃ rules,
        store.Assembled (store.classAt cls).lineage arguments mapping language rules made) ∧
      (store.classNamed baseName = .ok base →
        store.Plain (store.classAt cls).lineage mapping →
        store.Titling (store.classAt cls).lineage mapping ∨ store.ReachedBy Deed.Straight →
        made.Discreet (.asking language (store.Asked (store.classAt cls).lineage mapping)) →
        ∃ flat, store.create baseName [] (store.flattened (store.classAt cls).lineage arguments
            mapping) = .ok (language, flat) ∧
          Session.PlaysAlike language (store.Asked (store.classAt cls).lineage mapping) made
            flat) := by
  refine ⟨⟨?_, ?_⟩, fun cause hcause => ⟨taken_of_create hcls hinitialises hcause, ?_⟩,
    fun language made hmade => ?_⟩
  · rintro ⟨cause, hcause⟩
    obtain ⟨name, hname, hhas, -⟩ := taken_of_create hcls hinitialises hcause
    exact ⟨name, hname, hhas⟩
  · rintro ⟨name, hname, hhas⟩
    obtain ⟨other, -, -, herror⟩ := create_of_taken hcls hinitialises arguments hname hhas
    exact ⟨_, herror⟩
  · simp only [Eval.attempt, hcause]
  · have hfree := free_of_create hcls hinitialises hmade
    rw [create_of_free hcls hinitialises arguments hfree, Except.ok.injEq, Prod.mk.injEq] at hmade
    obtain ⟨rfl, rfl⟩ := hmade
    refine ⟨⟨_, assembled_enlarged (tidy_of_reached h) hmapping hvisible hfree⟩,
      fun hbase hplain htitles hdiscreet => ?_⟩
    have htitling : store.Titling (store.classAt cls).lineage mapping :=
      htitles.elim (fun htitling => htitling) fun hstraight => titling_of_straight hstraight
    have hfounded := founded_of_reached h
    refine ⟨_, create_flattened hfounded hbase fun name hname => (hplain.named name hname).2.2,
      fun session named steps depth hnamed hsteps => ?_⟩
    refine Session.rebasable_play ?_ hnamed
      (rebasable_enlarged hplain htitling hvisible hfree hfounded hdiscreet) depth
    rwa [Permit.asking_self]

/-! ## A derived class and a mapping -/

/-- The body of a rule that is another rule of its language. -/
def referringBody (name : String) : RuleBody := fun owner =>
  .lookUp owner.language name fun found => .done (found.map .lazy)

/-- A class with two rules, of which one is the other one, and a class that has something else in the
place of that other one. -/
def layeredDeeds : List Deed :=
  [.defineClass "A" [Store.baseName] true
      [⟨"word", false, .rule "word" none fun _ => .done (.parser (.text "x"))⟩,
        ⟨"main", false, .rule "main" none (referringBody "word")⟩],
    .defineClass "B" ["A"] true
      [⟨"word", false, .rule "word" none fun _ => .done (.parser (.text "y"))⟩]]

/-- A mapping whose one rule is a rule of the class. -/
def layeredMapping : Table (Owner → Maker) := [("again", fun owner => .mk (referringBody "main" owner))]

/-- The store with these classes. -/
def layeredStore : Store := ((Store.initial false).afterDeeds 0 layeredDeeds).getD (.initial false)

namespace Store

theorem rulesOn_layered : layeredStore.rulesOn [2, 1, 0] = ["word", "main"] := by decide

/-- A language of the derived class is asked for nothing but its rules. -/
theorem discreet_layered {made : Store}
    (hmade : layeredStore.create "B" [] layeredMapping = .ok (0, made)) :
    made.Discreet (.asking 0 (layeredStore.Asked [2, 1, 0] layeredMapping)) := by
  have hasked : ∀ name ∈ ["word", "main"], ∀ language, Permit.asking 0
      (layeredStore.Asked [2, 1, 0] layeredMapping) language name := fun name hname _ _ =>
    .inl (List.mem_append_left _ (rulesOn_layered ▸ hname))
  have hfound : ∀ found : Object CellId, Action.Discreet
      (.asking 0 (layeredStore.Asked [2, 1, 0] layeredMapping))
      (.done (.object (found.map .lazy))) := by
    intro found
    cases found with
    | parser cell => exact .parser (.lazy cell)
    | value | table | other => exact .nonParser nofun
  refine .of_create hmade nofun (fun number => ?_) (fun definition owner _ => ?_)
    fun entry hentry => ?_
  · exact .eof
  · match definition with
    | 0 => exact .parser (.text "x")
    | 1 =>
      refine .lookUp (hasked "word" (by decide) _) fun found => ?_
      have hlazy := hfound found
      cases found <;> exact hlazy
    | 2 => exact .parser (.text "y")
    | n + 3 => exact .nonParser nofun
  · obtain rfl := List.mem_singleton.mp hentry
    exact .lookUp (hasked "main" (by decide) _) hfound

/-- A language of the derived class has three rules, the first of which is that of the derived class.
It behaves as the one that is made from these rules as a mapping. -/
theorem create_flattens_layered :
    ∃ made flat : Store, layeredStore.ReachedBy Deed.Straight ∧
      layeredStore.create "B" [] layeredMapping = .ok (0, made) ∧
      made.ruleNames 0 = .ok ["word", "main", "again"] ∧
      layeredStore.create baseName [] (layeredStore.flattened [2, 1, 0] [] layeredMapping)
        = .ok (0, flat) ∧
      Session.PlaysAlike 0 (layeredStore.Asked [2, 1, 0] layeredMapping) made flat ∧
      Session.play (Engine.upTo 8) ⟨[("l", 0)], ⟨0, []⟩, []⟩ made
        [.run (.rule "l" "again" true) ['y'] .start, .state "l" "main", .state "l" "again"]
          = some [⟨.ok (.result (.matched ⟨1, 1, 2⟩ (.str "y"))), [], []⟩,
            ⟨.ok (.state .ready), [], []⟩, ⟨.ok (.state .ready), [], []⟩] := by
  have hafter : (Store.initial false).afterDeeds 0 layeredDeeds = some layeredStore := rfl
  have hstraight : ∀ deed ∈ layeredDeeds, deed.Straight := by
    simp [layeredDeeds, Deed.Straight, Member.Straight]
  have hreached := (ReachedBy.initial false).afterDeeds hstraight hafter
  have hmade : layeredStore.create "B" [] layeredMapping
    = .ok (0, layeredStore.enlarged 2 [] layeredMapping) := rfl
  have hvisible : ∀ name ∈ layeredStore.rulesOn [2, 1, 0],
      ∃ definition, layeredStore.findAttribute [2, 1, 0] name = some (.rule definition) := by
    rw [rulesOn_layered]
    simp only [List.forall_mem_cons]
    exact ⟨⟨2, rfl⟩, ⟨1, rfl⟩, List.forall_mem_nil _⟩
  have hplain : layeredStore.Plain [2, 1, 0] layeredMapping := ⟨by decide +kernel, by decide⟩
  obtain ⟨-, -, hok⟩ := @create_flattens _ (hreached.mono fun _ _ => trivial) "B" 2 rfl rfl
    hvisible [] layeredMapping (by decide)
  obtain ⟨⟨rules, hassembled⟩, hflat⟩ := hok 0 _ hmade
  obtain ⟨flat, hcreate, halike⟩ := hflat rfl hplain (.inr hreached) (discreet_layered hmade)
  exact ⟨_, flat, hreached, hmade, hassembled.told rfl, hcreate, halike, rfl⟩

end Store

/-! ## Rules that go by the names of other rules -/

/-- No rule of a class is a rule of any class under another name. -/
def Store.BoundOnce (store : Store) : Prop :=
  ∀ cls ∈ store.classes, ∀ cls' ∈ store.classes, ∀ name name' definition,
    (name, .rule definition) ∈ cls.attributes → (name', .rule definition) ∈ cls'.attributes →
      name = name'

/-- A class with two rules, of which the second one is put on the class late and goes by the name of
the first one, since its function has that name. -/
def misnamedDeeds : List Deed :=
  [.defineClass "A" [Store.baseName] true
    [⟨"foo", false, .rule "foo" none fun _ => .done (.parser (.text "x"))⟩,
      ⟨"bar", true, .rule "foo" none fun _ => .done (.parser (.text "y"))⟩]]

/-- The store with this class. -/
def misnamedStore : Store :=
  ((Store.initial false).afterDeeds 0 misnamedDeeds).getD (.initial false)

namespace Store

theorem boundOnce_misnamed : misnamedStore.BoundOnce := by
  have hentries : ∀ cls ∈ misnamedStore.classes.toList, ∀ entry ∈ cls.attributes,
      (entry.1, entry.2.definition?) ∈ [("foo", some 0), ("bar", some 1)] := by decide
  intro cls hcls cls' hcls' name name' definition hname hname'
  have hfirst := hentries cls (Array.mem_def.mp hcls) _ hname
  have hsecond := hentries cls' (Array.mem_def.mp hcls') _ hname'
  simp only [Attribute.definition?, List.mem_cons, Prod.mk.injEq, List.not_mem_nil] at hfirst hsecond
  grind

theorem rulesOn_misnamed : misnamedStore.rulesOn [1, 0] = ["foo", "bar"] := by decide

/-- A language of a class does not always behave as the one made from its rules as a mapping, even if
no definition is a rule under two names: where the second rule goes by the name of the first one, the
attribute of the language of the class is the first rule, and that of the other one is the second. -/
theorem not_forall_playsAlike :
    ¬ ∀ (store : Store) (className : String) (cls : ClassId) (mapping : Table (Owner → Maker))
        (language : InstanceId) (made flat : Store), store.Reached → store.BoundOnce →
      store.classNamed className = .ok cls → (store.classAt cls).initialises = true →
      (∀ name ∈ store.rulesOn (store.classAt cls).lineage, ∃ definition,
        store.findAttribute (store.classAt cls).lineage name = some (.rule definition)) →
      mapping.names.Nodup → store.Plain (store.classAt cls).lineage mapping →
      store.create className [] mapping = .ok (language, made) →
      made.Discreet (.asking language (store.Asked (store.classAt cls).lineage mapping)) →
      store.create baseName [] (store.flattened (store.classAt cls).lineage [] mapping)
        = .ok (language, flat) →
        Session.PlaysAlike language (store.Asked (store.classAt cls).lineage mapping) made flat := by
  intro h
  have hafter : (Store.initial false).afterDeeds 0 misnamedDeeds = some misnamedStore := rfl
  have hreached := (ReachedBy.initial false).afterDeeds (fun _ _ => trivial) hafter
  have hvisible : ∀ name ∈ misnamedStore.rulesOn [1, 0],
      ∃ definition, misnamedStore.findAttribute [1, 0] name = some (.rule definition) := by
    rw [rulesOn_misnamed]
    simp only [List.forall_mem_cons]
    exact ⟨⟨0, rfl⟩, ⟨1, rfl⟩, List.forall_mem_nil _⟩
  have hmade : misnamedStore.create "A" [] [] = .ok (0, misnamedStore.enlarged 1 [] []) := rfl
  have hdiscreet : (misnamedStore.enlarged 1 [] []).Discreet
      (.asking 0 (misnamedStore.Asked [1, 0] [])) := by
    refine .of_create hmade nofun (fun _ => .eof) (fun definition owner _ => ?_) nofun
    match definition with
    | 0 => exact .parser (.text "x")
    | 1 => exact .parser (.text "y")
    | n + 2 => exact .nonParser nofun
  have hflat : misnamedStore.create baseName [] (misnamedStore.flattened [1, 0] [] [])
    = .ok (0, misnamedStore.enlarged base [] (misnamedStore.flattened [1, 0] [] [])) := rfl
  have hasked : misnamedStore.Asked [1, 0] [] "bar" := by
    refine .inl (List.mem_append_left _ ?_)
    rw [rulesOn_misnamed]
    decide
  have halike := h misnamedStore "A" 1 [] 0 _ _ hreached boundOnce_misnamed rfl rfl hvisible
    List.nodup_nil ⟨by decide +kernel, by decide⟩ hmade hdiscreet hflat
    ⟨[("l", 0)], ⟨0, []⟩, []⟩ "l" [.run (.rule "l" "bar" false) ['y'] .start] 8 rfl
    (fun step hstep => by
      obtain rfl := List.mem_singleton.mp hstep
      exact ⟨rfl, .inr hasked⟩)
  have hresults := Session.results_eq halike
  exact absurd hresults (by decide +kernel)

end Store

end Descent
