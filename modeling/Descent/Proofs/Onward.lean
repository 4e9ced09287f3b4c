import Descent.Proofs.Film.Erases
import Descent.Proofs.Store.Created
import Descent.Proofs.Store.Opens

/-! # Later stores of a session

Whatever is done in a session, classes that are there stay as they are, languages keep their rules,
and lazy parsers are made as before. This is true from every moment of a session to every later one,
also in the midst of a run, and also if the run never ends.

* **`Store.Onward`** — the relation between a store of a session and a later one.
* **`Film.Advances`** — a film in which each store is a later one than those before.
* **`Film.pairwise_ofSession`** — main statement: the films of sessions are such films. -/

namespace Descent

namespace Store

/-- In a later store, whatever was there is there still. Lazy parsers may be in other stages. -/
structure Onward (store after : Store) : Prop where
  /-- The classes are as they were. -/
  class? : ∀ (cls : ClassId) (made : Class), store.classes[cls]? = some made →
    after.classes[cls]? = some made
  /-- No language has gone. -/
  size_le : store.instances.size ≤ after.instances.size
  /-- Each language has the class that it had. -/
  cls : ∀ language < store.instances.size,
    (after.instanceAt language).cls = (store.instanceAt language).cls
  /-- Each language has the rules that it had. -/
  rules : ∀ language < store.instances.size,
    (after.instanceAt language).rules = (store.instanceAt language).rules
  /-- Each lazy parser is made as it was. -/
  cell : ∀ id cell, store.cell? id = some cell →
    ∃ later, after.cell? id = some later ∧ cell.Still later

namespace Onward

variable {store middle after : Store}

/-- A store that has grown is a later one. -/
theorem of_grows (h : Grows Cell.Still store after) : store.Onward after where
  class? cls made hmade := by rwa [h.classes]
  size_le := h.size_le
  cls := h.cls
  rules := h.rules
  cell := h.cell

/-- A store to which something was added is a later one. -/
theorem of_adds (h : Adds store after) : store.Onward after :=
  of_grows (.of_adds (fun cell => .refl cell) h)

theorem refl (store : Store) : store.Onward store := of_adds (.refl (fun _ => rfl) store)

/-- What comes after a later store is later still. -/
theorem trans (h : store.Onward middle) (h' : middle.Onward after) : store.Onward after where
  class? cls made hmade := h'.class? cls made (h.class? cls made hmade)
  size_le := Nat.le_trans h.size_le h'.size_le
  cls language hl := (h'.cls language (Nat.lt_of_lt_of_le hl h.size_le)).trans (h.cls language hl)
  rules language hl :=
    (h'.rules language (Nat.lt_of_lt_of_le hl h.size_le)).trans (h.rules language hl)
  cell id cell hcell := by
    obtain ⟨between, hbetween, hstill⟩ := h.cell id cell hcell
    obtain ⟨later, hlater, hstill'⟩ := h'.cell id between hbetween
    exact ⟨later, hlater, hstill.trans hstill'⟩

/-- Where the languages are the same, it is enough to look at the classes. -/
theorem of_instances_eq (hinstances : after.instances = store.instances)
    (hclass : ∀ (cls : ClassId) (made : Class), store.classes[cls]? = some made →
      after.classes[cls]? = some made) :
    store.Onward after := by
  have hat : ∀ language, after.instanceAt language = store.instanceAt language := by
    intro language
    unfold instanceAt
    rw [hinstances]
  refine ⟨hclass, Nat.le_of_eq (congrArg Array.size hinstances.symm), ?_, ?_, ?_⟩
  · intro language _
    rw [hat]
  · intro language _
    rw [hat]
  · intro id cell hcell
    refine ⟨cell, ?_, .refl cell⟩
    rw [cell?_eq_of_instances_eq hinstances]
    exact hcell

end Onward

variable {store after : Store}

/-! ## What leads to later stores -/

/-- What an engine does by itself leads to a later store. -/
theorem onward_of_basic {α : Type} {computation : Eval α} (h : computation.Basic)
    {ended : Except Raised α} (hon : computation.on store = some (ended, after)) :
    store.Onward after := .of_adds (h.opens hon).adds

/-- A lazy parser that is made in the same way may change. -/
theorem onward_modifyCell (store : Store) (id : CellId) (change : Cell → Cell)
    (hchange : ∀ cell : Cell, cell.Still (change cell)) :
    store.Onward (store.modifyCell id change) :=
  .of_grows (grows_modifyCell store id change (fun cell => .refl cell) hchange)

theorem onward_shelve (store : Store) (name : String) (object : Object Parser) :
    store.Onward (store.shelve name object) := by
  obtain ⟨kept, shelf, heq⟩ := store.exists_shelve_eq name object
  rw [heq]
  exact .of_instances_eq rfl fun _ _ hmade => hmade

/-- An attribute more of a class that is being made changes none that is there. -/
theorem classes_addMember {bases : List ClassId} {made made' : Store × Table Attribute}
    {member : Member} (h : addMember bases made member = .ok made') :
    made'.1.classes = made.1.classes := by
  obtain ⟨name, late, content⟩ := member
  unfold addMember at h
  cases content with
  | rule functionName errorName body =>
    cases h
    rfl
  | value value =>
    cases h
    rfl
  | «alias» other =>
    simp only at h
    split at h
    · cases h
      rfl
    · cases h

/-- A class definition adds a class at the end. -/
theorem exists_classes_defineClass {name : String} {bases : List String} {initialises : Bool}
    {members : List Member} (h : store.defineClass name bases initialises members = .ok after) :
    ∃ made, after.classes = store.classes.push made := by
  obtain ⟨inherited, ancestors, early, late, made, own, finished, own', -, hearly, hlate, rfl⟩ :=
    defineClass_eq_ok h
  have hmade : made.classes = store.classes :=
    inv_addMembers (fun made => made.1.classes = store.classes)
      (fun _ _ _ _ hbefore hone => (classes_addMember hone).trans hbefore) rfl hearly
  have hfinished : finished.classes = store.classes :=
    inv_addMembers (fun made => made.1.classes = store.classes)
      (fun _ _ _ _ hbefore hone => (classes_addMember hone).trans hbefore)
      ((classes_nameRules made own).trans hmade) hlate
  exact ⟨_, congrArg (Array.push · _) hfinished⟩

theorem onward_defineClass {name : String} {bases : List String} {initialises : Bool}
    {members : List Member} (h : store.defineClass name bases initialises members = .ok after) :
    store.Onward after := by
  obtain ⟨made, hclasses⟩ := exists_classes_defineClass h
  refine .of_instances_eq (instances_defineClass h) fun cls found hfound => ?_
  have hlt : cls < store.classes.size := (Array.getElem?_eq_some_iff.mp hfound).1
  rw [hclasses, Array.getElem?_push_lt hlt, ← hfound, Array.getElem?_eq_getElem hlt]

/-- So does what becomes of a lazy parser when its script has ended. -/
theorem onward_settle (cell : CellId) (name : String) (ended : Except Raised (Object Parser))
    (store : Store) : store.Onward (Engine.settle cell name (ended, store)).2 := by
  by_cases hparser : ∃ p, ended = .ok (.parser p)
  · obtain ⟨p, rfl⟩ := hparser
    have hset := onward_modifyCell store cell
      (fun old => { old with state := .ready, parser := some p }) fun _ => ⟨rfl, rfl⟩
    exact hset.trans (.of_adds (adds_log _ (.ready name)))
  · obtain ⟨cause, hsettle⟩ := Engine.settle_of_ne cell name (not_exists.mp hparser) store
    rw [hsettle]
    exact onward_modifyCell store cell _ fun _ => ⟨rfl, rfl⟩

end Store

/-! ## Films -/

namespace Film

variable {α β : Type}

/-- In what is done from a store on, each store is a later one than those before. -/
structure Advancing (store : Store) (done : Option (Except Raised α × Store) × List Scene) :
    Prop where
  /-- All of it comes after the store. -/
  scene : ∀ scene ∈ done.2, store.Onward scene.store
  /-- Each scene comes after those before. -/
  order : done.2.Pairwise fun first second => first.store.Onward second.store
  /-- The end, if there is one, comes after all of it. -/
  ended : ∀ ended after, done.1 = some (ended, after) →
    store.Onward after ∧ ∀ scene ∈ done.2, scene.store.Onward after

/-- A film in which each store is a later one than those before. -/
def Advances (film : Film α) : Prop := ∀ store, Advancing store (film.on store)

namespace Advancing

variable {store middle after : Store} {scenes : List Scene}

/-- Where nothing happens, nothing ends. -/
theorem nothing (store : Store) : Advancing (α := α) store (none, []) := ⟨nofun, .nil, nofun⟩

theorem still (ended : Except Raised α) (store : Store) :
    Advancing store (some (ended, store), []) :=
  ⟨nofun, .nil, fun _ _ heq => by cases heq; exact ⟨.refl store, nofun⟩⟩

/-- One thing that leads to a later store. -/
theorem single (h : store.Onward after) (ended : Except Raised α) (happening : Happening) :
    Advancing store (some (ended, after), [⟨happening, after⟩]) where
  scene scene hscene := by
    cases List.mem_singleton.mp hscene
    exact h
  order := List.pairwise_singleton ..
  ended _ _ heq := by
    cases heq
    refine ⟨h, fun scene hscene => ?_⟩
    cases List.mem_singleton.mp hscene
    exact .refl after

/-- One thing after another. -/
theorem append {ended : Except Raised α} (h : Advancing store (some (ended, middle), scenes))
    {done : Option (Except Raised β × Store) × List Scene} (h' : Advancing middle done) :
    Advancing store (done.1, scenes ++ done.2) := by
  obtain ⟨hmiddle, hearlier⟩ := h.ended ended middle rfl
  refine ⟨fun scene hscene => ?_, ?_, fun ended after hended => ?_⟩
  · rcases List.mem_append.mp hscene with hfirst | hsecond
    · exact h.scene scene hfirst
    · exact hmiddle.trans (h'.scene scene hsecond)
  · refine List.pairwise_append.mpr ⟨h.order, h'.order, fun first hfirst second hsecond => ?_⟩
    exact (hearlier first hfirst).trans (h'.scene second hsecond)
  · obtain ⟨hafter, hlater⟩ := h'.ended ended after hended
    refine ⟨hmiddle.trans hafter, fun scene hscene => ?_⟩
    rcases List.mem_append.mp hscene with hfirst | hsecond
    · exact (hearlier scene hfirst).trans hafter
    · exact hlater scene hsecond

/-- What does not end may as well be something else that does not end. -/
theorem cut {done : Option (Except Raised α × Store) × List Scene} (h : Advancing store done) :
    Advancing (α := β) store (none, done.2) := ⟨h.scene, h.order, nofun⟩

end Advancing

/-- A computation that leads to a later store is filmed in one scene. -/
theorem Advances.quiet {computation : Eval α}
    (h : ∀ store ended after, computation.on store = some (ended, after) → store.Onward after) :
    (liftM computation : Film α).Advances := by
  intro store
  rw [quiet_on]
  cases hon : computation.on store with
  | none => exact .nothing store
  | some outcome => exact .single (h store _ _ hon) _ .quiet

/-- Putting computations together keeps this up. -/
theorem compatible_advances : Engine.Compatible fun α (film _ : Film α) => film.Advances where
  pure result store := .still (.ok result) store
  basic h := .quiet fun _ _ _ hon => Store.onward_of_basic h hon
  bind {α β first first' next next'} h hnext := by
    intro store
    have hfirst := h store
    rw [bind_on]
    generalize first.on store = done at hfirst ⊢
    rcases done with ⟨_ | ⟨cause | result, middle⟩, scenes⟩
    · exact hfirst.cut
    · -- an error ends the whole, and adds no scene
      have hwhole := hfirst.append (.still (.error cause : Except Raised β) middle)
      rw [List.append_nil] at hwhole
      exact hwhole
    · exact hfirst.append (hnext result middle)

/-- The scene of the end of a run shows the store once more. -/
theorem Advances.asRun {computation : Film Result} (h : computation.Advances) (parser : Parser)
    (source : Source) (start : Position) :
    (asRun parser source start computation).Advances := by
  intro store
  exact asRun_of (h store) fun result after scenes hdone =>
    hdone.append (.single (.refl after) (.ok result) (.ran parser source start result))

/-- Making a lazy parser leads to later stores if performing scripts does. -/
theorem advances_assemble {engine : Engine Film}
    (h : ∀ action : Action (Object Parser), (engine.perform action).Advances) (cell : CellId) :
    (assemble engine cell).Advances := by
  intro store
  cases hcell : store.cell? cell with
  | none =>
    rw [assemble_of_none hcell]
    exact .nothing store
  | some found =>
    obtain ⟨name, state, make, _ | parser⟩ := found
    · rw [assemble_of_unmade hcell]
      have hstarted : store.Onward ((store.log (.building name state)).setState cell .building) :=
        (Store.Onward.of_adds (Store.adds_log _ _)).trans
          (Store.onward_modifyCell _ cell _ fun _ => ⟨rfl, rfl⟩)
      have hcalled := Advancing.single hstarted (.ok ()) (.entry (.called cell))
      have hmade := h make.action ((store.log (.building name state)).setState cell .building)
      simp only
      generalize (engine.perform make.action).on _ = done at hmade ⊢
      rcases done with ⟨_ | ⟨ended, after⟩, scenes⟩
      · rw [endings, List.append_nil]
        exact hcalled.append hmade.cut
      · have hsettled := Store.onward_settle cell name ended after
        exact hcalled.append (hmade.append (.single hsettled _ _))
    · rw [assemble_of_made hcell]
      exact .single (.refl store) _ _

/-- The films of engines advance. -/
theorem related_advances (depth : Nat) :
    Engine.Related (fun _ (film _ : Film _) => film.Advances) (upTo depth) (upTo depth) := by
  induction depth with
  | zero => exact ⟨fun _ _ _ => .nothing, fun _ => .nothing⟩
  | succ depth ih =>
    exact ⟨fun parser source place =>
        (ih.step compatible_advances parser source place).asRun _ _ _,
      advances_assemble (ih.perform compatible_advances)⟩

/-- So do those of deeds. -/
theorem advances_apply (depth : Nat) (deed : Deed) : (deed.apply (upTo depth)).Advances := by
  cases deed with
  | operate operation => exact operation.related compatible_advances (related_advances depth)
  | shelve name object =>
    refine .quiet fun store ended after hon => ?_
    cases hon
    exact Store.onward_shelve store name object
  | defineClass name bases initialises members =>
    refine .quiet fun store ended after hon => ?_
    rcases Store.defineClass_or_eq hon with hdefine | rfl
    · exact Store.onward_defineClass hdefine
    · exact .refl _

/-- Deeds one after another lead from store to later store. -/
theorem advancing_ofDeeds (depth : Nat) (deeds : List Deed) (store : Store) :
    Advancing (α := Unit) store (none, ofDeeds (upTo depth) deeds store) := by
  induction deeds generalizing store with
  | nil => exact .nothing store
  | cons deed rest ih =>
    have hdone := advances_apply depth deed store
    unfold ofDeeds
    generalize (deed.apply (upTo depth)).on store = done at hdone ⊢
    rcases done with ⟨_ | ⟨ended, after⟩, scenes⟩
    · exact hdone.cut
    · exact hdone.append (ih after)

/-- In the film of a session, each store is a later one than those before. -/
theorem pairwise_ofSession (depth : Nat) (logging : Bool) (deeds : List Deed) :
    (ofSession depth logging deeds).Pairwise fun first second =>
      first.store.Onward second.store := by
  have hdeeds := advancing_ofDeeds depth deeds (Store.initial logging)
  exact List.pairwise_cons.mpr ⟨hdeeds.scene, hdeeds.order⟩

/-- All stores of a session are later ones than its first. -/
theorem onward_of_mem_ofSession {depth : Nat} {logging : Bool} {deeds : List Deed} {scene : Scene}
    (h : scene ∈ ofSession depth logging deeds) : (Store.initial logging).Onward scene.store := by
  rcases List.mem_cons.mp h with rfl | hlater
  · exact .refl _
  · exact (advancing_ofDeeds depth deeds (Store.initial logging)).scene scene hlater

end Film

end Descent
