import Descent.Proofs.Film.Depth
import Descent.Proofs.Journal.Erases

/-! # When the function of a lazy parser is called

A lazy parser is asked for its parser when it is run and when it is to be built. Whether its
function is called then depends on whether it holds a parser already; and that is the only occasion
on which it is called.

* **`Store.Responds`** — what happens first when a lazy parser is asked for its parser.
* **`Store.responds_called`**, **`Store.responds_reused`** — its function is called, or the parser
  that it holds is used again.
* **`Scene.Announced`** — scenes in which every call is the beginning of building the lazy parser.
* **`Film.heralds_upTo`**, **`Film.announced_ofSession`** — main statements: so it is in all runs
  and sessions. -/

namespace Descent

/-! ## Asking for a parser -/

/-- What happens first when a lazy parser is asked for its parser: when it is to be built, and when
it is run on a source. -/
structure Store.Responds (store : Store) (cell : CellId) (entry : Entry) : Prop where
  /-- The first scene of building it. -/
  build : ∀ depth,
    (((Film.upTo (depth + 1)).build cell).on store).2.head?.bind Scene.recorded? = some entry
  /-- The first scene of running it. -/
  run : ∀ depth source place,
    (((Film.upTo (depth + 2)).run (.lazy cell) source place).on store).2.head?.bind
      Scene.recorded? = some entry

namespace Store

variable {store : Store} {cell : CellId} {found : Cell}

/-- A run of a lazy parser begins as building it does. -/
theorem responds_of_build {entry : Entry}
    (h : ∀ depth, (((Film.upTo (depth + 1)).build cell).on store).2.head?.bind Scene.recorded?
      = some entry) : store.Responds cell entry := by
  refine ⟨h, fun depth source place => ?_⟩
  obtain ⟨rest, hrest⟩ := Film.exists_append_of_bind ((Film.upTo (depth + 1)).build cell)
    (fun p => (Film.upTo (depth + 1)).run p source place) store
  rw [Film.upTo_succ_run, Film.asRun_on]
  show ((((Film.upTo (depth + 1)).build cell >>= fun p => (Film.upTo (depth + 1)).run p source
    place).on store).2 ++ _).head?.bind Scene.recorded? = some entry
  have hbuild := h depth
  rw [hrest]
  cases hscenes : (((Film.upTo (depth + 1)).build cell).on store).2 with
  | nil =>
    rw [hscenes] at hbuild
    cases hbuild
  | cons scene scenes =>
    rw [hscenes] at hbuild
    exact hbuild

/-- The function of a lazy parser that holds nothing is called. -/
theorem responds_called (hcell : store.cell? cell = some found) (hnone : found.parser = none) :
    store.Responds cell (.called cell) := by
  obtain ⟨name, state, make, parser⟩ := found
  obtain rfl : parser = none := hnone
  refine responds_of_build fun depth => ?_
  rw [Film.upTo_succ_build, Film.assemble_of_unmade hcell]
  rfl

/-- The parser that a lazy parser holds is used again. -/
theorem responds_reused {parser : Parser} (hcell : store.cell? cell = some found)
    (hparser : found.parser = some parser) : store.Responds cell (.reused cell parser) := by
  obtain ⟨name, state, make, kept⟩ := found
  obtain rfl : kept = some parser := hparser
  refine responds_of_build fun depth => ?_
  rw [Film.upTo_succ_build, Film.assemble_of_made hcell]
  rfl

end Store

/-! ## Announced calls -/

namespace Scene

/-- The store that some scenes leave. -/
def leaves (store : Store) (scenes : List Scene) : Store :=
  (scenes.getLast?.map Scene.store).getD store

@[simp] theorem leaves_nil (store : Store) : leaves store [] = store := rfl

@[simp] theorem leaves_cons (store : Store) (scene : Scene) (rest : List Scene) :
    leaves store (scene :: rest) = leaves scene.store rest := by
  unfold leaves
  rw [List.getLast?_cons]
  cases rest.getLast? with
  | none => rfl
  | some last => rfl

@[simp] theorem leaves_append (store : Store) (first second : List Scene) :
    leaves store (first ++ second) = leaves (leaves store first) second := by
  induction first generalizing store with
  | nil => rfl
  | cons scene rest ih => rw [List.cons_append, leaves_cons, leaves_cons, ih]

/-- Every call of the function of a lazy parser in some scenes, the first of which happens in the
given store, is the beginning of building the lazy parser. -/
def Announced (cell : CellId) (store : Store) (scenes : List Scene) : Prop :=
  ∀ first scene rest, scenes = first ++ scene :: rest → scene.recorded? = some (.called cell) →
    ∃ depth, (((Film.upTo depth).build cell).on (leaves store first)).2 <+: scene :: rest

variable {cell : CellId} {store : Store} {first second scenes : List Scene}

/-- Without calls there is nothing to be announced. -/
theorem Announced.of_forall (h : ∀ scene ∈ scenes, scene.recorded? ≠ some (.called cell)) :
    Announced cell store scenes := by
  rintro first scene rest rfl hcalled
  exact absurd hcalled (h scene (List.mem_append_right _ List.mem_cons_self))

/-- A scene before others. -/
theorem Announced.cons {scene : Scene} {rest : List Scene} (h : Announced cell scene.store rest)
    (hscene : scene.recorded? = some (.called cell) →
      ∃ depth, (((Film.upTo depth).build cell).on store).2 <+: scene :: rest) :
    Announced cell store (scene :: rest) := by
  intro first other after hsplit hcalled
  cases first with
  | nil =>
    obtain ⟨rfl, rfl⟩ := List.cons.inj hsplit
    exact hscene hcalled
  | cons before first =>
    obtain ⟨rfl, hrest⟩ := List.cons.inj hsplit
    rw [leaves_cons]
    exact h first other after hrest hcalled

/-- One after the other. -/
theorem Announced.append (h : Announced cell store first)
    (h' : Announced cell (leaves store first) second) : Announced cell store (first ++ second) := by
  intro before scene rest hsplit hcalled
  rcases List.append_eq_append_iff.mp hsplit with ⟨between, rfl, hlate⟩ | ⟨between, hearly, hrest⟩
  · rw [leaves_append]
    exact h' between scene rest hlate hcalled
  · cases between with
    | nil =>
      rw [List.append_nil] at hearly
      subst hearly
      exact h' [] scene rest hrest.symm hcalled
    | cons other between =>
      obtain ⟨rfl, rfl⟩ := List.cons.inj hrest
      obtain ⟨depth, hprefix⟩ := h before scene between hearly hcalled
      exact ⟨depth, hprefix.trans (List.prefix_append (scene :: between) second)⟩

end Scene

namespace Film

open Scene

variable {cell : CellId} {α β : Type}

/-- In the film of a computation every call of the function of a lazy parser is announced, and the
last scene shows the store that is left. -/
structure Heralds (cell : CellId) (film : Film α) : Prop where
  /-- Every call is announced. -/
  announced : ∀ store, Announced cell store (film.on store).2
  /-- The last scene shows the store that is left. -/
  leaves_eq : ∀ store ended after, (film.on store).1 = some (ended, after) →
    leaves store (film.on store).2 = after

namespace Heralds

theorem pure (result : α) : (Pure.pure result : Film α).Heralds cell where
  announced _ := .of_forall nofun
  leaves_eq store ended after hon := by
    cases hon
    rfl

/-- A computation in which nothing happens to lazy parsers is filmed in one scene. -/
theorem quiet (computation : Eval α) : (liftM computation : Film α).Heralds cell := by
  constructor
  · intro store
    refine .of_forall fun scene hscene => ?_
    rw [quiet_on] at hscene
    cases hon : computation.on store with
    | none =>
      rw [hon] at hscene
      cases hscene
    | some outcome =>
      rw [hon] at hscene
      rw [List.mem_singleton.mp hscene]
      exact nofun
  · intro store ended after hon
    rw [quiet_on] at hon ⊢
    obtain hon : computation.on store = some (ended, after) := hon
    simp only [hon]
    rfl

theorem bind {first : Film α} {next : α → Film β} (h : first.Heralds cell)
    (hnext : ∀ result, (next result).Heralds cell) : (first >>= next).Heralds cell := by
  constructor
  · intro store
    have hfirst := h.announced store
    have hleaves := h.leaves_eq store
    rw [bind_on]
    generalize first.on store = done at hfirst hleaves ⊢
    rcases done with ⟨_ | ⟨cause | result, middle⟩, scenes⟩
    · exact hfirst
    · exact hfirst
    · refine hfirst.append ?_
      rw [hleaves _ _ rfl]
      exact (hnext result).announced middle
  · rintro store ended after hon
    generalize hfilm : (first >>= next).on store = done at hon ⊢
    obtain ⟨outcome, scenes⟩ := done
    obtain rfl : outcome = some (ended, after) := hon
    rcases bind_eq_some hfilm with
      ⟨cause, hfirst, -⟩ | ⟨result, middle, early, late, hfirst, hsecond, rfl⟩
    · have hleaves := h.leaves_eq store (.error cause) after
      rw [hfirst] at hleaves
      exact hleaves rfl
    · have hleaves := h.leaves_eq store (.ok result) middle
      have hleaves' := (hnext result).leaves_eq middle ended after
      rw [hfirst] at hleaves
      rw [hsecond] at hleaves'
      rw [leaves_append, hleaves rfl, hleaves' rfl]

/-- Putting computations together keeps this up. -/
theorem compatible : Engine.Compatible fun α (film _ : Film α) => film.Heralds cell where
  pure := .pure
  basic _ := .quiet _
  bind := .bind

/-- The scene of the end of a run is no call. -/
theorem asRun {computation : Film Result} (h : computation.Heralds cell) (parser : Parser)
    (source : Source) (start : Position) :
    (asRun parser source start computation).Heralds cell := by
  constructor
  · intro store
    rw [asRun_on]
    refine (h.announced store).append (.of_forall fun scene hscene => ?_)
    generalize (computation.on store).1 = outcome at hscene
    rcases outcome with _ | ⟨cause | result, after⟩
    · cases hscene
    · cases hscene
    · rw [List.mem_singleton.mp hscene]
      exact nofun
  · intro store ended after hon
    rw [asRun_on] at hon ⊢
    obtain hon : (computation.on store).1 = some (ended, after) := hon
    rw [leaves_append, h.leaves_eq store ended after hon, hon]
    cases ended with
    | ok result => rfl
    | error cause => rfl

/-- The end of a lazy parser's function is no call. -/
theorem recorded?_endings (id : CellId) (name : String)
    (outcome : Option (Except Raised (Object Parser) × Store)) :
    ∀ scene ∈ endings id name outcome, scene.recorded? ≠ some (.called cell) := by
  intro scene hscene
  rcases outcome with _ | ⟨ended, after⟩
  · cases hscene
  · rw [List.mem_singleton.mp hscene]
    rcases ended with cause | object
    · exact nofun
    · cases object with
      | parser | value | table | other => exact nofun

/-- The calls of making a lazy parser are announced if those of its script are: the first scene is
that of building it. -/
theorem announced_assemble {depth : Nat}
    (h : ∀ action : Action (Object Parser), ((upTo depth).perform action).Heralds cell)
    (id : CellId) (store : Store) :
    Announced cell store ((assemble (upTo depth) id).on store).2 := by
  cases hfound : store.cell? id with
  | none =>
    rw [assemble_of_none hfound]
    exact .of_forall nofun
  | some found =>
    obtain ⟨name, state, make, _ | parser⟩ := found
    · have hbuild : (((upTo (depth + 1)).build id).on store).2
          = ((assemble (upTo depth) id).on store).2 := rfl
      rw [assemble_of_unmade hfound] at hbuild ⊢
      refine .cons (((h make.action).announced _).append (.of_forall ?_)) fun hcalled => ?_
      · exact recorded?_endings id name _
      · obtain rfl : id = cell := Entry.called.inj (Option.some.inj hcalled)
        exact ⟨depth + 1, hbuild ▸ List.prefix_rfl⟩
    · rw [assemble_of_made hfound]
      refine .of_forall fun scene hscene => ?_
      rw [List.mem_singleton.mp hscene]
      exact nofun

/-- Making a lazy parser keeps this up. -/
theorem assemble {depth : Nat}
    (h : ∀ action : Action (Object Parser), ((upTo depth).perform action).Heralds cell)
    (id : CellId) : (assemble (upTo depth) id).Heralds cell := by
  refine ⟨announced_assemble h id, fun store ended after hon => ?_⟩
  cases hfound : store.cell? id with
  | none =>
    rw [assemble_of_none hfound] at hon
    cases hon
  | some found =>
    obtain ⟨name, state, make, _ | parser⟩ := found
    · rw [assemble_of_unmade hfound] at hon ⊢
      obtain ⟨⟨object, middle⟩, hmade, hsettle⟩ := Option.map_eq_some_iff.mp hon
      simp only [hmade, leaves_cons, leaves_append, endings, hsettle]
      rfl
    · rw [assemble_of_made hfound] at hon ⊢
      cases hon
      rfl

end Heralds

/-- In every run the calls of the function of a lazy parser are announced. -/
theorem heralds_upTo (cell : CellId) (depth : Nat) :
    Engine.Related (fun _ (film _ : Film _) => film.Heralds cell) (upTo depth) (upTo depth) := by
  induction depth with
  | zero => exact ⟨fun _ _ _ => .quiet _, fun _ => .quiet _⟩
  | succ depth ih =>
    exact ⟨fun parser source place => (ih.step Heralds.compatible parser source place).asRun _ _ _,
      .assemble (ih.perform Heralds.compatible)⟩

/-- So they are in deeds. -/
theorem heralds_apply (cell : CellId) (depth : Nat) (deed : Deed) :
    (deed.apply (upTo depth)).Heralds cell := by
  cases deed with
  | operate operation => exact operation.related Heralds.compatible (heralds_upTo cell depth)
  | shelve | defineClass => exact .quiet _

/-- So they are in deeds one after another. -/
theorem announced_ofDeeds (cell : CellId) (depth : Nat) (deeds : List Deed) (store : Store) :
    Announced cell store (ofDeeds (upTo depth) deeds store) := by
  induction deeds generalizing store with
  | nil => exact .of_forall nofun
  | cons deed rest ih =>
    have hdone := (heralds_apply cell depth deed).announced store
    have hleaves := (heralds_apply cell depth deed).leaves_eq store
    unfold ofDeeds
    generalize (deed.apply (upTo depth)).on store = done at hdone hleaves ⊢
    rcases done with ⟨_ | ⟨ended, after⟩, scenes⟩
    · exact hdone
    · refine hdone.append ?_
      rw [hleaves _ _ rfl]
      exact ih after

/-- In a session, every call of the function of a lazy parser is the beginning of building it. -/
theorem announced_ofSession (cell : CellId) (depth : Nat) (logging : Bool) (deeds : List Deed) :
    Announced cell (Store.initial logging) (ofSession depth logging deeds) := by
  have hfirst : Announced cell (Store.initial logging) [⟨.quiet, Store.initial logging⟩] :=
    .of_forall fun scene hscene => by
      rw [List.mem_singleton.mp hscene]
      exact nofun
  exact hfirst.append (announced_ofDeeds cell depth deeds _)

end Film

end Descent
