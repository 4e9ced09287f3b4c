import Descent.Proofs.Film.Stages

/-! # What the log says of a lazy parser

* **`Scene.written`** — the entries of the log that are made when something happens to a lazy
  parser.
* **`Entry.words`** — those that are made for an entry of the journal.
* **`Reel.written_eq`** — they are those, scene by scene.
* **`Lives.flatMap_words`** — main statement: one entry for every call of the function, and one more
  at the end if the lazy parser is ready.
* **`Store.Turns.isReport_of_quiet`** — all other entries of the log are about sources. -/

namespace Descent

/-- The entries of the log that have been added from one store to a later one. -/
def Store.newRecords (before after : Store) : List Record :=
  after.records.toList.drop before.records.size

/-- Whether something happens to a lazy parser in a scene. -/
def Scene.isAbout (cell : CellId) (scene : Scene) : Bool :=
  scene.recorded?.any fun entry => entry.cell = cell

/-- The entries of the log that are made in those of some scenes in which something happens to a
lazy parser. The first scene happens in the given store. -/
def Scene.written (cell : CellId) : Store → List Scene → List Record
  | _, [] => []
  | before, scene :: rest =>
      (if scene.isAbout cell then before.newRecords scene.store else [])
        ++ written cell scene.store rest

/-- What is said in the log of what happens to a lazy parser of the given name. -/
def Entry.words (cell : CellId) (name : String) : Entry → List Record
  | .called other => if other = cell then [.building name .unbuilt] else []
  | .made other _ => if other = cell then [.ready name] else []
  | _ => []

namespace Store

variable {before after : Store} {records : List Record}

/-- What has been written is new in the log, if one is kept. -/
theorem Writes.newRecords (h : before.Writes after records) :
    before.newRecords after = if before.logging then records else [] := by
  rw [Store.newRecords, h.records, ← Array.length_toList, List.drop_left]

/-- A log is kept or not, as before. -/
theorem Turns.logging {reports : Record → Prop} {happening : Happening}
    (h : before.Turns reports happening after) : after.logging = before.logging := by
  obtain ⟨records, hwrites, -⟩ := h.exists_writes
  exact hwrites.logging

/-- Where nothing happens to a lazy parser, only sources are reported. -/
theorem Turns.isReport_of_quiet {happening : Happening}
    (h : before.Turns (·.isReport = true) happening after)
    (hquiet : ∀ entry, happening ≠ .entry entry) :
    ∀ record ∈ before.newRecords after, record.isReport = true := by
  cases h with
  | quiet _ hlog =>
    rw [hlog.writes.newRecords, ite_self]
    exact nofun
  | @reported record hrecord =>
    rw [(writes_log before record).newRecords]
    intro other hother
    split at hother
    · rw [List.mem_singleton.mp hother]
      exact hrecord
    · cases hother
  | ran =>
    rw [(Unwritten.refl before).writes.newRecords, ite_self]
    exact nofun
  | called | made | failed | reused => exact absurd rfl (hquiet _)

/-- What happens to a lazy parser is said in the log if one is kept. Its function is called only
when it is unbuilt. -/
theorem Turns.newRecords {reports : Record → Prop} {entry : Entry} {name : String}
    (h : before.Turns reports (.entry entry) after) (hlogging : before.logging = true)
    (hunbuilt : entry.isCall entry.cell = true → before.stage entry.cell = .unbuilt)
    (hname : ∀ found, before.cell? entry.cell = some found → found.name = name) :
    before.newRecords after = entry.words entry.cell name := by
  cases h with
  | @called id found hfound hnone =>
    have hstate : found.state = .unbuilt :=
      (stage_of_cell? hfound).symm.trans (hunbuilt (decide_eq_true rfl))
    rw [(writes_called before id found.name found.state).newRecords, if_pos hlogging, hstate,
      hname found hfound]
    exact (if_pos rfl).symm
  | @made id found hfound parser =>
    rw [(writes_made before id parser found.name).newRecords, if_pos hlogging, hname found hfound]
    exact (if_pos rfl).symm
  | @failed id found hfound =>
    have hunwritten : before.Unwritten (before.setState id .unbuilt) :=
      unwritten_modifyCell before id _
    rw [hunwritten.writes.newRecords, ite_self]
    rfl
  | reused =>
    rw [(Unwritten.refl before).writes.newRecords, ite_self]
    rfl

end Store

/-- Of what happens to other lazy parsers there is nothing to say. -/
theorem Entry.words_of_ne {entry : Entry} {cell : CellId} (h : entry.cell ≠ cell) (name : String) :
    entry.words cell name = [] := by
  cases entry with
  | called | made => exact if_neg h
  | failed | reused => rfl

/-- What is written when something happens to a lazy parser is what there is to say of it. -/
theorem Reel.written_eq {reports : Record → Prop} {before last : Store} {scenes : List Scene}
    {cell : CellId} {stage : RuleState} {name : String} (h : Reel reports before scenes last)
    (hlives : Lives cell (before.stage cell) scenes stage) (hlogging : before.logging = true)
    (hname : ∀ found, last.cell? cell = some found → found.name = name) :
    Scene.written cell before scenes
      = (Scene.journal scenes).flatMap (Entry.words cell name) := by
  induction h with
  | nil => rfl
  | @cons before last scene rest turn next ih =>
    cases hlives with
    | cons step hlives =>
      rw [Scene.written, Scene.journal_cons, List.flatMap_append,
        ih hlives (turn.logging.trans hlogging) hname]
      congr 1
      obtain ⟨happening, store⟩ := scene
      cases happening with
      | quiet | ran => rfl
      | entry entry =>
        show (if decide (entry.cell = cell) then before.newRecords store else [])
          = [entry].flatMap (Entry.words cell name)
        rw [List.flatMap_singleton]
        by_cases hcell : entry.cell = cell
        · rw [if_pos (decide_eq_true hcell)]
          subst hcell
          refine turn.newRecords hlogging step.eq_unbuilt fun found hfound => ?_
          -- it keeps its name up to the end
          obtain ⟨later, hlater, hstill⟩ := (Reel.cons turn next).still hfound
          rw [← hstill.name]
          exact hname later hlater
        · rw [if_neg (by simpa using hcell), Entry.words_of_ne hcell]

/-- All in all, there is one entry for each call of the function, and after these there is one more
if the lazy parser has been made. -/
theorem Lives.flatMap_words {cell : CellId} {before after : RuleState} {scenes : List Scene}
    (h : Lives cell before scenes after) (name : String) :
    (Scene.journal scenes).flatMap (Entry.words cell name)
      = List.replicate ((Scene.journal scenes).countP (·.isCall cell)) (.building name .unbuilt)
        ++ List.replicate ((Scene.journal scenes).countP (·.isMade cell)) (.ready name) := by
  induction h with
  | nil => rfl
  | @cons before after scene rest step next ih =>
    rw [Scene.journal_cons, List.flatMap_append, List.countP_append, List.countP_append, ih]
    clear ih
    generalize scene.recorded? = noted at step
    generalize scene.store.stage cell = stage at step next
    cases step with
    | still => simp
    | failed | reused => simp [Entry.words, Entry.isCall, Entry.isMade]
    | called =>
      simp [Entry.words, Entry.isCall, Entry.isMade, Nat.add_comm 1, List.replicate_succ]
    | made parser =>
      -- it is ready from then on, so its function is not called again
      rw [next.countP_isCall_of_ready]
      simp [Entry.words, Entry.isCall, Entry.isMade, Nat.add_comm 1, List.replicate_succ]
    | other hother =>
      simp [Entry.isCall_of_ne hother, Entry.isMade_of_ne hother, Entry.words_of_ne hother]

end Descent
