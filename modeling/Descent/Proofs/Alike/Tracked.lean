import Descent.Proofs.Alike.Engines
import Descent.Proofs.Alike.Recalled

/-! # Parsers that are alike, on stores with a history

Two stores may hold the same grammar with different histories: on the one, some lazy parsers have
been made that have not been made on the other. As long as what their scripts did is on record, what
is run on the two stores ends alike, and so it does when the one engine keeps what it makes and the
other keeps nothing.

* **`tracked`** — stores with histories still fit when something is added to both.
* **`Engine.Builds.mimics_build`** — paired lazy parsers are made alike.
* **`Engine.Builds.mimics_levels`** — main statement: on stores with histories, parsers that are
  alike end alike, whichever way lazy parsers are made. -/

namespace Descent

/-- Later stores than two others, in which what is paired is made alike. -/
def tracked (base : Store) (known : Known) (base' : Store) (known' : Known) : Regime .caching where
  fits pairs store store' := ∃ larger larger', base.Later known store larger ∧
    base'.Later known' store' larger' ∧ store.Tied larger larger' pairs store'
  alike := by
    rintro pairs store store' ⟨larger, larger', -, -, htied⟩
    exact htied.alike
  state h hstages := absurd trivial hstages
  counts h hstages := absurd trivial hstages
  adds := by
    rintro pairs store store' after after' ⟨_, _, hbase, hbase', htied⟩ hadds hadds' - - -
    have hlater := Store.Later.of_adds htied.tracked hadds
    have hlater' := Store.Later.of_adds htied.tracked' hadds'
    exact ⟨_, _, hbase.trans hlater, hbase'.trans hlater', htied.later hlater hlater'⟩
  addCell := by
    rintro pairs store store' language language' name make make' ⟨larger, larger', hbase, hbase',
      htied⟩ hhome hmake
    have hlater : store.Later larger (store.addCell language name make).2 _ :=
      .addCell htied.tracked (htied.left _ hhome) (hmake.1.within (hmake.2 trivial).1 htied.left)
    have hlater' : store'.Later larger' (store'.addCell language' name make').2 _ :=
      .addCell htied.tracked' (htied.right _ hhome)
        (hmake.1.flip.within (hmake.2 trivial).2 htied.flip.left)
    have hcell := Store.cell?_addCell (htied.tracked.home language (htied.left _ hhome)) name make
    have hcell' :=
      Store.cell?_addCell (htied.tracked'.home language' (htied.right _ hhome)) name make'
    exact ⟨_, _, hbase.trans hlater, hbase'.trans hlater',
      (htied.later hlater hlater').paired (Set.mem_insert _ _) (Set.mem_insert _ _) hcell hcell'
        (hmake.cell (.refl _) (.refl _))⟩
  create := by
    rintro pairs store store' after after' language language' className arguments added added'
      ⟨_, _, hbase, hbase', htied⟩ hclass hadded hcreate hcreate'
    obtain ⟨_, _, hlater, hlater', hafter⟩ := htied.create hclass hadded hcreate hcreate'
    exact ⟨_, _, hbase.trans hlater, hbase'.trans hlater', hafter⟩

/-! ## Making lazy parsers -/

namespace Engine

variable {build build' : Engine Eval → CellId → Eval Parser} {base base' : Store}
  {known known' : Known} {pairs : Pairing}

/-- Paired lazy parsers are made alike, whichever way they are made and whether or not they have
been made before. -/
theorem Builds.mimics_build (h : Builds build) (h' : Builds build') {depth : Nat}
    (hmimics : (levels build depth).Mimics (tracked base known base' known') (levels build'))
    {cell cell' : CellId} (hcell : cell.Pairs pairs cell') :
    Eval.Mimics (tracked base known base' known') pairs (Parser.Alike .caching)
      (build (levels build depth) cell) fun deeper => build' (levels build' deeper) cell' := by
  rintro store store' ⟨_, _, hbase, hbase', htied⟩ outcome after hon
  obtain ⟨found, hfound, hwithin, hmade⟩ := htied.tracked.cell cell (htied.left _ hcell)
  obtain ⟨found', hfound', hwithin', hmade'⟩ := htied.tracked'.cell cell' (htied.right _ hcell)
  have hcells := htied.alike.cells hcell hfound hfound'
  rcases h.present store cell found hfound with ⟨p, hp, hbuilt⟩ | ⟨started, finish, hcalls⟩
  · -- the first is there already, so the second is made like it, if it is not there too
    rw [hbuilt] at hon
    cases hon
    obtain ⟨larger, _, p', after', hsub, heventually, hlater, hafter, hpp'⟩ :=
      h'.follows htied hcell hfound (hmade p hp)
    exact ⟨larger, .ok p', after', hsub, heventually, ⟨_, _, hbase, hbase'.trans hlater, hafter⟩,
      .ok hpp'⟩
  rcases h'.present store' cell' found' hfound' with
    ⟨p', hp', hbuilt'⟩ | ⟨started', finish', hcalls'⟩
  · -- the other way round, the first ends like the second, and it cannot end in two ways
    obtain ⟨larger, _, p, after₁, hsub, ⟨depth', hdepth'⟩, hlater, hafter, hpp'⟩ :=
      h.follows htied.flip (Pairing.mem_flip.mpr hcell) hfound' (hmade' p' hp')
    have hbelow := h.below (h.below_levels (Nat.le_max_left depth depth')) cell store _ hon
    rw [hdepth' _ (Nat.le_max_right depth depth'), Option.some.injEq] at hbelow
    cases hbelow
    exact ⟨larger.flip, .ok p', store', Pairing.subset_flip hsub, ⟨0, fun _ _ => hbuilt' _⟩,
      ⟨_, _, hbase.trans hlater, hbase', hafter.flip⟩, .ok hpp'.flip⟩
  · -- neither is there: both scripts are performed, on stores that are still tied
    rw [hcalls.on, Option.map_eq_some_iff] at hon
    obtain ⟨⟨ended, middle⟩, hperform, heq⟩ := hon
    cases heq
    have hstart := hcalls.later htied.tracked
    have hstart' := hcalls'.later htied.tracked'
    obtain ⟨larger, ended', middle', hsub, ⟨depth', hdepth'⟩, ⟨_, _, hgrown, hgrown', hmiddle⟩,
      hended⟩ := hmimics.objects hcells.make _ _ ⟨_, _, hbase.trans hstart, hbase'.trans hstart',
        htied.later hstart hstart'⟩ _ _ hperform
    obtain ⟨_, hlater, hreplays⟩ :=
      hcalls.records (h.remembers_levels depth) htied.tracked hwithin hperform
    obtain ⟨_, hlater', hreplays'⟩ := hcalls'.records (h'.remembers_levels depth') htied.tracked'
      hwithin' (hdepth' depth' (Nat.le_refl _))
    have hfinish := hcalls.finished hfound hmiddle.tracked hlater hreplays
    have hfinish' := hcalls'.finished hfound' hmiddle.tracked' hlater' hreplays'
    have hafter := hmiddle.later hfinish hfinish'
    refine ⟨larger, _, _, hsub, ⟨depth', fun deeper hle => ?_⟩,
      ⟨_, _, hgrown.trans hfinish, hgrown'.trans hfinish', hafter⟩,
      parserOf_alike found.name hafter.alike (absurd trivial) hended⟩
    rw [hcalls'.on, hdepth' deeper hle, hcells.name]
    rfl

/-- On stores with histories, parsers that are alike end alike, whichever way lazy parsers are
made. -/
theorem Builds.mimics_levels (h : Builds build) (h' : Builds build') (depth : Nat) :
    (levels build depth).Mimics (tracked base known base' known') (levels build') := by
  induction depth with
  | zero => exact ⟨fun _ _ _ => .diverge, fun _ => .diverge⟩
  | succ depth ih =>
    exact ⟨fun source place hp => ih.step (fun _ => rfl) source place hp,
      fun hcell => .succ (h.mimics_build h' ih hcell)⟩

end Engine

end Descent
