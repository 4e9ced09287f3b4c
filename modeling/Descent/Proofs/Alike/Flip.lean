import Descent.Proofs.Alike
import Mathlib.Data.List.Zip

/-! # Being alike goes both ways

Whatever has been shown of one run by looking at another, can be shown of the other one too.

* **`Parser.Alike.flip`**, **`Action.Alike.flip`** — parsers and scripts that are alike are so the
  other way round, with the pairs turned. -/

namespace Descent

variable {pairs : Pairing}

/-- Lazy parsers that are paired are so the other way round. -/
theorem CellId.Pairs.flip {cell cell' : CellId} (h : cell.Pairs pairs cell') :
    cell'.Pairs pairs.flip cell := h

/-- Objects that are paired are so the other way round. -/
theorem Object.Pairs.flip {P : Type} {inside inside' : P → P → Prop} {object object' : Object P}
    (hinside : ∀ p p', inside p p' → inside' p' p) (h : object.Pairs pairs inside object') :
    object'.Pairs pairs.flip inside' object := by
  cases object with
  | parser p =>
    cases object' with
    | parser p' => exact hinside p p' h
    | value | table | other => exact h
  | value v =>
    cases object' with
    | value v' => exact Eq.symm h
    | parser | table | other => exact h
  | table rules =>
    cases object' with
    | table rules' => exact Table.Rel.flip (fun _ _ => CellId.Pairs.flip) h
    | parser | value | other => exact h
  | other kind shown =>
    cases object' with
    | other kind' shown' => exact ⟨h.1.symm, h.2.symm⟩
    | parser | value | table => exact h

/-- Parsers that can be recognised again and are paired are so the other way round. -/
theorem Handle.Pairs.flip {handle handle' : Handle} (h : handle.Pairs pairs handle') :
    handle'.Pairs pairs.flip handle := by
  cases handle <;> cases handle' <;> exact h

/-- Languages that are paired are so the other way round. -/
theorem Owner.Pairs.flip {owner owner' : Owner} (h : owner.Pairs pairs owner') :
    owner'.Pairs pairs.flip owner := ⟨h.arguments.symm, h.language, h.home⟩

/-- Results that are alike are so the other way round. -/
theorem Result.Alike.flip {leeway : Leeway} {result result' : Result}
    (h : Result.Alike leeway result result') : Result.Alike leeway result' result := by
  cases h with
  | matched place value => exact .matched place value
  | failed hlabels => exact .failed (hlabels.imp_left Eq.symm)

/-- Entries of two lists at the same place are so the other way round. -/
theorem mem_zip_swap {α β : Type} {first : List α} {second : List β} {entry : β × α}
    (h : entry ∈ second.zip first) : entry.swap ∈ first.zip second := by
  rw [← List.zip_swap]
  exact List.mem_map_of_mem h

mutual

/-- Parsers that are alike are so the other way round. -/
theorem Parser.Alike.flip {leeway : Leeway} {pairs : Pairing} {p p' : Parser} :
    Parser.Alike leeway pairs p p' → Parser.Alike leeway pairs.flip p' p
  | .text literal => .text literal
  | .pattern regex => .pattern regex
  | .ok value => .ok value
  | .fail hlabels => .fail (hlabels.imp_left Eq.symm)
  | .eof => .eof
  | .location => .location
  | .seqNil => .seqNil
  | .seqCons hpart hparts => .seqCons hpart.flip hparts.flip
  | .or hfirst hsecond => .or hfirst.flip hsecond.flip
  | .map hof hfn => .map hof.flip fun value => (hfn value).flip
  | .chain hof hfn => .chain hof.flip fun value => (hfn value).flip
  | .many0 hof => .many0 hof.flip
  | .desc hof hlabels => .desc hof.flip (hlabels.imp_left Eq.symm)
  | .descLeft hlabels hof => .descRight hlabels hof.flip
  | .descRight hlabels hof => .descLeft hlabels hof.flip
  | .lazy hcell => .lazy hcell.flip
  | .kept hnumber => .kept hnumber
  | .custom haction => .custom fun source place => (haction source place).flip

/-- Scripts that are alike are so the other way round. -/
theorem Action.Alike.flip {leeway : Leeway} {pairs : Pairing} {action action' : Action Yield} :
    Action.Alike leeway pairs action action' → Action.Alike leeway pairs.flip action' action
  | .parser hp => .parser hp.flip
  | .nonParser hobject => .nonParser (hobject.flip fun _ _ h => h)
  | .result hresult => .result hresult.flip
  | .raise cause => .raise cause
  | .note hnext => .note hnext.flip
  | .run hparser hnext =>
      .run hparser.flip fun result result' h => (hnext result' result h.flip).flip
  | .build hcell hnext => .build hcell.flip hnext.flip
  | .defer hhome hmake hquiet hnext =>
      .defer hhome hmake.flip (fun hstages => (hquiet hstages).symm)
        fun larger cell cell' h hcell =>
        (hnext larger.flip cell' cell (Pairing.subset_flip h) hcell.flip).flip
  | .inspect hstages hcell hnext =>
      .inspect hstages hcell.flip fun state shown => (hnext state shown).flip
  | .inspectAny hnext =>
      .inspectAny fun state shown state' shown' => (hnext state' shown' state shown).flip
  | .lookUp hlanguage hnext =>
      .lookUp hlanguage fun larger found found' h hfound =>
        (hnext larger.flip found' found (Pairing.subset_flip h)
          (hfound.flip fun _ _ => CellId.Pairs.flip)).flip
  | .rule hlanguage hnext =>
      .rule hlanguage fun larger cell cell' h hcell =>
        (hnext larger.flip cell' cell (Pairing.subset_flip h) hcell.flip).flip
  | .create hclass hnames hrules hquiet hnext =>
      .create hclass hnames.symm
        (fun entry hentry larger owner owner' h howner =>
          (hrules entry.swap (mem_zip_swap hentry) larger.flip owner' owner
            (Pairing.subset_flip h) howner.flip).flip)
        (fun entry hentry owner hstages =>
          (hquiet entry.swap (mem_zip_swap hentry) owner hstages).symm)
        fun larger language language' h hlanguage hhome =>
          (hnext larger.flip language' language (Pairing.subset_flip h) hlanguage hhome).flip
  | .fetch hname hnext =>
      .fetch hname fun larger found found' h hfound =>
        (hnext larger.flip found' found (Pairing.subset_flip h)
          (hfound.flip fun _ _ => Handle.Pairs.flip)).flip
  | .count hstages hnext => .count hstages fun before => (hnext before).flip
  | .countAny hstages hnext =>
      .countAny hstages fun before before' => (hnext before' before).flip

end

end Descent
