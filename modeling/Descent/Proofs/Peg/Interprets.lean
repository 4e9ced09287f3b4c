import Descent.Proofs.Peg.Complete
import Descent.Proofs.Position.Reaches

/-! # Rules are interpreted as parsing expressions

In a source, what the rules of a language return is what their parsing expressions mean, no less and
no more.

* **`Peg.Terminal.read_eq_takes`** — in a source, the parser of a terminal takes what the terminal
  takes.
* **`Expresses.run_iff`** — a parser returns what can be derived from the expression that it
  expresses.
* **`Store.Hosts.run_rule_iff`** — main statement: the rule of a language matches up to an index
  exactly if its expression does, and fails exactly if its expression does. -/

namespace Descent

namespace Peg

variable {source : Source} {index : Int}

/-- In a source, the parser of a terminal takes what the terminal takes. -/
theorem Terminal.read_eq_takes (terminal : Terminal) (hindex : 0 ≤ index ∧ index ≤ source.length) :
    terminal.read source index = terminal.takes source index := by
  obtain ⟨hnonneg, hle⟩ := hindex
  cases terminal with
  | literal text =>
    rw [read, takes]
    -- the comparison of the parser is that of prefixes, the index being one of the source
    have hiff : source.standsAt text index = true ↔ text <+: source.drop index.toNat := by
      unfold Source.standsAt
      rw [if_neg (by omega), Bool.and_eq_true, decide_eq_true_eq, List.isPrefixOf_iff_prefix]
      exact and_iff_right hle
    by_cases h : text <+: source.drop index.toNat
    · rw [if_pos (hiff.mpr h), if_pos h]
    · rw [if_neg (fun hs => h (hiff.mp hs)), if_neg h]
  | pattern regex => rfl
  | finish =>
    rw [read, takes]
    by_cases h : index = source.length
    · rw [if_pos (by omega), if_pos h]
    · rw [if_neg (by omega), if_neg h]

/-- Whatever a terminal takes in a source leads to an index in the source. -/
theorem Terminal.inside_of_read {terminal : Terminal} {count : Nat}
    (hindex : 0 ≤ index ∧ index ≤ source.length) (h : terminal.read source index = some count) :
    0 ≤ index + count ∧ index + count ≤ source.length := by
  rcases Nat.eq_zero_or_pos count with rfl | hpos
  · rw [Int.natCast_zero, Int.add_zero]
    exact hindex
  · have hle := read_le h hpos
    omega

/-- In a source, it does not matter whether terminals or their parsers take their part of it. -/
theorem derives_read_iff {rules : String → Option Peg} {expr : Peg} {derived : Option Int}
    (hindex : 0 ≤ index ∧ index ≤ source.length) :
    Derives rules (Terminal.read source) expr index derived
      ↔ Derives rules (Terminal.takes source) expr index derived := by
  have hsame : ∀ (terminal : Terminal) (index : Int), 0 ≤ index ∧ index ≤ source.length →
      Terminal.read source terminal index = Terminal.takes source terminal index :=
    fun terminal _ hi => terminal.read_eq_takes hi
  -- a derivation that starts in the source stays there, so they are compared in the source only
  have hstay : ∀ (terminal : Terminal) (index : Int) (count : Nat),
      0 ≤ index ∧ index ≤ source.length → Terminal.read source terminal index = some count →
      0 ≤ index + count ∧ index + count ≤ source.length :=
    fun _ _ _ hi hread => Terminal.inside_of_read hi hread
  constructor
  · intro h
    exact (h.congr (fun terminal i hi => (hsame terminal i hi).symm) hstay hindex).1
  · intro h
    refine (h.congr hsame (fun terminal i count hi htakes => ?_) hindex).1
    rw [← hsame terminal i hi] at htakes
    exact hstay terminal i count hi htakes

end Peg

section Interprets

variable {store : Store} {language : InstanceId} {rules : Table Body} {cells : String → CellId}
  {source : Source} {place : Position}

/-- A parser returns what can be derived from the expression that it expresses. -/
theorem Expresses.run_iff {parser : Parser} {expr : Peg}
    (hexpr : Expresses rules.names cells parser expr) (hstore : store.Hosts language rules cells)
    (hplace : place.Within source) (derived : Option Int) :
    (∃ depth result after, ((Engine.upTo depth).run parser source place).on store
        = some (.ok result, after) ∧ result.stop? = derived)
      ↔ Peg.Derives rules.pegs (Peg.Terminal.takes source) expr place.index derived := by
  have hinside : 0 ≤ place.index ∧ place.index ≤ source.length := ⟨hplace.nonneg, hplace.le_length⟩
  rw [← Peg.derives_read_iff hinside]
  constructor
  · rintro ⟨depth, result, after, hon, rfl⟩
    have hfollows := (Engine.follows_upTo language rules cells depth).run parser expr hexpr source
    exact (hfollows place store hstore _ after hon).2 result rfl
  · intro h
    obtain ⟨outcome, after, ⟨depth, hdepth⟩, -, hanswers⟩ :=
      h.serves language cells parser hexpr place rfl store hstore
    cases outcome with
    | ok result => exact ⟨depth, result, after, hdepth depth (Nat.le_refl _), hanswers⟩
    | error cause =>
      -- in a source every regular expression can be matched
      have haddressable : Engine.isAddressable source place.index = true := by
        unfold Engine.isAddressable
        simp [hinside]
      rw [hanswers.2.1] at haddressable
      cases haddressable

/-- A rule of a language matches up to an index exactly if its expression does, and fails exactly if
its expression does. -/
theorem Store.Hosts.run_rule_iff (hstore : store.Hosts language rules cells) {name : String}
    {body : Body} (hbody : rules.get? name = some body) (hplace : place.Within source) :
    (∀ j : Int,
      (∃ depth stop value after,
        ((Engine.upTo depth).run (.lazy (cells name)) source place).on store
          = some (.ok (.matched stop value), after) ∧ stop.index = j)
        ↔ Peg.Derives rules.pegs (Peg.Terminal.takes source) body.peg place.index (some j)) ∧
    ((∃ depth failure after,
        ((Engine.upTo depth).run (.lazy (cells name)) source place).on store
          = some (.ok (.failed failure), after))
        ↔ Peg.Derives rules.pegs (Peg.Terminal.takes source) body.peg place.index none) := by
  have hname : name ∈ rules.names := List.mem_map.mpr ⟨_, Table.mem_of_get? hbody, rfl⟩
  have hpeg : rules.pegs name = some body.peg := by rw [Table.pegs, hbody, Option.map_some]
  -- a rule means what its expression means
  have hrule : ∀ derived,
      Peg.Derives rules.pegs (Peg.Terminal.takes source) (.rule name) place.index derived
        ↔ Peg.Derives rules.pegs (Peg.Terminal.takes source) body.peg place.index derived := by
    intro derived
    constructor
    · intro h
      cases h with
      | rule hname hderives =>
        rw [hpeg, Option.some.injEq] at hname
        rw [hname]
        exact hderives
    · exact .rule hpeg
  have hexpr : Expresses rules.names cells (.lazy (cells name)) (.rule name) := .rule hname
  have hrun := hexpr.run_iff hstore hplace
  refine ⟨fun j => ?_, ?_⟩
  · rw [← hrule, ← hrun]
    constructor
    · rintro ⟨depth, stop, value, after, hon, rfl⟩
      exact ⟨depth, _, after, hon, rfl⟩
    · rintro ⟨depth, result, after, hon, hstop⟩
      cases result with
      | matched stop value => exact ⟨depth, stop, value, after, hon, Option.some.inj hstop⟩
      | failed failure => cases hstop
  · rw [← hrule, ← hrun]
    constructor
    · rintro ⟨depth, failure, after, hon⟩
      exact ⟨depth, _, after, hon, rfl⟩
    · rintro ⟨depth, result, after, hon, hstop⟩
      cases result with
      | matched stop value => cases hstop
      | failed failure => exact ⟨depth, failure, after, hon⟩

end Interprets

/-! ## Sums

A language of two rules that run each other. -/

/-- A sum of atoms. -/
def sumBody : Body := .sepBy1 (.rule (.byAttribute "atom")) (.text "+")

/-- Any number of blanks, each of which may be missing. -/
def blanksBody : Body := .many0 (.opt (.text " ") .nothing)

/-- A one, or a sum in brackets, and blanks. -/
def atomBody : Body :=
  .skip (.or (.text "1") (.wrap (.rule (.byName "sum")) (.text "(") (.text ")"))) blanksBody

/-- The rules for sums. An atom has a name for error messages. -/
def sumRules : Table Body := [("sum", sumBody), ("atom", atomBody.desc "an atom" [])]

/-- The lazy parsers of the rules. -/
def sumCells (name : String) : CellId := if name = "sum" then ⟨0, 0⟩ else ⟨0, 1⟩

/-- The rule of a class for sums. -/
def sumDefinition : Definition := ⟨"sum", none, fun owner => sumBody.script owner.language⟩

/-- The rule of a class for atoms. -/
def atomDefinition : Definition :=
  ⟨"atom", some (.str "an atom"), fun owner => atomBody.script owner.language⟩

/-- A store with the class. -/
def sumClasses : Store :=
  { Store.initial false with
    definitions := #[sumDefinition, atomDefinition]
    classes := #[⟨Store.baseName, [Store.base], [], true⟩,
      ⟨"Sums", [1, Store.base], [("sum", .rule 0), ("atom", .rule 1)], true⟩]
    classNames := [(Store.baseName, Store.base), ("Sums", 1)] }

/-- A store with a language of the class. -/
def sumStore : Store :=
  { sumClasses with
    instances := #[⟨1, [], some [("sum", ⟨0, 0⟩), ("atom", ⟨0, 1⟩)],
      #[.unbuilt "sum" (.mk (sumDefinition.action ⟨0, []⟩)),
        .unbuilt "atom" (.mk (atomDefinition.action ⟨0, []⟩))]⟩] }

/-- The language hosts its rules. -/
theorem hosts_sumStore : sumStore.Hosts 0 sumRules sumCells := by
  have hcreate : sumClasses.create "Sums" [] [] = .ok (0, sumStore) := rfl
  have hnames : ∀ name body, sumRules.get? name = some body →
      name = "sum" ∧ body = sumBody ∨ name = "atom" ∧ body = atomBody.desc "an atom" [] := by
    intro name body hbody
    have hentry := Table.mem_of_get? hbody
    simpa [sumRules] using hentry
  refine .of_create hcreate ?_ ?_ ?_
  · intro name hname
    obtain ⟨⟨_, body⟩, hentry, rfl⟩ := List.mem_map.mp hname
    simp only [sumRules, List.mem_cons, Prod.mk.injEq, List.not_mem_nil, or_false] at hentry
    rcases hentry with ⟨rfl, -⟩ | ⟨rfl, -⟩
    · rfl
    · rfl
  · intro name body hbody mention hmention
    rcases hnames name body hbody with ⟨-, rfl⟩ | ⟨-, rfl⟩
    · cases List.mem_singleton.mp hmention
      exact ⟨by decide, rfl⟩
    · cases List.mem_singleton.mp hmention
      exact ⟨by decide, rfl⟩
  · intro cls name body maker hcls hbody hmaker
    cases hcls
    rcases hnames name body hbody with ⟨rfl, rfl⟩ | ⟨rfl, rfl⟩
    · cases hmaker
      exact Definition.makes "sum" sumBody ⟨0, []⟩ sumCells
    · cases hmaker
      exact Definition.makes_desc "atom" "an atom" atomBody ⟨0, []⟩ sumCells

/-- The rule for sums, from the start of a source. -/
theorem run_rule_iff_sum :
    let source : Source := ['1', ' ', '+', '(', '1', ')']
    sumStore.Hosts 0 sumRules sumCells ∧ sumRules.get? "sum" = some sumBody ∧
      Position.start.Within source ∧
      (∀ j : Int,
        (∃ depth stop value after,
          ((Engine.upTo depth).run (.lazy (sumCells "sum")) source .start).on sumStore
            = some (.ok (.matched stop value), after) ∧ stop.index = j)
          ↔ Peg.Derives sumRules.pegs (Peg.Terminal.takes source) sumBody.peg 0 (some j)) ∧
      ((∃ depth failure after,
          ((Engine.upTo depth).run (.lazy (sumCells "sum")) source .start).on sumStore
            = some (.ok (.failed failure), after))
          ↔ Peg.Derives sumRules.pegs (Peg.Terminal.takes source) sumBody.peg 0 none) := by
  intro source
  have hbody : sumRules.get? "sum" = some sumBody := rfl
  have hplace : Position.start.Within source := ⟨by decide, by decide⟩
  exact ⟨hosts_sumStore, hbody, hplace, hosts_sumStore.run_rule_iff hbody hplace⟩

/-- The whole of such a source is a sum. -/
example : ∃ after,
    ((Engine.upTo 30).run (.lazy ⟨0, 0⟩) ['1', ' ', '+', '(', '1', ')'] .start).on sumStore
      = some (.ok (.matched ⟨6, 1, 7⟩ (.list [.str "1", .list [.str "1"]])), after) := ⟨_, rfl⟩

end Descent
