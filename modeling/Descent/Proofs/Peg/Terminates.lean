import Descent.Proofs.Peg.Interprets
import Descent.Proofs.Peg.LeftCalls
import Mathlib.Data.Set.Finite.List
import Mathlib.Tactic.Tauto

/-! # Rules without left recursion end

* **`Body.MayBeEmpty`**, **`Body.nullable_iff`** — which rules are nullable, combinator by
  combinator.
* **`Peg.Terminal.advancing_read`** — the parsers of terminals take nothing beyond the end of the
  source.
* **`Store.Hosts.run_rule_ends`** — main statement: if no rule gets to itself with nothing but
  nullable expressions run before, every run of a rule ends. It ends with a result, unless it comes
  to a regular expression from an index that no regular expression can be matched at. -/

namespace Descent

/-! ## Rules that may match the empty text -/

/-- A rule may match the empty text, where `rules` says so of the rules that it refers to. -/
def Body.MayBeEmpty (rules : String → Prop) : Body → Prop
  | .text literal => literal.toList = []
  | .fail _ _ => False
  | .pattern _ | .ok _ | .eof | .location | .opt _ _ | .many0 _ | .sepBy0 _ _ => True
  | .seq parts => allMayBeEmpty parts
  | .and a b | .next a b | .skip a b => a.MayBeEmpty rules ∧ b.MayBeEmpty rules
  | .wrap of before after =>
      of.MayBeEmpty rules ∧ before.MayBeEmpty rules ∧ after.MayBeEmpty rules
  | .trim of around => of.MayBeEmpty rules ∧ around.MayBeEmpty rules
  | .or a b => a.MayBeEmpty rules ∨ b.MayBeEmpty rules
  | .alt of others => of.MayBeEmpty rules ∨ anyMayBeEmpty others
  | .node of _ | .many1 of | .sepBy1 of _ | .desc of _ _ | .map of _ => of.MayBeEmpty rules
  | .rule mention => rules mention.name
where
  /-- All of several may match the empty text. -/
  allMayBeEmpty : List Body → Prop
    | [] => True
    | of :: others => of.MayBeEmpty rules ∧ allMayBeEmpty others
  /-- One of several may match the empty text. -/
  anyMayBeEmpty : List Body → Prop
    | [] => False
    | of :: others => of.MayBeEmpty rules ∨ anyMayBeEmpty others

namespace Body

variable (rules : String → Option Peg)

mutual

/-- Which rules are nullable, combinator by combinator. -/
theorem nullable_iff : ∀ (body : Body), Peg.Nullable rules body.peg
    ↔ body.MayBeEmpty fun name => Peg.Nullable rules (.rule name)
  | .text literal => Peg.nullable_literal_iff
  | .fail _ _ => ⟨nofun, False.elim⟩
  | .pattern regex => ⟨fun _ => trivial, fun _ => .pattern regex⟩
  | .ok _ | .location => ⟨fun _ => trivial, fun _ => .empty⟩
  | .eof => ⟨fun _ => trivial, fun _ => .finish⟩
  | .opt of _ => ⟨fun _ => trivial, fun _ => .choiceSecond .empty⟩
  | .sepBy0 of separator => ⟨fun _ => trivial, fun _ => .choiceSecond .empty⟩
  | .many0 of => ⟨fun _ => trivial, fun _ => .star _⟩
  | .seq parts => nullable_all_iff parts
  | .and a b | .next a b | .skip a b => by
    simp only [peg, Peg.all, Peg.nullable_seq_iff, nullable_iff a, nullable_iff b, MayBeEmpty]
    exact and_congr_right' (and_iff_left .empty)
  | .wrap of before after => by
    simp only [peg, Peg.all, Peg.nullable_seq_iff, nullable_iff of, nullable_iff before,
      nullable_iff after, MayBeEmpty]
    have hempty : Peg.Nullable rules .empty := .empty
    tauto
  | .trim of around => by
    simp only [peg, Peg.all, Peg.nullable_seq_iff, nullable_iff of, nullable_iff around, MayBeEmpty]
    have hempty : Peg.Nullable rules .empty := .empty
    tauto
  | .node of _ => by
    simp only [peg, Peg.all, Peg.nullable_seq_iff, nullable_iff of, MayBeEmpty]
    have hempty : Peg.Nullable rules .empty := .empty
    tauto
  | .or a b => by
    rw [peg, Peg.nullable_choice_iff, nullable_iff a, nullable_iff b, MayBeEmpty]
  | .alt of others => by
    rw [peg, nullable_first_iff others, nullable_iff of, MayBeEmpty]
  | .many1 of => by
    rw [peg, Peg.nullable_seq_iff, nullable_iff of, MayBeEmpty]
    exact and_iff_left (.star _)
  | .sepBy1 of _ => by
    rw [peg, Peg.nullable_seq_iff, nullable_iff of, MayBeEmpty]
    exact and_iff_left (.star _)
  | .desc of _ _ | .map of _ => nullable_iff of
  | .rule _ => Iff.rfl

/-- Several in turn are nullable if all of them are. -/
theorem nullable_all_iff : ∀ (parts : List Body), Peg.Nullable rules (.all (peg.pegs parts))
    ↔ MayBeEmpty.allMayBeEmpty (fun name => Peg.Nullable rules (.rule name)) parts
  | [] => ⟨fun _ => trivial, fun _ => .empty⟩
  | of :: others => by
    rw [peg.pegs, Peg.all, Peg.nullable_seq_iff, nullable_iff of, nullable_all_iff others,
      MayBeEmpty.allMayBeEmpty]

/-- A choice between several is nullable if one of them is. -/
theorem nullable_first_iff : ∀ (others : List Body) {expr : Peg},
    Peg.Nullable rules (.first expr (peg.pegs others)) ↔ Peg.Nullable rules expr ∨
      MayBeEmpty.anyMayBeEmpty (fun name => Peg.Nullable rules (.rule name)) others
  | [], _ => (or_iff_left id).symm
  | of :: others, expr => by
    have hrest : Peg.Nullable rules (.first (.choice expr of.peg) (peg.pegs others)) ↔ _ :=
      nullable_first_iff others
    rw [MayBeEmpty.anyMayBeEmpty, ← nullable_iff of, ← or_assoc, ← Peg.nullable_choice_iff, ← hrest]
    rfl

end

end Body

/-! ## Termination -/

/-- The parsers of terminals take nothing beyond the end of the source. -/
theorem Peg.Terminal.advancing_read (rules : String → Option Peg) (source : Source) :
    Peg.Advancing rules (Peg.Terminal.read source) source.length where
  le_limit _ _ _ h hcount := Peg.Terminal.read_le h hcount
  nullable terminal index h := by
    cases terminal with
    | literal text =>
      rw [read] at h
      split at h
      · rw [Option.some.injEq, List.length_eq_zero_iff] at h
        rw [h]
        exact .literal
      · cases h
    | pattern regex => exact .pattern regex
    | finish => exact .finish

/-- A language has finitely many rules. -/
instance Table.finite_rules (rules : Table Body) : Finite {name // (rules.pegs name).isSome} := by
  have hsub : {name | (rules.pegs name).isSome} ⊆ {name | name ∈ rules.names} := by
    intro name hname
    obtain ⟨expr, hexpr⟩ := Option.isSome_iff_exists.mp hname
    obtain ⟨body, hbody, -⟩ := Option.map_eq_some_iff.mp hexpr
    exact List.mem_map.mpr ⟨_, Table.mem_of_get? hbody, rfl⟩
  exact ((List.finite_toSet rules.names).subset hsub).to_subtype

/-- The name of a rule has an expression. -/
theorem Table.isSome_pegs {rules : Table Body} {name : String} (h : name ∈ rules.names) :
    (rules.pegs name).isSome := by
  obtain ⟨⟨_, body⟩, hentry, rfl⟩ := List.mem_map.mp h
  obtain ⟨body', hbody⟩ := Table.get?_of_mem hentry
  rw [Table.pegs, hbody]
  rfl

/-- An expression that is expressed mentions only names of rules. -/
theorem Expresses.closed {rules : Table Body} {cells : String → CellId} {parser : Parser}
    {expr : Peg} (h : Expresses rules.names cells parser expr) : expr.Closed rules.pegs := by
  induction h with
  | text | pattern | ok | fail | eof | location | seqNil => trivial
  | seqCons _ _ ihpart ihparts => exact ⟨ihpart, ihparts⟩
  | andThen _ _ ihof ihnext => exact ⟨ihof, ihnext .nothing⟩
  | or _ _ ihfirst ihsecond => exact ⟨ihfirst, ihsecond⟩
  | many0 _ ih => exact ih
  | mapValue _ _ ih => exact ih
  | desc _ _ ih => exact ih
  | rule hname => exact Table.isSome_pegs hname

/-- If no rule gets to itself with nothing but nullable expressions run before, every run of a rule
ends, from any place. It ends with a result, unless the rule uses a regular expression and the index
of the place lies neither in the source nor within the numbers that an index can be. -/
theorem Store.Hosts.run_rule_ends {store : Store} {language : InstanceId} {rules : Table Body}
    {cells : String → CellId} (hstore : store.Hosts language rules cells)
    (hacyclic : ∀ name, ¬ Relation.TransGen (Peg.LeftCall rules.pegs) name name) {name : String}
    (hname : name ∈ rules.names) (source : Source) (place : Position) :
    ∃ depth outcome after,
      ((Engine.upTo depth).run (.lazy (cells name)) source place).on store
        = some (outcome, after) ∧
      ((∃ result, outcome = .ok result) ∨
        (outcome = .error .placeTooLarge ∧ (Peg.rule name).UsesPattern rules.pegs ∧
          ¬ (0 ≤ place.index ∧ place.index ≤ source.length) ∧
          ¬ (-Engine.indexBound ≤ place.index ∧ place.index < Engine.indexBound))) := by
  have hclosed : ∀ name expr, rules.pegs name = some expr → expr.Closed rules.pegs := by
    intro name expr hexpr
    obtain ⟨body, hbody, rfl⟩ := Option.map_eq_some_iff.mp hexpr
    exact (body.expresses cells fun mention hmention =>
      (hstore.closed name body hbody mention hmention).1).closed
  -- something is derived, and so, by completeness, the run ends
  obtain ⟨derived, hderives⟩ := Peg.exists_derives (Peg.Terminal.advancing_read rules.pegs source)
    hclosed hacyclic (.rule name) (Table.isSome_pegs hname) place.index
  have hexpr : Expresses rules.names cells (.lazy (cells name)) (.rule name) := .rule hname
  obtain ⟨outcome, after, ⟨depth, hdepth⟩, -, hanswers⟩ :=
    hderives.serves language cells _ hexpr place rfl store hstore
  refine ⟨depth, outcome, after, hdepth depth (Nat.le_refl _), ?_⟩
  cases outcome with
  | ok result => exact .inl ⟨result, rfl⟩
  | error cause =>
    obtain ⟨rfl, haddressable, huses⟩ := hanswers
    -- an error can only be that of an index which is not addressable
    simp only [Engine.isAddressable, Bool.or_eq_false_iff, Bool.and_eq_false_iff,
      decide_eq_false_iff_not] at haddressable
    exact .inr ⟨rfl, huses, not_and_or.mpr haddressable.1, not_and_or.mpr haddressable.2⟩

/-! ## Sums

A sum gets to an atom at once, but an atom gets to a sum behind a bracket only. That each of the
blanks behind an atom may be missing does no harm. -/

/-- The only left call is that from a sum to an atom. -/
theorem leftCall_sumRules {caller callee : String}
    (h : Peg.LeftCall sumRules.pegs caller callee) : caller = "sum" ∧ callee = "atom" := by
  obtain ⟨expr, hexpr, hcalls⟩ := h
  obtain ⟨body, hbody, rfl⟩ := Option.map_eq_some_iff.mp hexpr
  have hentry := Table.mem_of_get? hbody
  simp only [sumRules, List.mem_cons, Prod.mk.injEq, List.not_mem_nil, or_false] at hentry
  rcases hentry with ⟨rfl, rfl⟩ | ⟨rfl, rfl⟩
  · have hatom : ¬ Peg.Nullable sumRules.pegs (.rule "atom") := by
      have hname : sumRules.pegs "atom" = some (atomBody.desc "an atom" []).peg := rfl
      rw [Peg.nullable_rule_iff hname]
      simp [atomBody, blanksBody, Body.peg, Peg.all]
    simp only [sumBody, Body.peg, Peg.leftCalls_seq_iff, Mention.name, Peg.leftCalls_rule_iff,
      hatom, false_and, or_false] at hcalls
    exact ⟨rfl, hcalls⟩
  · simp [atomBody, blanksBody, Body.peg, Peg.all] at hcalls

/-- The rules for sums do not get to themselves. -/
theorem acyclic_sumRules (name : String) :
    ¬ Relation.TransGen (Peg.LeftCall sumRules.pegs) name name := by
  have hends : ∀ callee, Relation.TransGen (Peg.LeftCall sumRules.pegs) name callee →
      name = "sum" ∧ callee = "atom" := by
    intro callee h
    induction h with
    | single h => exact leftCall_sumRules h
    | tail _ h ih => exact ⟨ih.1, (leftCall_sumRules h).2⟩
  intro h
  obtain ⟨hsum, hatom⟩ := hends name h
  rw [hsum] at hatom
  exact absurd hatom (by decide)

/-- Even far behind the end of a source, a sum is looked for in vain, and in finite time. -/
theorem run_rule_ends_sum :
    let place : Position := ⟨12345678901234567890, 1, 1⟩
    sumStore.Hosts 0 sumRules sumCells ∧
      (∀ name, ¬ Relation.TransGen (Peg.LeftCall sumRules.pegs) name name) ∧
      "sum" ∈ sumRules.names ∧ ∃ depth outcome after,
        ((Engine.upTo depth).run (.lazy (sumCells "sum")) ['1'] place).on sumStore
          = some (outcome, after) ∧
        ((∃ result, outcome = .ok result) ∨
          (outcome = .error .placeTooLarge ∧ (Peg.rule "sum").UsesPattern sumRules.pegs ∧
            ¬ (0 ≤ place.index ∧ place.index ≤ ['1'].length) ∧
            ¬ (-Engine.indexBound ≤ place.index ∧ place.index < Engine.indexBound))) := by
  intro place
  have hname : "sum" ∈ sumRules.names := by decide
  exact ⟨hosts_sumStore, acyclic_sumRules, hname,
    hosts_sumStore.run_rule_ends acyclic_sumRules hname ['1'] place⟩

/-! ## A letter by a regular expression -/

/-- The letter a. -/
def letterRegex : Regex := (Regex.compile? "a" .none).getD default

/-- A rule for the letter. -/
def letterRules : Table Body := [("a", .pattern letterRegex)]

/-- A store with a language of that rule. -/
def letterStore : Store :=
  { Store.initial false with
    instances := #[⟨Store.base, [], some [("a", ⟨0, 0⟩)],
      #[.unbuilt "a" ((Body.pattern letterRegex).maker ⟨0, []⟩)]⟩] }

/-- The language hosts the rule. -/
theorem hosts_letterStore : letterStore.Hosts 0 letterRules fun _ => ⟨0, 0⟩ := by
  have hcreate : (Store.initial false).create Store.baseName []
      [("a", (Body.pattern letterRegex).maker)] = .ok (0, letterStore) := rfl
  have hentry : ∀ name body, letterRules.get? name = some body →
      name = "a" ∧ body = .pattern letterRegex := by
    intro name body hbody
    simpa [letterRules] using Table.mem_of_get? hbody
  refine .of_create hcreate ?_ ?_ ?_
  · intro name hname
    cases List.mem_singleton.mp hname
    rfl
  · intro name body hbody mention hmention
    obtain ⟨-, rfl⟩ := hentry name body hbody
    cases hmention
  · intro cls name body maker hcls hbody hmaker
    obtain ⟨rfl, rfl⟩ := hentry name body hbody
    cases hcls
    cases hmaker
    exact Body.makes (.pattern letterRegex) ⟨0, []⟩ _

/-- Not every run of such a rule ends with a result: from an index of 2⁶³, a letter cannot even be
looked for. -/
theorem not_forall_run_rule_result :
    ¬ ∀ (store : Store) (language : InstanceId) (rules : Table Body) (cells : String → CellId),
      store.Hosts language rules cells →
      (∀ name, ¬ Relation.TransGen (Peg.LeftCall rules.pegs) name name) →
      ∀ name ∈ rules.names, ∀ (source : Source) (place : Position), ∃ depth result after,
        ((Engine.upTo depth).run (.lazy (cells name)) source place).on store
          = some (.ok result, after) := by
  intro h
  have hacyclic : ∀ name, ¬ Relation.TransGen (Peg.LeftCall letterRules.pegs) name name := by
    intro name hcycle
    obtain ⟨_, ⟨expr, hexpr, hcalls⟩, -⟩ := Relation.TransGen.head'_iff.mp hcycle
    obtain ⟨body, hbody, rfl⟩ := Option.map_eq_some_iff.mp hexpr
    have hentry := Table.mem_of_get? hbody
    simp only [letterRules, List.mem_cons, Prod.mk.injEq, List.not_mem_nil, or_false] at hentry
    obtain ⟨-, rfl⟩ := hentry
    exact Peg.not_leftCalls_terminal hcalls
  -- the index is the first one beyond those that an index can be
  obtain ⟨depth, result, after, hon⟩ := h letterStore 0 letterRules _ hosts_letterStore hacyclic "a"
    (by decide) ['a'] ⟨9223372036854775808, 1, 1⟩
  have herror : ∃ after, ((Engine.upTo 4).run (.lazy ⟨0, 0⟩) ['a'] ⟨9223372036854775808, 1, 1⟩).on
      letterStore = some (.error .placeTooLarge, after) := ⟨_, rfl⟩
  obtain ⟨after', hon'⟩ := herror
  cases Engine.outcome_unique hon hon'

end Descent
