import Descent.Proofs.Rules.Perform
import Descent.Proofs.Store.LookUp
import Descent.Proofs.Table

/-! # Stores that house the parsers of rules

What the lazy parsers of a language's rules make is known beforehand if each rule does nothing but
look up other rules and put a parser together. This is said of any such parsers, whatever functions
they apply to their values.

* **`Maker.Makes`** — a maker makes a certain parser, if the rules that it refers to lead where they
  are meant to.
* **`Product`** — the parser of a rule, and the references to other rules that it takes.
* **`Store.Houses`** — the rules of a language lead to lazy parsers that make, or have made, certain
  parsers.
* **`Store.Houses.of_grows`**, **`Store.Houses.modifyCell`** — a store houses them while it grows.
* **`Store.Houses.assemble`** — main statement: having such a lazy parser made gives its parser, in
  a store that houses the same.
* **`Store.Houses.of_create`** — a new language houses what its makers make. -/

namespace Descent

/-- Wherever the given mentions lead to the lazy parsers `cells`, a maker makes a certain parser
and leaves the store as it is. -/
def Maker.Makes (make : Maker) (language : InstanceId) (cells : String → CellId)
    (mentions : List Mention) (parser : Parser) : Prop :=
  ∀ (engine : Engine Eval) (store : Store),
    (∀ mention ∈ mentions, store.Resolves language cells mention) →
    (engine.perform make.action).on store = some (.ok (.parser parser), store)

/-- What comes of a rule. -/
structure Product where
  /-- The references to other rules that the rule takes. -/
  mentions : List Mention
  /-- The parser of the rule. -/
  parser : Parser

/-- The rules of a language lead to lazy parsers that make, or have made, certain parsers. -/
structure Store.Houses (store : Store) (language : InstanceId) (products : Table Product)
    (cells : String → CellId) : Prop where
  /-- The language is there. -/
  there : language < store.instances.size
  /-- Each rule is found in the language, by its name or as an attribute. -/
  found : ∀ name ∈ products.names, store.Resolves language cells (.byName name) ∨
    store.Resolves language cells (.byAttribute name)
  /-- The rules refer to each other only. -/
  closed : ∀ name product, products.get? name = some product → ∀ mention ∈ product.mentions,
    mention.name ∈ products.names ∧ store.Resolves language cells mention
  /-- The lazy parser of a rule makes the parser of the rule, and has made no other one. -/
  cell : ∀ name product, products.get? name = some product → ∃ cell,
    store.cell? (cells name) = some cell ∧
      cell.make.Makes language cells product.mentions product.parser ∧
      ∀ p, cell.parser = some p → p = product.parser

/-- References lead to the same lazy parsers in all later stores. -/
theorem Store.Grows.resolves_iff {keeps : Cell → Cell → Prop} {store after : Store}
    {language : InstanceId} (h : Grows keeps store after) (hl : language < store.instances.size)
    (cells : String → CellId) (mention : Mention) :
    after.Resolves language cells mention ↔ store.Resolves language cells mention := by
  cases mention with
  | byAttribute name => rw [Resolves, Resolves, h.lookUp hl]
  | byName name => rw [Resolves, Resolves, h.getRule hl]

namespace Store.Houses

variable {store after : Store} {language : InstanceId} {products : Table Product}
  {cells : String → CellId} {keeps : Cell → Cell → Prop}

/-- A store that has grown houses the same parsers if the lazy parsers have made nothing else. -/
theorem of_grows (h : store.Houses language products cells) (hgrows : Grows keeps store after)
    (hmake : ∀ a b, keeps a b → b.make = a.make)
    (hparser : ∀ name product, products.get? name = some product →
      ∀ cell, after.cell? (cells name) = some cell →
        ∀ p, cell.parser = some p → p = product.parser) :
    after.Houses language products cells where
  there := Nat.lt_of_lt_of_le h.there hgrows.size_le
  found name hname := by
    rw [hgrows.resolves_iff h.there, hgrows.resolves_iff h.there]
    exact h.found name hname
  closed name product hproduct mention hmention := by
    rw [hgrows.resolves_iff h.there]
    exact h.closed name product hproduct mention hmention
  cell name product hproduct := by
    obtain ⟨cell, hcell, hmakes, -⟩ := h.cell name product hproduct
    obtain ⟨cell', hcell', hkeeps⟩ := hgrows.cell _ cell hcell
    refine ⟨cell', hcell', ?_, hparser name product hproduct cell' hcell'⟩
    rw [hmake cell cell' hkeeps]
    exact hmakes

/-- A store to which something was added houses the same parsers. -/
theorem of_adds (h : store.Houses language products cells) (hadds : Adds store after) :
    after.Houses language products cells := by
  refine h.of_grows hadds (fun a b hab => by rw [hab])
    fun name product hproduct cell hcell p hp => ?_
  obtain ⟨cell', hcell', -, hparser⟩ := h.cell name product hproduct
  rw [hadds.cell?_eq_some hcell', Option.some.injEq] at hcell
  exact hparser p (hcell ▸ hp)

/-- A lazy parser may be changed if it gets no other parser than that of its rule. -/
theorem modifyCell (h : store.Houses language products cells) {id : CellId} {change : Cell → Cell}
    (hmake : ∀ cell, (change cell).make = cell.make)
    (hparser : ∀ name product, products.get? name = some product → id = cells name →
      ∀ cell p, (change cell).parser = some p → cell.parser = some p ∨ p = product.parser) :
    (store.modifyCell id change).Houses language products cells := by
  have hgrows : Grows (fun a b => b.make = a.make) store (store.modifyCell id change) :=
    grows_modifyCell store id change (fun _ => rfl) hmake
  refine h.of_grows hgrows (fun _ _ hab => hab) fun name product hproduct cell hcell p hp => ?_
  obtain ⟨old, hold, -, hbefore⟩ := h.cell name product hproduct
  rcases parser_of_modifyCell hold hcell hp with hp | ⟨hsame, hp⟩
  · exact hbefore p hp
  · rcases hparser name product hproduct hsame old p hp with hp | hp
    · exact hbefore p hp
    · exact hp

/-- Rules with the same lazy parser have the same parser. -/
theorem parser_eq (h : store.Houses language products cells) {name other : String}
    {product product' : Product} (hproduct : products.get? name = some product)
    (hproduct' : products.get? other = some product') (hsame : cells name = cells other) :
    product'.parser = product.parser := by
  obtain ⟨cell, hcell, hmakes, -⟩ := h.cell name product hproduct
  obtain ⟨cell', hcell', hmakes', -⟩ := h.cell other product' hproduct'
  rw [← hsame, hcell, Option.some.injEq] at hcell'
  subst hcell'
  -- performed in this store, the one maker makes both parsers
  have hperform := hmakes Engine.silent store fun _ hmention => (h.closed _ _ hproduct _ hmention).2
  have hperform' := hmakes' Engine.silent store fun _ hmention =>
    (h.closed _ _ hproduct' _ hmention).2
  rw [hperform] at hperform'
  simp only [Option.some.injEq, Prod.mk.injEq, Except.ok.injEq, Object.parser.injEq] at hperform'
  exact hperform'.1.symm

/-- Wherever the parsers are housed, the lazy parser of a rule makes the parser of the rule, with
any engine, and the parsers are housed afterwards. -/
theorem assemble (h : store.Houses language products cells) (engine : Engine Eval) {name : String}
    {product : Product} (hproduct : products.get? name = some product) :
    ∃ after, (engine.assemble (cells name)).on store = some (.ok product.parser, after) ∧
      after.Houses language products cells := by
  obtain ⟨⟨cellName, state, make, made⟩, hcell, hmakes, hparser⟩ := h.cell name product hproduct
  cases made with
  | some p =>
    rw [Engine.assemble_of_made hcell, hparser p rfl]
    exact ⟨store, rfl, h⟩
  | none =>
    -- the script is performed in a store that houses the same, with the lazy parser marked
    have hlogged := h.of_adds (adds_log store (.building cellName state))
    have hstarted : ((store.log (.building cellName state)).setState (cells name) .building).Houses
        language products cells := hlogged.modifyCell (fun _ => rfl) fun _ _ _ _ _ _ hp => .inl hp
    have hperform : (engine.perform make.action).on
        ((store.log (.building cellName state)).setState (cells name) .building) = _ :=
      hmakes engine _ fun mention hmention =>
        (hstarted.closed name product hproduct mention hmention).2
    have hset : (((store.log (.building cellName state)).setState (cells name)
        .building).setParser (cells name) product.parser).Houses language products cells := by
      -- another rule may have the same lazy parser, and then it has the same parser too
      refine hstarted.modifyCell (fun _ => rfl) fun other product' hproduct' hother cell p hp =>
        .inr ?_
      cases hp
      exact (h.parser_eq hproduct hproduct' hother).symm
    refine ⟨_, ?_, hset.of_adds (adds_log _ (.ready cellName))⟩
    rw [Engine.assemble_of_unmade hcell, hperform]
    rfl

/-- A new language houses what the makers of its class, and of the mapping it was given, make. -/
theorem of_create {className : String} {arguments : Table Value} {mapping : Table (Owner → Maker)}
    (hcreate : store.create className arguments mapping = .ok (language, after))
    (hrule : ∀ name ∈ products.names, after.Resolves language cells (.byName name))
    (hclosed : ∀ name product, products.get? name = some product →
      ∀ mention ∈ product.mentions,
        mention.name ∈ products.names ∧ after.Resolves language cells mention)
    (hmakes : ∀ cls name product maker, store.classNamed className = .ok cls →
      products.get? name = some product →
      (store.makers (store.classAt cls).lineage ⟨language, arguments⟩ mapping).get? name
        = some maker →
        maker.Makes language cells product.mentions product.parser) :
    after.Houses language products cells := by
  obtain ⟨cls, hcls, rfl, made, rfl, hmade⟩ := create_eq_ok hcreate
  have hat := instanceAt_push_self store made
  refine ⟨by simp, fun name hname => .inl (hrule name hname), hclosed,
    fun name product hproduct => ?_⟩
  have hname : name ∈ products.names := List.mem_map.mpr ⟨_, Table.mem_of_get? hproduct, rfl⟩
  obtain ⟨table, htable, hget⟩ := getRule_eq_ok (hrule name hname)
  rw [hat] at htable
  rcases hmade with rfl | rfl
  -- the lazy parser of the rule has the number of the maker of that name
  · cases htable
    obtain ⟨index, maker, hid, hindex, hmaker⟩ := Table.get?_numbered _ hget
    refine ⟨.unbuilt (lazyName name) maker, ?_, hmakes cls name product maker hcls hproduct hmaker,
      ?_⟩
    · unfold cell?
      rw [hid, hat]
      simp [cellsOf, hindex]
    · rintro p ⟨⟩
  · cases htable

end Store.Houses

end Descent
