import Descent.Proofs.Rules.Houses

/-! # Stores that host rules

* **`Store.Hosts`** — the rules of a language lead to lazy parsers that make, or have made, the
  parsers of these rules.
* **`Body.makes`**, **`Definition.makes`** — the rules of mappings and of classes do.
* **`Store.hosts_iff`** — to host rules is to house their parsers.
* **`Store.Hosts.of_grows`** — a store hosts the rules while it grows.
* **`Store.Hosts.of_create`** — main statement: a new language hosts the rules it is made with. -/

namespace Descent

/-- The maker of a rule of a mapping. -/
def Body.maker (body : Body) (owner : Owner) : Maker := .mk (body.script owner.language)

/-- It makes the parser of the rule. -/
theorem Body.makes (body : Body) (owner : Owner) (cells : String → CellId) :
    (body.maker owner).Makes owner.language cells body.mentions (body.parser cells) :=
  fun _ _ h => body.perform_script h

/-- A rule of a class makes the parser of the rule. -/
theorem Definition.makes (name : String) (body : Body) (owner : Owner) (cells : String → CellId) :
    (Maker.mk (Definition.action ⟨name, none, fun owner => body.script owner.language⟩ owner)).Makes
      owner.language cells body.mentions (body.parser cells) :=
  fun _ _ h => Engine.perform_bind_ok (body.perform_script h) _

/-- If the rule has a name for error messages, it makes the parser with this label. -/
theorem Definition.makes_desc (name label : String) (body : Body) (owner : Owner)
    (cells : String → CellId) :
    (Maker.mk (Definition.action
        ⟨name, some (.str label), fun owner => body.script owner.language⟩ owner)).Makes
      owner.language cells (body.desc label []).mentions ((body.desc label []).parser cells) :=
  fun _ _ h => Engine.perform_bind_ok (body.perform_script h) _

/-- The rules of a language lead to lazy parsers that make, or have made, the parsers of these
rules. -/
structure Store.Hosts (store : Store) (language : InstanceId) (rules : Table Body)
    (cells : String → CellId) : Prop where
  /-- The language is there. -/
  there : language < store.instances.size
  /-- Each rule is found in the language, by its name or as an attribute. -/
  found : ∀ name ∈ rules.names, store.Resolves language cells (.byName name) ∨
    store.Resolves language cells (.byAttribute name)
  /-- The rules refer to each other only. -/
  closed : ∀ name body, rules.get? name = some body → ∀ mention ∈ body.mentions,
    mention.name ∈ rules.names ∧ store.Resolves language cells mention
  /-- The lazy parser of a rule makes the parser of the rule, and has made no other one. -/
  cell : ∀ name body, rules.get? name = some body → ∃ cell,
    store.cell? (cells name) = some cell ∧
      cell.make.Makes language cells body.mentions (body.parser cells) ∧
      ∀ p, cell.parser = some p → p = body.parser cells

/-- What comes of a rule, where `cells` are the lazy parsers of the rules. -/
def Body.product (cells : String → CellId) (body : Body) : Product :=
  ⟨body.mentions, body.parser cells⟩

/-- What comes of several rules. -/
def Table.products (rules : Table Body) (cells : String → CellId) : Table Product :=
  rules.map fun entry => (entry.1, entry.2.product cells)

theorem Table.get?_products {rules : Table Body} {name : String} {body : Body}
    (h : rules.get? name = some body) (cells : String → CellId) :
    (rules.products cells).get? name = some (body.product cells) := by
  rw [products, get?_map, h]
  rfl

theorem Table.exists_of_get?_products {rules : Table Body} {cells : String → CellId} {name : String}
    {product : Product} (h : (rules.products cells).get? name = some product) :
    ∃ body, rules.get? name = some body ∧ product = body.product cells := by
  rw [products, get?_map, Option.map_eq_some_iff] at h
  obtain ⟨body, hbody, rfl⟩ := h
  exact ⟨body, hbody, rfl⟩

namespace Store

variable {store after : Store} {language : InstanceId} {rules : Table Body}
  {cells : String → CellId}

/-- To host rules is to house their parsers. -/
theorem hosts_iff : store.Hosts language rules cells ↔
    store.Houses language (rules.products cells) cells := by
  have hnames : (rules.products cells).names = rules.names := Table.names_map _ rules
  constructor
  · intro h
    refine ⟨h.there, hnames ▸ h.found, fun name product hproduct => ?_,
      fun name product hproduct => ?_⟩
    · obtain ⟨body, hbody, rfl⟩ := Table.exists_of_get?_products hproduct
      rw [hnames]
      exact h.closed name body hbody
    · obtain ⟨body, hbody, rfl⟩ := Table.exists_of_get?_products hproduct
      exact h.cell name body hbody
  · intro h
    refine ⟨h.there, hnames ▸ h.found, fun name body hbody => ?_, fun name body hbody => ?_⟩
    · rw [← hnames]
      exact h.closed name _ (Table.get?_products hbody cells)
    · exact h.cell name _ (Table.get?_products hbody cells)

/-- Wherever the rules are hosted, the lazy parser of a rule makes the parser of the rule, with any
engine, and the rules are hosted afterwards. -/
theorem Hosts.assemble (h : store.Hosts language rules cells) (engine : Engine Eval)
    {name : String} {body : Body} (hbody : rules.get? name = some body) :
    ∃ after, (engine.assemble (cells name)).on store = some (.ok (body.parser cells), after) ∧
      after.Hosts language rules cells := by
  obtain ⟨after, hon, hafter⟩ :=
    (hosts_iff.mp h).assemble engine (Table.get?_products hbody cells)
  exact ⟨after, hon, hosts_iff.mpr hafter⟩

/-- A store that has grown hosts the same rules if their lazy parsers have made nothing else. -/
theorem Hosts.of_grows {keeps : Cell → Cell → Prop} (h : store.Hosts language rules cells)
    (hgrows : Grows keeps store after) (hmake : ∀ a b, keeps a b → b.make = a.make)
    (hparser : ∀ name body, rules.get? name = some body →
      ∀ cell, after.cell? (cells name) = some cell →
        ∀ p, cell.parser = some p → p = body.parser cells) :
    after.Hosts language rules cells := by
  refine hosts_iff.mpr ((hosts_iff.mp h).of_grows hgrows hmake fun name product hproduct => ?_)
  obtain ⟨body, hbody, rfl⟩ := Table.exists_of_get?_products hproduct
  exact hparser name body hbody

/-- A new language hosts the rules that it is made with: those of its class, and those of the
mapping it was given. -/
theorem Hosts.of_create {className : String} {arguments : Table Value}
    {mapping : Table (Owner → Maker)}
    (hcreate : store.create className arguments mapping = .ok (language, after))
    (hrule : ∀ name ∈ rules.names, after.Resolves language cells (.byName name))
    (hclosed : ∀ name body, rules.get? name = some body → ∀ mention ∈ body.mentions,
      mention.name ∈ rules.names ∧ after.Resolves language cells mention)
    (hmakes : ∀ cls name body maker, store.classNamed className = .ok cls →
      rules.get? name = some body →
      (store.makers (store.classAt cls).lineage ⟨language, arguments⟩ mapping).get? name
        = some maker →
        maker.Makes language cells body.mentions (body.parser cells)) :
    after.Hosts language rules cells := by
  have hnames : (rules.products cells).names = rules.names := Table.names_map _ rules
  refine hosts_iff.mpr (.of_create hcreate (hnames ▸ hrule) (fun name product hproduct => ?_)
    fun cls name product maker hcls hproduct hmaker => ?_)
  · obtain ⟨body, hbody, rfl⟩ := Table.exists_of_get?_products hproduct
    rw [hnames]
    exact hclosed name body hbody
  · obtain ⟨body, hbody, rfl⟩ := Table.exists_of_get?_products hproduct
    exact hmakes cls name body maker hcls hbody hmaker

end Store

end Descent
