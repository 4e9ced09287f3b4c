import Descent.Proofs.Contracts.Placed

/-! # Spans of nodes

The value of a match is a tree in which nodes stand at some places. Their spans are nested as the
nodes are, and the spans of nodes that stand beside each other follow one another.

* **`Value.NodeAt`** — a node of a given span stands at a path in a value. A path tells for each
  value on the way which of the values inside it comes next, so the node further left has the
  smaller path, and a node contains those to whose paths its own leads.
* **`Value.Spanned`** — the law of spans, within the span of a match.
* **`Contract.tiles_spanned`** — this law is a contract about places.
* **`Parser.Structured.nodes_nested`** — main statement: structured parsers fulfil it. -/

namespace Descent

namespace Value

/-- The values directly inside a value. -/
def inside : Value → List Value
  | .list items => items
  | .tuple items => items
  | .node _ value _ _ => [value]
  | _ => []

/-- The value at a path. -/
def atPath : Value → List Nat → Option Value
  | value, [] => some value
  | value, index :: path => value.inside[index]?.bind fun found => found.atPath path

/-- A node of the given span stands at a path in a value. -/
def NodeAt (value : Value) (path : List Nat) (first last : Position) : Prop :=
  ∃ name inner, value.atPath path = some (.node name inner first last)

/-- There are no nodes in a value. -/
def Nodeless (value : Value) : Prop := ∀ path first last, ¬ value.NodeAt path first last

variable {value : Value} {path : List Nat} {first last place stop : Position}

theorem nodeAt_nil :
    value.NodeAt [] first last ↔ ∃ name inner, value = .node name inner first last := by
  simp only [NodeAt, atPath, Option.some.injEq]

theorem nodeAt_cons {index : Nat} : value.NodeAt (index :: path) first last ↔
    ∃ found, value.inside[index]? = some found ∧ found.NodeAt path first last := by
  simp only [NodeAt, atPath, Option.bind_eq_some_iff]
  constructor
  · rintro ⟨name, inner, found, hfound, hpath⟩
    exact ⟨found, hfound, name, inner, hpath⟩
  · rintro ⟨found, hfound, name, inner, hpath⟩
    exact ⟨name, inner, found, hfound, hpath⟩

/-- There are no nodes in what is no node itself and has nothing inside. -/
theorem nodeless_of_inside (hinside : value.inside = [])
    (hnode : ∀ name inner first last, value ≠ .node name inner first last) : value.Nodeless := by
  rintro (_ | ⟨index, path⟩) first last h
  · obtain ⟨name, inner, rfl⟩ := nodeAt_nil.mp h
    exact hnode name inner first last rfl
  · obtain ⟨found, hfound, -⟩ := nodeAt_cons.mp h
    rw [hinside] at hfound
    cases hfound

/-- A node in an item of a value is one in the value. -/
theorem nodeAt_of_item {index : Nat} (h : (value.item index).NodeAt path first last) :
    value.NodeAt (index :: path) first last := by
  have hnothing : Nodeless .nothing := nodeless_of_inside rfl nofun
  cases value with
  | tuple items =>
    rw [item_tuple, List.getD_eq_getElem?_getD] at h
    cases hitem : items[index]? with
    | none =>
      rw [hitem] at h
      exact absurd h (hnothing path first last)
    | some found =>
      rw [hitem] at h
      exact nodeAt_cons.mpr ⟨found, hitem, h⟩
  | _ => exact absurd h (hnothing path first last)

/-- The spans of the nodes in a value lie in the span of its match, those of nodes inside a node lie
in the span of that node, and those of nodes beside each other follow one another. -/
structure Spanned (source : Source) (place stop : Position) (value : Value) : Prop where
  /-- Every span lies in that of the match. -/
  span : ∀ path first last, value.NodeAt path first last →
    Position.Reaches source place first ∧ Position.Reaches source first last ∧
      Position.Reaches source last stop
  /-- The span of a node contains those of the nodes inside it. -/
  nested : ∀ path path' first last first' last', value.NodeAt path first last →
    value.NodeAt path' first' last' → path <+: path' →
    first.index ≤ first'.index ∧ last'.index ≤ last.index
  /-- The span of a node to the left ends before that of a node to the right begins. -/
  apart : ∀ path path' first last first' last', value.NodeAt path first last →
    value.NodeAt path' first' last' → path < path' → ¬ path <+: path' →
    last.index ≤ first'.index

/-- Without nodes there are no spans. -/
theorem Nodeless.spanned (h : value.Nodeless) (source : Source) (place stop : Position) :
    value.Spanned source place stop where
  span path first last hnode := absurd hnode (h path first last)
  nested path _ first last _ _ hnode := absurd hnode (h path first last)
  apart path _ first last _ _ hnode := absurd hnode (h path first last)

/-- An item of a value has the spans of the value. -/
theorem Spanned.item {source : Source} (h : value.Spanned source place stop) (index : Nat) :
    (value.item index).Spanned source place stop where
  span _ first last hnode := h.span _ first last (nodeAt_of_item hnode)
  nested _ _ first last first' last' hnode hnode' hprefix :=
    h.nested _ _ first last first' last' (nodeAt_of_item hnode) (nodeAt_of_item hnode')
      ((List.prefix_cons_inj index).mpr hprefix)
  apart _ _ first last first' last' hnode hnode' hlt hprefix :=
    h.apart _ _ first last first' last' (nodeAt_of_item hnode) (nodeAt_of_item hnode')
      (List.Lex.cons hlt) fun h => hprefix ((List.prefix_cons_inj index).mp h)

end Value

namespace Contract

/-- The law of spans. -/
def spanned : Contract := fun source place stop value => value.Spanned source place stop

variable {source : Source} {place stop : Position} {values : List Value} {whole : Value}

/-- What has the values of matches one after another inside, and is no node, has the spans of the
nodes in these values. -/
theorem spanned_of_chain (hplace : place.Within source)
    (hvalues : spanned.link.Chain source place stop values) (hinside : whole.inside = values)
    (hnode : ∀ name inner first last, whole ≠ .node name inner first last) :
    whole.Spanned source place stop := by
  subst hinside
  -- so every path to a node goes through one of the values inside
  have hcons : ∀ path first last, whole.NodeAt path first last → ∃ index rest value,
      path = index :: rest ∧ whole.inside[index]? = some value ∧ value.NodeAt rest first last := by
    rintro (_ | ⟨index, rest⟩) first last h
    · obtain ⟨name, inner, rfl⟩ := Value.nodeAt_nil.mp h
      exact absurd rfl (hnode name inner first last)
    · obtain ⟨value, hvalue, hrest⟩ := Value.nodeAt_cons.mp h
      exact ⟨index, rest, value, rfl, hvalue, hrest⟩
  refine ⟨?_, ?_, ?_⟩
  · intro path first last h
    obtain ⟨index, rest, value, rfl, hvalue, hrest⟩ := hcons path first last h
    obtain ⟨start, last', hto, ⟨hstart, -, hspanned⟩, hfrom⟩ :=
      hvalues.exists_of_getElem? hplace hvalue
    obtain ⟨hfirst, hspan, hlast⟩ := hspanned.span rest first last hrest
    have hlast' := (hspan.within (hfirst.within hstart))
    exact ⟨hto.trans hplace hfirst, hspan, hlast.trans hlast' hfrom⟩
  · intro path path' first last first' last' h h' hprefix
    obtain ⟨index, rest, value, rfl, hvalue, hrest⟩ := hcons path first last h
    obtain ⟨index', rest', value', rfl, hvalue', hrest'⟩ := hcons path' first' last' h'
    obtain ⟨rfl, hrests⟩ := List.cons_prefix_cons.mp hprefix
    obtain rfl : value = value' := Option.some.inj (hvalue.symm.trans hvalue')
    obtain ⟨_, _, -, ⟨-, -, hspanned⟩, -⟩ := hvalues.exists_of_getElem? hplace hvalue
    exact hspanned.nested rest rest' first last first' last' hrest hrest' hrests
  · intro path path' first last first' last' h h' hlt hprefix
    obtain ⟨index, rest, value, rfl, hvalue, hrest⟩ := hcons path first last h
    obtain ⟨index', rest', value', rfl, hvalue', hrest'⟩ := hcons path' first' last' h'
    cases hlt with
    | rel hindex =>
      -- the values in which they stand follow one another
      obtain ⟨start, middle, middle', stop', ⟨hstart, -, hspanned⟩, hbetween, hlink'⟩ :=
        hvalues.exists_of_lt hplace hindex hvalue hvalue'
      obtain ⟨-, -, hlast⟩ := hspanned.span rest first last hrest
      obtain ⟨hfirst, -, -⟩ := hlink'.2.2.span rest' first' last' hrest'
      exact (hlast.le_stop.trans hbetween.le_stop).trans hfirst.le_stop
    | cons hlt =>
      obtain rfl : value = value' := Option.some.inj (hvalue.symm.trans hvalue')
      obtain ⟨_, _, -, ⟨-, -, hspanned⟩, -⟩ := hvalues.exists_of_getElem? hplace hvalue
      exact hspanned.apart rest rest' first last first' last' hrest hrest' hlt
        fun h => hprefix (List.cons_prefix_cons.mpr ⟨rfl, h⟩)

/-- A node has its own span and those of the nodes in its value. -/
theorem spanned_node {value : Value} (name : String) (h : spanned.link source place stop value) :
    (Value.node name value place stop).Spanned source place stop := by
  obtain ⟨hplace, hreaches, hvalue⟩ := h
  -- below the node itself, every path goes through its only value
  have hcons : ∀ index rest first last,
      (Value.node name value place stop).NodeAt (index :: rest) first last →
        index = 0 ∧ value.NodeAt rest first last := by
    intro index rest first last h
    obtain ⟨found, hfound, hrest⟩ := Value.nodeAt_cons.mp h
    cases index with
    | zero =>
      cases hfound
      exact ⟨rfl, hrest⟩
    | succ index => cases hfound
  have hspan : ∀ path first last, (Value.node name value place stop).NodeAt path first last →
      Position.Reaches source place first ∧ Position.Reaches source first last ∧
        Position.Reaches source last stop := by
    rintro (_ | ⟨index, rest⟩) first last h
    · obtain ⟨_, _, heq⟩ := Value.nodeAt_nil.mp h
      cases heq
      exact ⟨.refl hplace, hreaches, .refl (hreaches.within hplace)⟩
    · exact hvalue.span rest first last (hcons index rest first last h).2
  refine ⟨hspan, ?_, ?_⟩
  · rintro (_ | ⟨index, rest⟩) path' first last first' last' h h' hprefix
    · obtain ⟨_, _, heq⟩ := Value.nodeAt_nil.mp h
      cases heq
      obtain ⟨hto, -, hfrom⟩ := hspan path' first' last' h'
      exact ⟨hto.le_stop, hfrom.le_stop⟩
    · obtain ⟨rest', rfl⟩ := hprefix
      exact hvalue.nested rest _ first last first' last' (hcons index rest first last h).2
        (hcons index _ first' last' h').2 (List.prefix_append rest rest')
  · rintro (_ | ⟨index, rest⟩) path' first last first' last' h h' hlt hprefix
    · exact absurd List.nil_prefix hprefix
    · obtain ⟨rfl, hrest⟩ := hcons index rest first last h
      cases path' with
      | nil => cases hlt
      | cons index' rest' =>
        obtain ⟨rfl, hrest'⟩ := hcons index' rest' first' last' h'
        cases hlt with
        | rel hindex => exact absurd hindex (Nat.lt_irrefl 0)
        | cons hlt =>
          exact hvalue.apart rest rest' first last first' last' hrest hrest' hlt
            fun h => hprefix (List.cons_prefix_cons.mpr ⟨rfl, h⟩)

/-- The law of spans is a contract about places, whatever values are dropped. -/
theorem tiles_spanned : spanned.Tiles Value.Nodeless True where
  text source place found _ _ _ :=
    (Value.nodeless_of_inside rfl (by simp)).spanned source place (place.advance found)
  constant source place value _ hvalue := hvalue.spanned source place place
  nothing source place _ := (Value.nodeless_of_inside rfl (by simp)).spanned source place place
  position source place _ := (Value.nodeless_of_inside rfl (by simp)).spanned source place place
  items source place stop values hplace hvalues :=
    ⟨spanned_of_chain hplace hvalues rfl (by simp), spanned_of_chain hplace hvalues rfl (by simp)⟩
  node source place stop value name hvalue := spanned_node name hvalue
  item _ source place stop value index hvalue := hvalue.2.2.item index

end Contract

/-- In the value of a match that started at an index of the source, the span of every node goes from
one place of the source to another, between the ends of the match. The span of a node contains those
of the nodes inside it, and of two nodes beside each other, the one to the left ends before the
other begins. -/
theorem Parser.Structured.nodes_nested {store after : Store} {known : Known}
    (hstore : store.Grants (Parser.Structured Value.Nodeless True) known) {parser : Parser}
    (hparser : parser.Structured Value.Nodeless True known) {source : Source} {index : Nat}
    (hindex : index ≤ source.length) {stop : Position} {value : Value} {depth : Nat}
    (h : ((Engine.upTo depth).run parser source
        (Position.start.advance (source.take index))).on store
      = some (.ok (.matched stop value), after)) :
    (∀ path first last, value.NodeAt path first last →
      first = Position.start.advance (source.take first.index.toNat) ∧
        last = Position.start.advance (source.take last.index.toNat) ∧
        index ≤ first.index ∧ first.index ≤ last.index ∧ last.index ≤ stop.index) ∧
      ∀ path path' first last first' last', value.NodeAt path first last →
        value.NodeAt path' first' last' →
        (path <+: path' → first.index ≤ first'.index ∧ last'.index ≤ last.index) ∧
          (path < path' → ¬ path <+: path' → last.index ≤ first'.index) := by
  have horigin : Position.start.Within source := ⟨le_rfl, Int.natCast_nonneg _⟩
  have hfrom : Position.Reaches source .start (Position.start.advance (source.take index)) :=
    .of_append horigin (List.take_append_drop index source).symm
  have hplace := hfrom.within horigin
  have hat : (Position.start.advance (source.take index)).index = index := by
    rw [Position.advance_index, List.length_take, Nat.min_eq_left hindex]
    exact Int.zero_add _
  obtain ⟨-, hspanned⟩ := Contract.tiles_spanned.holds hstore hparser hplace h
  refine ⟨fun path first last hnode => ?_, fun path path' first last first' last' hnode hnode' =>
    ⟨hspanned.nested path path' first last first' last' hnode hnode',
      hspanned.apart path path' first last first' last' hnode hnode'⟩⟩
  -- both ends of a span are reached from the start of the source
  obtain ⟨hto, hspan, hrest⟩ := hspanned.span path first last hnode
  have hfirst := hfrom.trans horigin hto
  have hlast := hfirst.trans horigin hspan
  have hle := hto.le_stop
  rw [hat] at hle
  exact ⟨hfirst.eq_start_advance, hlast.eq_start_advance, hle, hspan.le_stop, hrest.le_stop⟩

/-! ## A grammar of nested lists -/

/-- Lists in brackets, with commas and blanks between letters and other lists. -/
def nestedMaker (owner : Owner) : Maker :=
  .mk <| .rule owner.language "list" fun cell =>
    let item := Parser.or (.node (.text "a") "letter") (.lazy cell)
    let comma := Parser.trim (.text ",") (.many0 (.text " "))
    .done (.parser (.node (.wrap (.sepBy0 item comma) (.text "(") (.text ")")) "list"))

/-- A store with a language of that rule. -/
def nestedStore : Store :=
  { Store.initial false with
    instances := #[⟨Store.base, [], some [("list", ⟨0, 0⟩)],
      #[.unbuilt "list" (nestedMaker ⟨0, []⟩)]⟩] }

/-- The rule is structured. -/
theorem grants_nestedStore :
    nestedStore.Grants (Parser.Structured Value.Nodeless True)
      (Store.Honours.withLanguage nestedStore {.className Store.baseName} 0) := by
  have hcreate : (Store.initial false).create Store.baseName [] [("list", nestedMaker)]
      = .ok (0, nestedStore) := rfl
  refine (Store.Grants.initial false).create (Parser.Structured.monotone _ _) hcreate rfl
    fun entry hentry larger owner _ hl _ => ?_
  rw [List.mem_singleton] at hentry
  subst hentry
  refine .rule fun larger' cell hsub hcell => .parser (.node ?_ _)
  refine .wrap trivial ?_ (.text _) (.text _)
  refine .sepBy0 trivial (.or (.node (.text _) _) (.lazy (hcell hl))) ?_
  exact .trim trivial (.text _) (.many0 (.text _))

/-- A list with a letter and another list on the second line of a source. -/
theorem Parser.Structured.nodes_nested_list :
    let known := Store.Honours.withLanguage nestedStore {.className Store.baseName} 0
    let source : Source := ['?', '\n', '(', 'a', ' ', ',', '(', 'a', ')', ',', 'a', ')']
    let stop : Position := ⟨12, 2, 11⟩
    nestedStore.Grants (Parser.Structured Value.Nodeless True) known ∧
      (Parser.lazy ⟨0, 0⟩).Structured Value.Nodeless True known ∧ 2 ≤ source.length ∧
      ∃ value after,
      ((Engine.upTo 40).run (.lazy ⟨0, 0⟩) source
          (Position.start.advance (source.take 2))).on nestedStore
        = some (.ok (.matched stop value), after) ∧
      value.NodeAt [0, 0] ⟨3, 2, 2⟩ ⟨4, 2, 3⟩ ∧ value.NodeAt [0, 1] ⟨6, 2, 5⟩ ⟨9, 2, 8⟩ ∧
      (∀ path first last, value.NodeAt path first last →
        first = Position.start.advance (source.take first.index.toNat) ∧
          last = Position.start.advance (source.take last.index.toNat) ∧
          2 ≤ first.index ∧ first.index ≤ last.index ∧ last.index ≤ stop.index) ∧
        ∀ path path' first last first' last', value.NodeAt path first last →
          value.NodeAt path' first' last' →
          (path <+: path' → first.index ≤ first'.index ∧ last'.index ≤ last.index) ∧
            (path < path' → ¬ path <+: path' → last.index ≤ first'.index) := by
  intro known source stop
  have hparser : (Parser.lazy ⟨0, 0⟩).Structured Value.Nodeless True known :=
    .lazy (.inr (.inr (.inr ⟨0, rfl, rfl⟩)))
  have hindex : 2 ≤ source.length := by decide
  exact ⟨grants_nestedStore, hparser, hindex, _, _, rfl, ⟨"letter", .str "a", rfl⟩,
    ⟨"list", .list [.node "letter" (.str "a") ⟨7, 2, 6⟩ ⟨8, 2, 7⟩], rfl⟩,
    @Parser.Structured.nodes_nested _ _ _ grants_nestedStore _ hparser _ 2 hindex stop _ 40 rfl⟩

end Descent
