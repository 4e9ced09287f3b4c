import Descent.Proofs.Contracts.Placed

/-! # The text in a value

Where no value is dropped, the texts that stand in the value of a match are, one after another, the
text that was consumed. An alternative that was given up, a repetition that was broken off and one
that moved nothing leave nothing behind, and nothing is there twice.

* **`Value.letters`** — the texts in a value, one after another.
* **`Contract.tiles_letters`** — that these are the text consumed is a contract about places.
* **`Parser.Structured.letters_eq`** — main statement: structured parsers that drop nothing fulfil
  it. -/

namespace Descent

namespace Value

/-- The texts in a value, one after another: those of the items of lists and tuples, and those of
the value in a node. The names of nodes do not count. -/
def letters : Value → List Char
  | .str text => text.toList
  | .list items => lettersAll items
  | .tuple items => lettersAll items
  | .node _ value _ _ => value.letters
  | _ => []
where
  /-- The texts in several values, one after another. -/
  lettersAll : List Value → List Char
    | [] => []
    | value :: rest => value.letters ++ lettersAll rest

/-- A value holds no text. -/
def Textless (value : Value) : Prop := value.letters = []

end Value

namespace Contract

/-- The texts in the value are the text consumed. -/
def lettered : Contract := fun source place stop value =>
  value.letters = source.between place.index stop.index

variable {source : Source} {place stop : Position} {values : List Value}

/-- The texts in the values of matches one after another are the text consumed by all of them. -/
theorem lettersAll_of_chain (h : lettered.link.Chain source place stop values) :
    Value.letters.lettersAll values = source.between place.index stop.index ∧
      place.index ≤ stop.index := by
  induction h with
  | nil place => exact ⟨(Position.between_self source place.index).symm, le_rfl⟩
  | @cons place middle stop value values first _ ih =>
    obtain ⟨hplace, hreaches, hfirst⟩ := first
    obtain ⟨hrest, hle⟩ := ih
    refine ⟨?_, hreaches.le_stop.trans hle⟩
    calc Value.letters.lettersAll (value :: values)
        = value.letters ++ Value.letters.lettersAll values := rfl
      _ = source.between place.index middle.index ++ source.between middle.index stop.index := by
          rw [hfirst, hrest]
      _ = source.between place.index stop.index :=
          Position.between_append hplace.nonneg hreaches.le_stop hle

/-- That the texts in the value are the text consumed is a contract about places. -/
theorem tiles_letters : lettered.Tiles Value.Textless False where
  text source place found rest hplace hfound := by
    show (String.ofList found).toList = _
    rw [String.toList_ofList, Position.between_advance hplace hfound]
  constant source place value _ hvalue :=
    hvalue.trans (Position.between_self source place.index).symm
  nothing source place _ := (Position.between_self source place.index).symm
  position source place _ := (Position.between_self source place.index).symm
  items source place stop values _ hvalues :=
    ⟨(lettersAll_of_chain hvalues).1, (lettersAll_of_chain hvalues).1⟩
  node source place stop value name hvalue := hvalue.2.2
  item hdrops := hdrops.elim

end Contract

/-- The texts in the value of a match are, from left to right, exactly the text that was consumed,
whatever was tried and given up on the way. -/
theorem Parser.Structured.letters_eq {store after : Store} {known : Known}
    (hstore : store.Grants (Parser.Structured Value.Textless False) known) {parser : Parser}
    (hparser : parser.Structured Value.Textless False known) {source : Source}
    {place stop : Position} (hplace : place.Within source) {value : Value} {depth : Nat}
    (h : ((Engine.upTo depth).run parser source place).on store
      = some (.ok (.matched stop value), after)) :
    place.index ≤ stop.index ∧ stop.index ≤ source.length ∧
      value.letters = source.between place.index stop.index := by
  obtain ⟨hreaches, hletters⟩ := Contract.tiles_letters.holds hstore hparser hplace h
  exact ⟨hreaches.le_stop, hreaches.stop_le, hletters⟩

/-! ## A grammar that gives up a lot -/

/-- Groups in brackets: pairs of letters of which the first one does not tell which pair it is,
other groups, a letter that may be the beginning of another pair, and letters that are not there. -/
def groupsMaker (owner : Owner) : Maker :=
  .mk <| .rule owner.language "group" fun cell =>
    let pair := Parser.or (.and (.text "a") (.text "b")) (.and (.text "a") (.text "c"))
    let missing := Parser.many0 (.opt (.text "x") .nothing)
    let parts := [.text "(", .many0 (.or pair (.lazy cell)), .opt (.text "a") .nothing, missing,
      .text ")"]
    .done (.parser (.node (.seq parts) "group"))

/-- A store with a language of that rule. -/
def groupsStore : Store :=
  { Store.initial false with
    instances := #[⟨Store.base, [], some [("group", ⟨0, 0⟩)],
      #[.unbuilt "group" (groupsMaker ⟨0, []⟩)]⟩] }

/-- The rule is structured and drops nothing. -/
theorem grants_groupsStore :
    groupsStore.Grants (Parser.Structured Value.Textless False)
      (Store.Honours.withLanguage groupsStore {.className Store.baseName} 0) := by
  have hcreate : (Store.initial false).create Store.baseName [] [("group", groupsMaker)]
      = .ok (0, groupsStore) := rfl
  refine (Store.Grants.initial false).create (Parser.Structured.monotone _ _) hcreate rfl
    fun entry hentry larger owner _ hl _ => ?_
  rw [List.mem_singleton] at hentry
  subst hentry
  refine .rule fun larger' cell hsub hcell => .parser (.node (.seq fun part hpart => ?_) _)
  simp only [List.mem_cons, List.not_mem_nil, or_false] at hpart
  rcases hpart with rfl | rfl | rfl | rfl | rfl
  · exact .text _
  · have hpair : ∀ letter, (Parser.and (.text "a") (.text letter)).Structured Value.Textless False
        larger' := fun letter => .and (.text _) (.text letter)
    exact .many0 (.or (.or (hpair "b") (hpair "c")) (.lazy (hcell hl)))
  · exact .opt (.text _) rfl
  · exact .many0 (.opt (.text _) rfl)
  · exact .text _

/-- A group in a group, with a pair that is found at the second try, and a letter at the end that is
not the beginning of a pair. -/
theorem Parser.Structured.letters_eq_groups :
    let known := Store.Honours.withLanguage groupsStore {.className Store.baseName} 0
    let source : Source := ['(', 'a', 'c', '(', 'a', 'b', ')', 'a', ')', 'a']
    let stop : Position := ⟨9, 1, 10⟩
    groupsStore.Grants (Parser.Structured Value.Textless False) known ∧
      (Parser.lazy ⟨0, 0⟩).Structured Value.Textless False known ∧
      Position.start.Within source ∧ ∃ value after,
      ((Engine.upTo 24).run (.lazy ⟨0, 0⟩) source .start).on groupsStore
        = some (.ok (.matched stop value), after) ∧
      0 ≤ stop.index ∧ stop.index ≤ source.length ∧
      value.letters = source.between 0 stop.index := by
  intro known source stop
  have hparser : (Parser.lazy ⟨0, 0⟩).Structured Value.Textless False known :=
    .lazy (.inr (.inr (.inr ⟨0, rfl, rfl⟩)))
  have hplace : Position.start.Within source := ⟨by decide, by decide⟩
  exact ⟨grants_groupsStore, hparser, hplace, _, _, rfl,
    @Parser.Structured.letters_eq _ _ _ grants_groupsStore _ hparser _ _ stop hplace _ 24 rfl⟩

end Descent
