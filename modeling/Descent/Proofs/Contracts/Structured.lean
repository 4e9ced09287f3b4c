import Descent.Proofs.Contracts

/-! # Structured parsers

A parser is **structured** when the combinators alone decide the shape of its values: no function of
a grammar computes them. What rules do in order to make such a parser is free. The values that a
grammar states itself can be restricted, and so can the combinators that drop a value.

* **`Parser.Structured`** — structured parsers, if what is known leads to structured parsers.
* **`Contract.Structural`** — what has to be shown of a contract for the primitives, and for values
  put together and taken apart.
* **`Parser.Structured.holds`** — main statement: structured parsers fulfil structural contracts. -/

namespace Descent

/-- The shape of a parser's values is up to the combinators. The values that a grammar states are
`constant`, and none is dropped unless `drops`. -/
inductive Parser.Structured (constant : Value → Prop) (drops : Prop) (known : Known) :
    Parser → Prop where
  /-- A text. -/
  | text (literal : String) : Structured constant drops known (.text literal)
  /-- A regular expression. -/
  | pattern (regex : Regex) : Structured constant drops known (.pattern regex)
  /-- A constant value without consuming anything. -/
  | ok {value : Value} (hvalue : constant value) : Structured constant drops known (.ok value)
  /-- A failure. -/
  | fail (labels : Labels) : Structured constant drops known (.fail labels)
  /-- The end of the source. -/
  | eof : Structured constant drops known .eof
  /-- The place. -/
  | location : Structured constant drops known .location
  /-- A sequence. -/
  | seq {parts : List Parser} (hparts : ∀ part ∈ parts, Structured constant drops known part) :
      Structured constant drops known (.seq parts)
  /-- A choice. -/
  | or {first second : Parser} (hfirst : Structured constant drops known first)
      (hsecond : Structured constant drops known second) :
      Structured constant drops known (.or first second)
  /-- The value of the second of two parsers. -/
  | next {self other : Parser} (hdrops : drops) (hself : Structured constant drops known self)
      (hother : Structured constant drops known other) :
      Structured constant drops known (self.next other)
  /-- The value of the first of two parsers. -/
  | skip {self other : Parser} (hdrops : drops) (hself : Structured constant drops known self)
      (hother : Structured constant drops known other) :
      Structured constant drops known (self.skip other)
  /-- A repeated parser. -/
  | many0 {self : Parser} (hself : Structured constant drops known self) :
      Structured constant drops known (.many0 self)
  /-- A parser repeated at least once. -/
  | many1 {self : Parser} (hself : Structured constant drops known self) :
      Structured constant drops known self.many1
  /-- A list with separators. -/
  | sepBy1 {self other : Parser} (hdrops : drops) (hself : Structured constant drops known self)
      (hother : Structured constant drops known other) :
      Structured constant drops known (self.sepBy1 other)
  /-- A list with separators that may be empty. -/
  | sepBy0 {self other : Parser} (hdrops : drops) (hself : Structured constant drops known self)
      (hother : Structured constant drops known other) :
      Structured constant drops known (self.sepBy0 other)
  /-- A node. -/
  | node {self : Parser} (hself : Structured constant drops known self) (name : String) :
      Structured constant drops known (self.node name)
  /-- A relabelled parser. -/
  | desc {self : Parser} (hself : Structured constant drops known self) (labels : Labels) :
      Structured constant drops known (.desc self labels)
  /-- A parser whose labels cannot be replaced. -/
  | undescribed {self : Parser} (hself : Structured constant drops known self) :
      Structured constant drops known self.undescribed
  /-- A known lazy parser. -/
  | lazy {cell : CellId} (hcell : Reference.cell cell ∈ known) :
      Structured constant drops known (.lazy cell)
  /-- A known parser that was put aside. -/
  | kept {number : Nat} (hnumber : Reference.kept number ∈ known) :
      Structured constant drops known (.kept number)

namespace Parser.Structured

variable {constant : Value → Prop} {drops : Prop} {known larger : Known} {self other : Parser}

/-- Knowing more does no harm. -/
theorem mono (hsub : known ⊆ larger) (h : self.Structured constant drops known) :
    self.Structured constant drops larger := by
  induction h with
  | text literal => exact .text literal
  | pattern regex => exact .pattern regex
  | ok hvalue => exact .ok hvalue
  | fail labels => exact .fail labels
  | eof => exact .eof
  | location => exact .location
  | seq _ ih => exact .seq ih
  | or _ _ ih ih' => exact .or ih ih'
  | next hdrops _ _ ih ih' => exact .next hdrops ih ih'
  | skip hdrops _ _ ih ih' => exact .skip hdrops ih ih'
  | many0 _ ih => exact .many0 ih
  | many1 _ ih => exact .many1 ih
  | sepBy1 hdrops _ _ ih ih' => exact .sepBy1 hdrops ih ih'
  | sepBy0 hdrops _ _ ih ih' => exact .sepBy0 hdrops ih ih'
  | node _ name ih => exact .node ih name
  | desc _ labels ih => exact .desc ih labels
  | undescribed _ ih => exact .undescribed ih
  | lazy hcell => exact .lazy (hsub hcell)
  | kept hnumber => exact .kept (hsub hnumber)

/-- Structured parsers are a family. -/
theorem monotone (constant : Value → Prop) (drops : Prop) :
    Family.Monotone (Parser.Structured constant drops) := fun _ _ hsub _ h => h.mono hsub

/-! ## The other combinators -/

theorem and (h : self.Structured constant drops known)
    (hother : other.Structured constant drops known) :
    (self.and other).Structured constant drops known := by
  refine .seq fun part hpart => ?_
  simp only [List.mem_cons, List.not_mem_nil, or_false] at hpart
  rcases hpart with rfl | rfl
  · exact h
  · exact hother

/-- The default is a value that the grammar states. -/
theorem opt (h : self.Structured constant drops known) {default : Value}
    (hdefault : constant default) : (self.opt default).Structured constant drops known :=
  .or h (.ok hdefault)

theorem wrap {before after : Parser} (hdrops : drops) (h : self.Structured constant drops known)
    (hbefore : before.Structured constant drops known)
    (hafter : after.Structured constant drops known) :
    (self.wrap before after).Structured constant drops known :=
  .skip hdrops (.next hdrops hbefore h) hafter

theorem trim (hdrops : drops) (h : self.Structured constant drops known)
    (hother : other.Structured constant drops known) :
    (self.trim other).Structured constant drops known := h.wrap hdrops hother hother

/-- Any labels may be given, even those that end a run when they are needed. -/
theorem described (h : self.Structured constant drops known) (labels : Labels) :
    (self.described labels).Structured constant drops known := by
  unfold Parser.described
  split
  · exact .desc h labels
  · exact .undescribed h

/-- Several parsers may be tried one after another. -/
theorem altOf (h : self.Structured constant drops known) {others : List Parser}
    (hothers : ∀ p ∈ others, p.Structured constant drops known) :
    (Parser.altOf self others).Structured constant drops known := by
  induction others generalizing self with
  | nil => exact h
  | cons second others ih =>
    rw [altOf_cons]
    exact ih (.or h (hothers second List.mem_cons_self))
      fun p hp => hothers p (List.mem_cons_of_mem _ hp)

end Parser.Structured

/-- What has to be shown of a contract so that structured parsers fulfil it. -/
structure Contract.Structural (constant : Value → Prop) (drops : Prop) (contract : Contract) :
    Prop where
  /-- A text. -/
  text : ∀ literal source place, contract.Of source place (Engine.textResult literal source place)
  /-- A regular expression. -/
  pattern : ∀ regex source place result, Engine.patternResult regex source place = .ok result →
    contract.Of source place result
  /-- A value that the grammar states. -/
  constant : ∀ value source place, constant value → contract source place place value
  /-- The absence of a value. -/
  nothing : ∀ source place, contract source place place .nothing
  /-- The place itself. -/
  position : ∀ source place, contract source place place (.position place)
  /-- The values of matches one after another, in a tuple. -/
  tuple : ∀ source place stop values, contract.Chain source place stop values →
    contract source place stop (.tuple values)
  /-- The values of matches one after another, in a list. -/
  list : ∀ source place stop values, contract.Chain source place stop values →
    contract source place stop (.list values)
  /-- A value in a node with the span of its match. -/
  node : ∀ source place stop value name, contract source place stop value →
    contract source place stop (.node name value place stop)
  /-- An item of a value. -/
  item : drops → ∀ source place stop value index, contract source place stop value →
    contract source place stop (value.item index)

namespace Parser.Fulfils

variable {constant : Value → Prop} {drops : Prop} {contract : Contract} {family : Family}
  {level : Nat} {known : Known} {self other : Parser}

/-- The item of a pair. -/
theorem pairItem (hcontract : contract.Structural constant drops) (hdrops : drops)
    (hself : self.Fulfils family level known contract)
    (hother : other.Fulfils family level known contract) (index : Nat) :
    ((Parser.seq [self, other]).mapValue (Value.item index)).Fulfils family level known
      contract := by
  have hpair : (Parser.seq [self, other]).Fulfils family level known contract := by
    refine .seq_chain (fun part hpart => ?_) hcontract.tuple
    simp only [List.mem_cons, List.not_mem_nil, or_false] at hpart
    rcases hpart with rfl | rfl
    · exact hself
    · exact hother
  exact hpair.mapValue fun source place stop value =>
    hcontract.item hdrops source place stop value index

/-- A node has the span of its match. -/
theorem node (hcontract : contract.Structural constant drops)
    (hself : self.Fulfils family level known contract) (name : String) :
    (self.node name).Fulfils family level known contract := by
  -- the places at both ends are as known as the value between them
  have hhere : Parser.location.Fulfils family level known Contract.here :=
    .location fun _ _ => ⟨rfl, rfl⟩
  have hspan : (Parser.seq [.location, self, .location]).Fulfils family level known
      fun source place stop value => ∃ inner,
        value = .tuple [.position place, inner, .position stop] ∧
          contract source place stop inner := by
    refine .seq [(.here, .location), (contract, self), (.here, .location)] ?_ ?_
    · simp only [List.mem_cons, List.not_mem_nil, or_false]
      rintro step (rfl | rfl | rfl)
      · exact hhere
      · exact hself
      · exact hhere
    · rintro source place stop values (_ | ⟨⟨rfl, rfl⟩, (_ | ⟨hinner, (_ | ⟨⟨rfl, rfl⟩, _ | _⟩)⟩)⟩)
      exact ⟨_, rfl, hinner⟩
  refine hspan.mapValue ?_
  rintro source place stop - ⟨inner, rfl, hinner⟩
  exact hcontract.node source place stop inner name hinner

/-- A list with separators. -/
theorem sepBy1 (hcontract : contract.Structural constant drops) (hdrops : drops)
    (hself : self.Fulfils family level known contract)
    (hother : other.Fulfils family level known contract) :
    (self.sepBy1 other).Fulfils family level known contract.listOf :=
  hself.consFrom (.many0 (pairItem hcontract hdrops hother hself 1))

/-- A list with separators that may be empty. -/
theorem sepBy0 (hcontract : contract.Structural constant drops) (hdrops : drops)
    (hself : self.Fulfils family level known contract)
    (hother : other.Fulfils family level known contract) :
    (self.sepBy0 other).Fulfils family level known contract.listOf := by
  have hopt : ((self.sepBy1 other).opt .nothing).Fulfils family level known
      fun source place stop value =>
        contract.listOf source place stop value ∨ stop = place ∧ value = .nothing :=
    .or ((sepBy1 hcontract hdrops hself hother).imp fun _ _ _ _ => .inl)
      (.ok fun _ _ => .inr ⟨rfl, rfl⟩)
  refine hopt.mapValue ?_
  rintro source place stop value (⟨values, rfl, hvalues⟩ | ⟨rfl, rfl⟩)
  · exact ⟨values, rfl, hvalues⟩
  · exact Contract.listOf_nil contract source stop

end Parser.Fulfils

namespace Parser.Structured

variable {constant : Value → Prop} {drops : Prop} {contract : Contract} {known : Known}
  {parser : Parser}

/-- Structured parsers fulfil structural contracts within any number of levels. -/
theorem fulfils (hcontract : contract.Structural constant drops) (level : Nat)
    (h : parser.Structured constant drops known) :
    parser.Fulfils (Parser.Structured constant drops) level known contract := by
  have hlist : ∀ source place stop value, contract.listOf source place stop value →
      contract source place stop value := by
    rintro source place stop - ⟨values, rfl, hvalues⟩
    exact hcontract.list source place stop values hvalues
  -- the level goes down where the parser is one of the store, and its parts are smaller elsewhere
  induction level generalizing known parser with
  | zero => exact .of_step fun _ hdepth => absurd hdepth (Nat.not_lt_zero _)
  | succ level ih =>
    induction h with
    | text literal => exact .text (hcontract.text literal)
    | pattern regex => exact .pattern (hcontract.pattern regex)
    | ok hvalue => exact .ok fun source place => hcontract.constant _ source place hvalue
    | fail labels => exact .fail labels
    | eof => exact .eof hcontract.nothing
    | location => exact .location hcontract.position
    | seq _ ihparts => exact .seq_chain ihparts hcontract.tuple
    | or _ _ ihfirst ihsecond => exact .or ihfirst ihsecond
    | next hdrops _ _ ihself ihother => exact .pairItem hcontract hdrops ihself ihother 1
    | skip hdrops _ _ ihself ihother => exact .pairItem hcontract hdrops ihself ihother 0
    | many0 _ ihself => exact (Fulfils.many0 ihself).imp hlist
    | many1 _ ihself => exact (ihself.consFrom (.many0 ihself)).imp hlist
    | sepBy1 hdrops _ _ ihself ihother =>
      exact (Fulfils.sepBy1 hcontract hdrops ihself ihother).imp hlist
    | sepBy0 hdrops _ _ ihself ihother =>
      exact (Fulfils.sepBy0 hcontract hdrops ihself ihother).imp hlist
    | node _ name ihself => exact .node hcontract ihself name
    | desc _ labels ihself => exact ihself.desc labels
    | undescribed _ ihself => exact ihself.undescribed
    | lazy hcell => exact .lazy (monotone constant drops) hcell fun _ _ _ => ih
    | kept hnumber => exact .kept hnumber fun _ _ _ => ih

/-- The matches of structured parsers fulfil structural contracts. -/
theorem holds (hcontract : contract.Structural constant drops) {store after : Store}
    (hstore : store.Grants (Parser.Structured constant drops) known)
    (hparser : parser.Structured constant drops known) {source : Source} {place stop : Position}
    {value : Value} {depth : Nat}
    (h : ((Engine.upTo depth).run parser source place).on store
      = some (.ok (.matched stop value), after)) :
    contract source place stop value := by
  have hfulfils := hparser.fulfils hcontract depth depth le_rfl known subset_rfl source place
  obtain ⟨_, _, hresult⟩ := hfulfils store hstore _ after h
  exact hresult _ rfl stop value rfl

end Parser.Structured

end Descent
