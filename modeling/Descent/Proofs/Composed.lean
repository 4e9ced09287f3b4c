import Descent.Proofs.Family

/-! # Composed parsers

A parser is **composed** when it is put together from the primitives and the combinators alone: no
part of it is written by hand, and every function by which it chooses a parser chooses a composed
one. What such a function does on the way there is free, and so is what a map function does: they
may run any parser, hand-written ones included.

Composed parsers are a family whose own functions have to make parsers of the family, so they and
their scripts are defined at once.

* **`Parser.Composed`** — a parser is composed, if what is known leads to composed parsers.
* **`Action.Composed`** — a script makes composed parsers only.
* **`Parser.Composed.mono`**, **`Action.Composed.mono`** — knowing more does no harm.
* **`Action.composed_iff_makes`** — scripts make composed parsers as they make those of any
  family. -/

namespace Descent

mutual

/-- A parser is put together from primitives and combinators. -/
inductive Parser.Composed : Known → Parser → Prop where
  /-- A text. -/
  | text {known : Known} (literal : String) : Parser.Composed known (.text literal)
  /-- A regular expression. -/
  | pattern {known : Known} (regex : Regex) : Parser.Composed known (.pattern regex)
  /-- A value without consuming anything. -/
  | ok {known : Known} (value : Value) : Parser.Composed known (.ok value)
  /-- A failure. -/
  | fail {known : Known} (labels : Labels) : Parser.Composed known (.fail labels)
  /-- The end of the source. -/
  | eof {known : Known} : Parser.Composed known .eof
  /-- The place. -/
  | location {known : Known} : Parser.Composed known .location
  /-- A sequence of composed parsers. -/
  | seq {known : Known} {parts : List Parser}
      (hparts : ∀ part ∈ parts, Parser.Composed known part) :
      Parser.Composed known (.seq parts)
  /-- A choice between composed parsers. -/
  | or {known : Known} {first second : Parser} (hfirst : Parser.Composed known first)
      (hsecond : Parser.Composed known second) : Parser.Composed known (.or first second)
  /-- A composed parser with any function applied to its value. -/
  | map {known : Known} {of : Parser} (hof : Parser.Composed known of)
      (fn : Value → Script Parser Maker Value) : Parser.Composed known (.map of fn)
  /-- A composed parser, then one of the composed parsers that a function makes. -/
  | chain {known : Known} {of : Parser} {fn : Value → Script Parser Maker (Object Parser)}
      (hof : Parser.Composed known of) (hfn : ∀ value, Action.Composed known (fn value)) :
      Parser.Composed known (.chain of fn)
  /-- A repeated composed parser. -/
  | many0 {known : Known} {of : Parser} (hof : Parser.Composed known of) :
      Parser.Composed known (.many0 of)
  /-- A relabelled composed parser. -/
  | desc {known : Known} {of : Parser} (hof : Parser.Composed known of) (labels : Labels) :
      Parser.Composed known (.desc of labels)
  /-- A composed parser whose labels cannot be replaced. -/
  | undescribed {known : Known} {of : Parser} (hof : Parser.Composed known of) :
      Parser.Composed known of.undescribed
  /-- A known lazy parser. -/
  | lazy {known : Known} {cell : CellId} (hcell : Reference.cell cell ∈ known) :
      Parser.Composed known (.lazy cell)
  /-- A known parser that was put aside. -/
  | kept {known : Known} {number : Nat} (hnumber : Reference.kept number ∈ known) :
      Parser.Composed known (.kept number)

/-- A script makes composed parsers only. -/
inductive Action.Composed : Known → Action (Object Parser) → Prop where
  /-- It ends with a composed parser. -/
  | parser {known : Known} {p : Parser} (hp : Parser.Composed known p) :
      Action.Composed known (.done (.parser p))
  /-- It ends with something that is no parser. -/
  | nonParser {known : Known} {object : Object Parser} (h : ∀ p, object ≠ .parser p) :
      Action.Composed known (.done object)
  /-- It ends with an error. -/
  | raise {known : Known} (cause : Raised) : Action.Composed known (.raise cause)
  /-- It leaves a note. -/
  | note {known : Known} {event : Event} {next : Action (Object Parser)}
      (hnext : Action.Composed known next) : Action.Composed known (.note event next)
  /-- It runs any parser. -/
  | run {known : Known} {parser : Parser} {source : Source} {start : Position}
      {next : Result → Action (Object Parser)}
      (hnext : ∀ result, Action.Composed known (next result)) :
      Action.Composed known (.run parser source start next)
  /-- It has any lazy parser made. -/
  | build {known : Known} {cell : CellId} {next : Action (Object Parser)}
      (hnext : Action.Composed known next) : Action.Composed known (.build cell next)
  /-- It gets a new lazy parser that makes composed parsers only. -/
  | defer {known : Known} {language : InstanceId} {name : String} {make : Maker}
      {next : CellId → Action (Object Parser)} (hhome : Reference.home language ∈ known)
      (hmake : Action.Composed known make.action)
      (hnext : ∀ larger cell, known ⊆ larger → Reference.cell cell ∈ larger →
        Action.Composed larger (next cell)) :
      Action.Composed known (.defer language name make next)
  /-- It gets some new lazy parser of which nothing is known. -/
  | deferUnknown {known : Known} {language : InstanceId} {name : String} {make : Maker}
      {next : CellId → Action (Object Parser)} (hnext : ∀ cell, Action.Composed known (next cell)) :
      Action.Composed known (.defer language name make next)
  /-- It asks for the stage of a lazy parser. -/
  | inspect {known : Known} {cell : CellId} {next : RuleState → String → Action (Object Parser)}
      (hnext : ∀ state shown, Action.Composed known (next state shown)) :
      Action.Composed known (.inspect cell next)
  /-- It asks for an attribute of a language. -/
  | lookUp {known : Known} {language : InstanceId} {name : String}
      {next : Object CellId → Action (Object Parser)}
      (hnext : ∀ larger found, known ⊆ larger →
        (Reference.language language ∈ known → found.Within larger (Reference.cell · ∈ larger)) →
        Action.Composed larger (next found)) :
      Action.Composed known (.lookUp language name next)
  /-- It asks for a rule of a language. -/
  | rule {known : Known} {language : InstanceId} {name : String}
      {next : CellId → Action (Object Parser)}
      (hnext : ∀ larger cell, known ⊆ larger →
        (Reference.language language ∈ known → Reference.cell cell ∈ larger) →
        Action.Composed larger (next cell)) :
      Action.Composed known (.rule language name next)
  /-- It gets a new language of a known class, with rules that make composed parsers only. -/
  | create {known : Known} {className : String} {arguments : List (String × Value)}
      {rules : List (String × (Owner → Maker))} {next : InstanceId → Action (Object Parser)}
      (hclass : Reference.className className ∈ known)
      (hrules : ∀ entry ∈ rules, ∀ larger owner, known ⊆ larger →
        Reference.language owner.language ∈ larger → Reference.home owner.language ∈ larger →
        Action.Composed larger (entry.2 owner).action)
      (hnext : ∀ larger language, known ⊆ larger → Reference.language language ∈ larger →
        Reference.home language ∈ larger → Action.Composed larger (next language)) :
      Action.Composed known (.create className arguments rules next)
  /-- It gets some new language of which nothing is known. -/
  | createUnknown {known : Known} {className : String} {arguments : List (String × Value)}
      {rules : List (String × (Owner → Maker))} {next : InstanceId → Action (Object Parser)}
      (hnext : ∀ language, Action.Composed known (next language)) :
      Action.Composed known (.create className arguments rules next)
  /-- It asks for what was put aside under a name. -/
  | fetch {known : Known} {name : String} {next : Object Handle → Action (Object Parser)}
      (hnext : ∀ larger found, known ⊆ larger →
        (Reference.shelved name ∈ known → found.Within larger (Handle.Within larger)) →
        Action.Composed larger (next found)) :
      Action.Composed known (.fetch name next)
  /-- It asks how often this was asked before. -/
  | count {known : Known} {counter : Nat} {next : Nat → Action (Object Parser)}
      (hnext : ∀ before, Action.Composed known (next before)) :
      Action.Composed known (.count counter next)

end

/-- An object is no parser, or a composed one. -/
def Object.Composed (known : Known) (object : Object Parser) : Prop :=
  ∀ p, object = .parser p → p.Composed known

/-- The body of a rule makes composed parsers only, once its language is known. -/
def RuleBody.Composed (known : Known) (body : Owner → Action (Object Parser)) : Prop :=
  ∀ larger owner, known ⊆ larger → Reference.language owner.language ∈ larger →
    Reference.home owner.language ∈ larger → Action.Composed larger (body owner)

/-! ## Knowing more -/

mutual

/-- A composed parser stays composed when more is known. -/
theorem Parser.Composed.mono {known larger : Known} (hsub : known ⊆ larger) {parser : Parser} :
    parser.Composed known → parser.Composed larger
  | .text literal => .text literal
  | .pattern regex => .pattern regex
  | .ok value => .ok value
  | .fail labels => .fail labels
  | .eof => .eof
  | .location => .location
  | .seq hparts => .seq fun part hpart => (hparts part hpart).mono hsub
  | .or hfirst hsecond => .or (hfirst.mono hsub) (hsecond.mono hsub)
  | .map hof fn => .map (hof.mono hsub) fn
  | .chain hof hfn => .chain (hof.mono hsub) fun value => (hfn value).mono hsub
  | .many0 hof => .many0 (hof.mono hsub)
  | .desc hof labels => .desc (hof.mono hsub) labels
  | .undescribed hof => .undescribed (hof.mono hsub)
  | .lazy hcell => .lazy (hsub hcell)
  | .kept hnumber => .kept (hsub hnumber)

/-- A script that makes composed parsers only still does when more is known. -/
theorem Action.Composed.mono {known larger : Known} (hsub : known ⊆ larger)
    {action : Action (Object Parser)} : Action.Composed known action → Action.Composed larger action
  | .parser hp => .parser (hp.mono hsub)
  | .nonParser h => .nonParser h
  | .raise cause => .raise cause
  | .note hnext => .note (hnext.mono hsub)
  | .run hnext => .run fun result => (hnext result).mono hsub
  | .build hnext => .build (hnext.mono hsub)
  | .defer hhome hmake hnext =>
      .defer (hsub hhome) (hmake.mono hsub) fun larger' cell h => hnext larger' cell (hsub.trans h)
  | .deferUnknown hnext => .deferUnknown fun cell => (hnext cell).mono hsub
  | .inspect hnext => .inspect fun state shown => (hnext state shown).mono hsub
  | .lookUp hnext =>
      .lookUp fun larger' found h hfound =>
        hnext larger' found (hsub.trans h) fun hl => hfound (hsub hl)
  | .rule hnext =>
      .rule fun larger' cell h hcell =>
        hnext larger' cell (hsub.trans h) fun hl => hcell (hsub hl)
  | .create hclass hrules hnext =>
      .create (hsub hclass)
        (fun entry hentry larger' owner h => hrules entry hentry larger' owner (hsub.trans h))
        fun larger' language h => hnext larger' language (hsub.trans h)
  | .createUnknown hnext => .createUnknown fun language => (hnext language).mono hsub
  | .fetch hnext =>
      .fetch fun larger' found h hfound =>
        hnext larger' found (hsub.trans h) fun hl => hfound (hsub hl)
  | .count hnext => .count fun before => (hnext before).mono hsub

end

/-- Composed parsers are a family. -/
theorem Parser.monotone_composed : Family.Monotone Parser.Composed :=
  fun _ _ hsub _ h => h.mono hsub

/-- What makes composed parsers only makes parsers of that family only. -/
theorem Action.Composed.makes {known : Known} {action : Action (Object Parser)} :
    Action.Composed known action → Action.Makes Parser.Composed known action
  | .parser hp => .parser hp
  | .nonParser h => .nonParser h
  | .raise cause => .raise cause
  | .note hnext => .note hnext.makes
  | .run hnext => .run fun result => (hnext result).makes
  | .build hnext => .build hnext.makes
  | .defer hhome hmake hnext =>
      .defer hhome hmake.makes fun larger cell h hcell => (hnext larger cell h hcell).makes
  | .deferUnknown hnext => .deferUnknown fun cell => (hnext cell).makes
  | .inspect hnext => .inspect fun state shown => (hnext state shown).makes
  | .lookUp hnext => .lookUp fun larger found h hfound => (hnext larger found h hfound).makes
  | .rule hnext => .rule fun larger cell h hcell => (hnext larger cell h hcell).makes
  | .create hclass hrules hnext =>
      .create hclass
        (fun entry hentry larger owner h hl hh => (hrules entry hentry larger owner h hl hh).makes)
        fun larger language h hl hh => (hnext larger language h hl hh).makes
  | .createUnknown hnext => .createUnknown fun language => (hnext language).makes
  | .fetch hnext => .fetch fun larger found h hfound => (hnext larger found h hfound).makes
  | .count hnext => .count fun before => (hnext before).makes

/-- Scripts make composed parsers as they make those of any family. -/
theorem Action.composed_iff_makes {known : Known} {action : Action (Object Parser)} :
    Action.Composed known action ↔ Action.Makes Parser.Composed known action := by
  refine ⟨Action.Composed.makes, fun h => ?_⟩
  induction h with
  | parser hp => exact .parser hp
  | nonParser h => exact .nonParser h
  | raise cause => exact .raise cause
  | note _ ih => exact .note ih
  | run _ ih => exact .run ih
  | build _ ih => exact .build ih
  | defer hhome _ _ ihmake ih => exact .defer hhome ihmake ih
  | deferUnknown _ ih => exact .deferUnknown ih
  | inspect _ ih => exact .inspect ih
  | lookUp _ ih => exact .lookUp ih
  | rule _ ih => exact .rule ih
  | create hclass _ _ ihrules ih => exact .create hclass ihrules ih
  | createUnknown _ ih => exact .createUnknown ih
  | fetch _ ih => exact .fetch ih
  | count _ ih => exact .count ih

/-! ## The other combinators

Each of them is defined from the ones above, so it composes composed parsers. -/

namespace Parser.Composed

variable {known : Known} {self other : Parser}

/-- A plain function may be applied to the value. -/
theorem mapValue (h : self.Composed known) (fn : Value → Value) :
    (self.mapValue fn).Composed known := .map h _

/-- A plain function may choose what comes next. -/
theorem andThen (h : self.Composed known) {fn : Value → Parser}
    (hfn : ∀ value, (fn value).Composed known) : (self.andThen fn).Composed known :=
  .chain h fun value => .parser (hfn value)

/-- Two parsers may stand in sequence. -/
theorem and (h : self.Composed known) (hother : other.Composed known) :
    (self.and other).Composed known := by
  refine .seq fun part hpart => ?_
  simp only [List.mem_cons, List.not_mem_nil, or_false] at hpart
  rcases hpart with rfl | rfl
  · exact h
  · exact hother

theorem next (h : self.Composed known) (hother : other.Composed known) :
    (self.next other).Composed known := (h.and hother).mapValue _

theorem skip (h : self.Composed known) (hother : other.Composed known) :
    (self.skip other).Composed known := (h.and hother).mapValue _

theorem consFrom (h : self.Composed known) (hother : other.Composed known) :
    (self.consFrom other).Composed known := h.andThen fun _ => hother.mapValue _

theorem many1 (h : self.Composed known) : self.many1.Composed known := h.consFrom (.many0 h)

theorem sepBy1 (h : self.Composed known) (hother : other.Composed known) :
    (self.sepBy1 other).Composed known := h.consFrom (.many0 (hother.next h))

theorem opt (h : self.Composed known) (default : Value) : (self.opt default).Composed known :=
  .or h (.ok default)

theorem sepBy0 (h : self.Composed known) (hother : other.Composed known) :
    (self.sepBy0 other).Composed known := ((h.sepBy1 hother).opt _).mapValue _

theorem wrap {before after : Parser} (h : self.Composed known) (hbefore : before.Composed known)
    (hafter : after.Composed known) : (self.wrap before after).Composed known :=
  (hbefore.next h).skip hafter

theorem trim (h : self.Composed known) (hother : other.Composed known) :
    (self.trim other).Composed known := h.wrap hother hother

theorem node (h : self.Composed known) (name : String) : (self.node name).Composed known := by
  refine mapValue (.seq fun part hpart => ?_) _
  simp only [List.mem_cons, List.not_mem_nil, or_false] at hpart
  rcases hpart with rfl | rfl | rfl
  · exact .location
  · exact h
  · exact .location

/-- Any labels may be given, even those that end a run when they are needed. -/
theorem described (h : self.Composed known) (labels : Labels) :
    (self.described labels).Composed known := by
  unfold Parser.described
  split
  · exact .desc h labels
  · exact .undescribed h

/-- Several parsers may be tried one after another. -/
theorem altOf (h : self.Composed known) {others : List Parser}
    (hothers : ∀ p ∈ others, p.Composed known) : (altOf self others).Composed known := by
  induction others generalizing self with
  | nil => exact h
  | cons second others ih =>
    rw [altOf_cons]
    exact ih (.or h (hothers second List.mem_cons_self))
      fun p hp => hothers p (List.mem_cons_of_mem _ hp)

end Parser.Composed

end Descent
