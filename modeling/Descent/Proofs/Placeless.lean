import Descent.Proofs.Family

/-! # Placeless parsers

A parser is **placeless** when no part of it looks at anything but the text that remains: it is put
together from primitives and combinators, the place is not among them, and its regular expressions
match in the same way whatever text comes before. What its functions do is free. They are given
values, which know nothing of places.

* **`Regex.Placeless`** — an expression that matches the same whatever text comes before.
* **`Parser.Placeless`** — placeless parsers, if what is known leads to placeless parsers.
* **`Parser.Placeless.mono`** — knowing more does no harm. -/

namespace Descent

/-- Behind any text, an expression matches what it matches at the beginning of a source. -/
def Regex.Placeless (regex : Regex) : Prop :=
  ∀ text rest : Source, regex.matchAt? (text ++ rest) text.length = regex.matchAt? rest 0

/-- No part of a parser looks at anything but the text that remains. -/
inductive Parser.Placeless : Known → Parser → Prop where
  /-- A text. -/
  | text {known : Known} (literal : String) : Parser.Placeless known (.text literal)
  /-- A regular expression to which the text before does not matter. -/
  | pattern {known : Known} {regex : Regex} (hregex : regex.Placeless) :
      Parser.Placeless known (.pattern regex)
  /-- A value without consuming anything. -/
  | ok {known : Known} (value : Value) : Parser.Placeless known (.ok value)
  /-- A failure. -/
  | fail {known : Known} (labels : Labels) : Parser.Placeless known (.fail labels)
  /-- The end of the source. -/
  | eof {known : Known} : Parser.Placeless known .eof
  /-- A sequence of placeless parsers. -/
  | seq {known : Known} {parts : List Parser}
      (hparts : ∀ part ∈ parts, Parser.Placeless known part) : Parser.Placeless known (.seq parts)
  /-- A choice between placeless parsers. -/
  | or {known : Known} {first second : Parser} (hfirst : Parser.Placeless known first)
      (hsecond : Parser.Placeless known second) : Parser.Placeless known (.or first second)
  /-- A placeless parser with any function applied to its value. -/
  | map {known : Known} {of : Parser} (hof : Parser.Placeless known of)
      (fn : Value → Action Value) : Parser.Placeless known (.map of fn)
  /-- A placeless parser, then one of the placeless parsers that a function makes of its value and
  of what is known by then. -/
  | chain {known : Known} {of : Parser} {fn : Value → Action (Object Parser)}
      (hof : Parser.Placeless known of)
      (hfn : ∀ larger value, known ⊆ larger → Action.Makes Parser.Placeless larger (fn value)) :
      Parser.Placeless known (.chain of fn)
  /-- A repeated placeless parser. -/
  | many0 {known : Known} {of : Parser} (hof : Parser.Placeless known of) :
      Parser.Placeless known (.many0 of)
  /-- A relabelled placeless parser. -/
  | desc {known : Known} {of : Parser} (hof : Parser.Placeless known of) (labels : Labels) :
      Parser.Placeless known (.desc of labels)
  /-- A placeless parser whose labels cannot be replaced. -/
  | undescribed {known : Known} {of : Parser} (hof : Parser.Placeless known of) :
      Parser.Placeless known of.undescribed
  /-- A known lazy parser. -/
  | lazy {known : Known} {cell : CellId} (hcell : Reference.cell cell ∈ known) :
      Parser.Placeless known (.lazy cell)
  /-- A known parser that was put aside. -/
  | kept {known : Known} {number : Nat} (hnumber : Reference.kept number ∈ known) :
      Parser.Placeless known (.kept number)

namespace Parser.Placeless

variable {known larger : Known} {self other : Parser}

/-- Knowing more does no harm. -/
theorem mono {known larger : Known} (hsub : known ⊆ larger) {parser : Parser} :
    parser.Placeless known → parser.Placeless larger
  | .text literal => .text literal
  | .pattern hregex => .pattern hregex
  | .ok value => .ok value
  | .fail labels => .fail labels
  | .eof => .eof
  | .seq hparts => .seq fun part hpart => (hparts part hpart).mono hsub
  | .or hfirst hsecond => .or (hfirst.mono hsub) (hsecond.mono hsub)
  | .map hof fn => .map (hof.mono hsub) fn
  | .chain hof hfn =>
      .chain (hof.mono hsub) fun larger' value hlarger => hfn larger' value (hsub.trans hlarger)
  | .many0 hof => .many0 (hof.mono hsub)
  | .desc hof labels => .desc (hof.mono hsub) labels
  | .undescribed hof => .undescribed (hof.mono hsub)
  | .lazy hcell => .lazy (hsub hcell)
  | .kept hnumber => .kept (hsub hnumber)

/-- Placeless parsers are a family. -/
theorem monotone : Family.Monotone Parser.Placeless := fun _ _ hsub _ h => h.mono hsub

/-! ## The other combinators -/

theorem mapValue (h : self.Placeless known) (fn : Value → Value) :
    (self.mapValue fn).Placeless known := .map h _

theorem andThen (h : self.Placeless known) {fn : Value → Parser}
    (hfn : ∀ value, (fn value).Placeless known) : (self.andThen fn).Placeless known :=
  .chain h fun _ value hsub => .parser ((hfn value).mono hsub)

theorem and (h : self.Placeless known) (hother : other.Placeless known) :
    (self.and other).Placeless known := by
  refine .seq fun part hpart => ?_
  simp only [List.mem_cons, List.not_mem_nil, or_false] at hpart
  rcases hpart with rfl | rfl
  · exact h
  · exact hother

theorem next (h : self.Placeless known) (hother : other.Placeless known) :
    (self.next other).Placeless known := (h.and hother).mapValue _

theorem skip (h : self.Placeless known) (hother : other.Placeless known) :
    (self.skip other).Placeless known := (h.and hother).mapValue _

theorem consFrom (h : self.Placeless known) (hother : other.Placeless known) :
    (self.consFrom other).Placeless known := h.andThen fun _ => hother.mapValue _

theorem many1 (h : self.Placeless known) : self.many1.Placeless known := h.consFrom (.many0 h)

theorem sepBy1 (h : self.Placeless known) (hother : other.Placeless known) :
    (self.sepBy1 other).Placeless known := h.consFrom (.many0 (hother.next h))

theorem opt (h : self.Placeless known) (default : Value) : (self.opt default).Placeless known :=
  .or h (.ok default)

theorem sepBy0 (h : self.Placeless known) (hother : other.Placeless known) :
    (self.sepBy0 other).Placeless known := ((h.sepBy1 hother).opt _).mapValue _

theorem wrap {before after : Parser} (h : self.Placeless known) (hbefore : before.Placeless known)
    (hafter : after.Placeless known) : (self.wrap before after).Placeless known :=
  (hbefore.next h).skip hafter

theorem trim (h : self.Placeless known) (hother : other.Placeless known) :
    (self.trim other).Placeless known := h.wrap hother hother

/-- Any labels may be given, even those that end a run when they are needed. -/
theorem described (h : self.Placeless known) (labels : Labels) :
    (self.described labels).Placeless known := by
  unfold Parser.described
  split
  · exact .desc h labels
  · exact .undescribed h

theorem altOf (h : self.Placeless known) {others : List Parser}
    (hothers : ∀ p ∈ others, p.Placeless known) : (altOf self others).Placeless known := by
  induction others generalizing self with
  | nil => exact h
  | cons second others ih =>
    exact ih (.or h (hothers second List.mem_cons_self))
      fun p hp => hothers p (List.mem_cons_of_mem _ hp)

end Parser.Placeless

end Descent
