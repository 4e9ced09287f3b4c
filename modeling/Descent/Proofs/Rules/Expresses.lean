import Descent.Proofs.Rules

/-! # Parsers that express parsing expressions

* **`Expresses`** — a parser is put together in the way that a parsing expression is. Functions on
  values and labels leave no trace in the expression; a list of one and more is a sequence of one
  and of any number.
* **`Body.expresses`** — main statement: the parser of a rule expresses the rule's expression. -/

namespace Descent

/-- A parser is put together in the way that an expression is, where `names` are the names of the
rules and `cells` their lazy parsers. -/
inductive Expresses (names : List String) (cells : String → CellId) : Parser → Peg → Prop where
  /-- A text. -/
  | text (literal : String) :
      Expresses names cells (.text literal) (.terminal (.literal literal.toList))
  /-- A regular expression. -/
  | pattern (regex : Regex) : Expresses names cells (.pattern regex) (.terminal (.pattern regex))
  /-- A value without consuming anything. -/
  | ok (value : Value) : Expresses names cells (.ok value) .empty
  /-- A failure. -/
  | fail (labels : Labels) : Expresses names cells (.fail labels) .never
  /-- The end of the source. -/
  | eof : Expresses names cells .eof (.terminal .finish)
  /-- The place. -/
  | location : Expresses names cells .location .empty
  /-- A sequence of nothing. -/
  | seqNil : Expresses names cells (.seq []) .empty
  /-- A sequence of a first part and others. -/
  | seqCons {part : Parser} {parts : List Parser} {first second : Peg}
      (hpart : Expresses names cells part first)
      (hparts : Expresses names cells (.seq parts) second) :
      Expresses names cells (.seq (part :: parts)) (.seq first second)
  /-- A parser, then another that depends on its value in its value only. -/
  | andThen {of : Parser} {next : Value → Parser} {first second : Peg}
      (hof : Expresses names cells of first)
      (hnext : ∀ value, Expresses names cells (next value) second) :
      Expresses names cells (of.andThen next) (.seq first second)
  /-- A choice. -/
  | or {first second : Parser} {left right : Peg} (hfirst : Expresses names cells first left)
      (hsecond : Expresses names cells second right) :
      Expresses names cells (.or first second) (.choice left right)
  /-- A repetition. -/
  | many0 {of : Parser} {expr : Peg} (hof : Expresses names cells of expr) :
      Expresses names cells (.many0 of) (.star expr)
  /-- A function applied to the value. -/
  | mapValue {of : Parser} {expr : Peg} (hof : Expresses names cells of expr) (fn : Value → Value) :
      Expresses names cells (of.mapValue fn) expr
  /-- Other labels. -/
  | desc {of : Parser} {expr : Peg} (hof : Expresses names cells of expr) (labels : Labels) :
      Expresses names cells (.desc of labels) expr
  /-- A rule. -/
  | rule {name : String} (hname : name ∈ names) :
      Expresses names cells (.lazy (cells name)) (.rule name)

namespace Expresses

variable {names : List String} {cells : String → CellId} {a b c : Parser} {e f g : Peg}

/-- Two in turn. -/
theorem pair (ha : Expresses names cells a e) (hb : Expresses names cells b f) :
    Expresses names cells (.seq [a, b]) (.all [e, f]) := .seqCons ha (.seqCons hb .seqNil)

theorem next (ha : Expresses names cells a e) (hb : Expresses names cells b f) :
    Expresses names cells (a.next b) (.all [e, f]) := .mapValue (.pair ha hb) _

theorem skip (ha : Expresses names cells a e) (hb : Expresses names cells b f) :
    Expresses names cells (a.skip b) (.all [e, f]) := .mapValue (.pair ha hb) _

theorem wrap (ha : Expresses names cells a e) (hb : Expresses names cells b f)
    (hc : Expresses names cells c g) :
    Expresses names cells (a.wrap b c) (.all [.all [f, e], g]) := (hb.next ha).skip hc

theorem node (ha : Expresses names cells a e) (name : String) :
    Expresses names cells (a.node name) (.all [.empty, e, .empty]) :=
  .mapValue (.seqCons .location (.seqCons ha (.seqCons .location .seqNil))) _

/-- One, then the others of a list. -/
theorem consFrom (ha : Expresses names cells a e) (hb : Expresses names cells b f) :
    Expresses names cells (a.consFrom b) (.seq e f) := .andThen ha fun _ => .mapValue hb _

theorem many1 (ha : Expresses names cells a e) : Expresses names cells a.many1 (.seq e (.star e)) :=
  .consFrom ha (.many0 ha)

theorem sepBy1 (ha : Expresses names cells a e) (hb : Expresses names cells b f) :
    Expresses names cells (a.sepBy1 b) (.seq e (.star (.all [f, e]))) :=
  .consFrom ha (.many0 (hb.next ha))

theorem opt (ha : Expresses names cells a e) (default : Value) :
    Expresses names cells (a.opt default) (.choice e .empty) := .or ha (.ok default)

theorem sepBy0 (ha : Expresses names cells a e) (hb : Expresses names cells b f) :
    Expresses names cells (a.sepBy0 b) (.choice (.seq e (.star (.all [f, e]))) .empty) :=
  .mapValue (.opt (.sepBy1 ha hb) _) _

end Expresses

namespace Body

variable {names : List String} (cells : String → CellId)

mutual

/-- The parser of a rule expresses the expression of the rule. -/
theorem expresses : ∀ (body : Body), (∀ mention ∈ body.mentions, mention.name ∈ names) →
    Expresses names cells (body.parser cells) body.peg
  | .text literal, _ => .text literal
  | .pattern regex, _ => .pattern regex
  | .ok value, _ => .ok value
  | .fail label others, _ => .fail (labels label others)
  | .eof, _ => .eof
  | .location, _ => .location
  | .seq parts, h => expresses_seq parts h
  | .and a b, h =>
      have ⟨ha, hb⟩ := List.forall_mem_append.mp h
      .pair (expresses a ha) (expresses b hb)
  | .next a b, h =>
      have ⟨ha, hb⟩ := List.forall_mem_append.mp h
      .next (expresses a ha) (expresses b hb)
  | .skip a b, h =>
      have ⟨ha, hb⟩ := List.forall_mem_append.mp h
      .skip (expresses a ha) (expresses b hb)
  | .wrap of before after, h =>
      have ⟨hof, hrest⟩ := List.forall_mem_append.mp h
      have ⟨hbefore, hafter⟩ := List.forall_mem_append.mp hrest
      .wrap (expresses of hof) (expresses before hbefore) (expresses after hafter)
  | .trim of around, h =>
      have ⟨hof, haround⟩ := List.forall_mem_append.mp h
      .wrap (expresses of hof) (expresses around haround) (expresses around haround)
  | .node of name, h => .node (expresses of h) name
  | .or a b, h =>
      have ⟨ha, hb⟩ := List.forall_mem_append.mp h
      .or (expresses a ha) (expresses b hb)
  | .alt of others, h =>
      have ⟨hof, hothers⟩ := List.forall_mem_append.mp h
      expresses_alt others hothers _ _ (expresses of hof)
  | .opt of default, h => .opt (expresses of h) default
  | .many0 of, h => .many0 (expresses of h)
  | .many1 of, h => .many1 (expresses of h)
  | .sepBy0 of separator, h =>
      have ⟨hof, hseparator⟩ := List.forall_mem_append.mp h
      .sepBy0 (expresses of hof) (expresses separator hseparator)
  | .sepBy1 of separator, h =>
      have ⟨hof, hseparator⟩ := List.forall_mem_append.mp h
      .sepBy1 (expresses of hof) (expresses separator hseparator)
  | .desc of label others, h => .desc (expresses of h) (labels label others)
  | .map of fn, h => .mapValue (expresses of h) fn
  | .rule mention, h => .rule (h mention (List.mem_singleton_self mention))

/-- Several in turn express their expressions in turn. -/
theorem expresses_seq : ∀ (parts : List Body),
    (∀ mention ∈ mentions.allMentions parts, mention.name ∈ names) →
    Expresses names cells (.seq (parser.parsers cells parts)) (.all (peg.pegs parts))
  | [], _ => .seqNil
  | of :: others, h =>
      have ⟨hof, hothers⟩ := List.forall_mem_append.mp h
      .seqCons (expresses of hof) (expresses_seq others hothers)

/-- Several tried one after another express the choice between their expressions. -/
theorem expresses_alt : ∀ (others : List Body),
    (∀ mention ∈ mentions.allMentions others, mention.name ∈ names) → ∀ (p : Parser) (e : Peg),
    Expresses names cells p e →
    Expresses names cells (Parser.altOf p (parser.parsers cells others))
      (.first e (peg.pegs others))
  | [], _, _, _, hp => hp
  | of :: others, h, p, e, hp =>
      have ⟨hof, hothers⟩ := List.forall_mem_append.mp h
      expresses_alt others hothers (.or p (of.parser cells)) (.choice e of.peg)
        (.or hp (expresses of hof))

end

end Body

end Descent
