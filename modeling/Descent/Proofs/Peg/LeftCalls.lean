import Descent.Proofs.Peg
import Mathlib.Data.Fintype.EquivFin
import Mathlib.Order.WellFounded

/-! # Parsing expressions without left recursion

* **`Peg.Nullable`** — an expression may match the empty text, as far as one can tell without a
  source: the least relation that is closed under the ways in which that can come about.
* **`Peg.LeftCalls`** — an expression may get to a rule before it has consumed anything.
* **`Peg.LeftCall`** — one rule may get to another in this way.
* **`Peg.Advancing`** — terminals take nothing beyond some index.
* **`Peg.Derives.advances`** — a match that does not move on is one of a nullable expression, and
  every other match goes forward, but not beyond that index.
* **`Peg.exists_derives`** — main statement: if no rule gets to itself by left calls, something can
  be derived from every expression at every index. Repeating a nullable expression does no harm. -/

namespace Descent.Peg

/-- An expression may match the empty text. -/
inductive Nullable (rules : String → Option Peg) : Peg → Prop where
  /-- The empty text. -/
  | empty : Nullable rules .empty
  /-- A text without characters. -/
  | literal : Nullable rules (.terminal (.literal []))
  /-- Every regular expression. -/
  | pattern (regex : Regex) : Nullable rules (.terminal (.pattern regex))
  /-- The end of the source. -/
  | finish : Nullable rules (.terminal .finish)
  /-- A sequence of nullable parts. -/
  | seq {first second : Peg} (hfirst : Nullable rules first) (hsecond : Nullable rules second) :
      Nullable rules (.seq first second)
  /-- A choice with a nullable first side. -/
  | choiceFirst {first second : Peg} (hfirst : Nullable rules first) :
      Nullable rules (.choice first second)
  /-- A choice with a nullable second side. -/
  | choiceSecond {first second : Peg} (hsecond : Nullable rules second) :
      Nullable rules (.choice first second)
  /-- Every repetition. -/
  | star (of : Peg) : Nullable rules (.star of)
  /-- A rule with a nullable expression. -/
  | rule {name : String} {body : Peg} (hname : rules name = some body)
      (hbody : Nullable rules body) : Nullable rules (.rule name)

/-- An expression may get to a rule with only nullable expressions run before. -/
inductive LeftCalls (rules : String → Option Peg) : Peg → String → Prop where
  /-- A rule gets to itself at once. -/
  | rule (name : String) : LeftCalls rules (.rule name) name
  /-- A sequence starts with its first part. -/
  | seqFirst {first second : Peg} {name : String} (h : LeftCalls rules first name) :
      LeftCalls rules (.seq first second) name
  /-- It goes on with the second part, which is at the left if the first one is nullable. -/
  | seqSecond {first second : Peg} {name : String} (hfirst : Nullable rules first)
      (h : LeftCalls rules second name) : LeftCalls rules (.seq first second) name
  /-- A choice starts with its first side. -/
  | choiceFirst {first second : Peg} {name : String} (h : LeftCalls rules first name) :
      LeftCalls rules (.choice first second) name
  /-- The second side of a choice starts where the first one did. -/
  | choiceSecond {first second : Peg} {name : String} (h : LeftCalls rules second name) :
      LeftCalls rules (.choice first second) name
  /-- A repetition starts with what it repeats. -/
  | star {of : Peg} {name : String} (h : LeftCalls rules of name) : LeftCalls rules (.star of) name

/-- One rule may get to another with only nullable expressions run before. -/
def LeftCall (rules : String → Option Peg) (caller callee : String) : Prop :=
  ∃ body, rules caller = some body ∧ LeftCalls rules body callee

/-- The same relation on the names of rules, seen from the rule that is called. -/
def CalledBy (rules : String → Option Peg) (callee caller : {name // (rules name).isSome}) : Prop :=
  LeftCall rules caller.1 callee.1

/-- An expression mentions only names that are names of rules. -/
def Closed (rules : String → Option Peg) : Peg → Prop
  | .empty | .never | .terminal _ => True
  | .seq first second | .choice first second => Closed rules first ∧ Closed rules second
  | .star of => Closed rules of
  | .rule name => (rules name).isSome

/-- Terminals take nothing beyond an index, and only nullable ones take nothing at all. -/
structure Advancing (rules : String → Option Peg) (takes : Terminal → Int → Option Nat)
    (limit : Int) : Prop where
  /-- What is taken ends at the limit at the latest. -/
  le_limit : ∀ terminal index count, takes terminal index = some count → 0 < count →
    index + count ≤ limit
  /-- A terminal that takes nothing, and matches, is nullable. -/
  nullable : ∀ terminal index, takes terminal index = some 0 → Nullable rules (.terminal terminal)

variable {rules : String → Option Peg} {takes : Terminal → Int → Option Nat} {limit : Int}

/-! ## Operator by operator -/

section Operators

variable {a b : Peg} {name callee : String}

@[simp] theorem nullable_empty : Nullable rules .empty := .empty

@[simp] theorem not_nullable_never : ¬ Nullable rules .never := nofun

@[simp] theorem nullable_literal_iff {text : List Char} :
    Nullable rules (.terminal (.literal text)) ↔ text = [] := by
  constructor
  · rintro ⟨⟩
    rfl
  · rintro rfl
    exact .literal

@[simp] theorem nullable_seq_iff :
    Nullable rules (.seq a b) ↔ Nullable rules a ∧ Nullable rules b := by
  constructor
  · intro h
    cases h with
    | seq ha hb => exact ⟨ha, hb⟩
  · rintro ⟨ha, hb⟩
    exact .seq ha hb

@[simp] theorem nullable_choice_iff :
    Nullable rules (.choice a b) ↔ Nullable rules a ∨ Nullable rules b := by
  constructor
  · intro h
    cases h with
    | choiceFirst ha => exact .inl ha
    | choiceSecond hb => exact .inr hb
  · rintro (ha | hb)
    · exact .choiceFirst ha
    · exact .choiceSecond hb

@[simp] theorem nullable_star : Nullable rules (.star a) := .star a

theorem nullable_rule_iff {body : Peg} (hname : rules name = some body) :
    Nullable rules (.rule name) ↔ Nullable rules body := by
  constructor
  · intro h
    cases h with
    | rule hname' hbody =>
      rw [hname, Option.some.injEq] at hname'
      rw [hname']
      exact hbody
  · exact .rule hname

@[simp] theorem not_leftCalls_empty : ¬ LeftCalls rules .empty callee := nofun

@[simp] theorem not_leftCalls_never : ¬ LeftCalls rules .never callee := nofun

@[simp] theorem not_leftCalls_terminal {terminal : Terminal} :
    ¬ LeftCalls rules (.terminal terminal) callee := nofun

@[simp] theorem leftCalls_seq_iff : LeftCalls rules (.seq a b) callee ↔
    LeftCalls rules a callee ∨ (Nullable rules a ∧ LeftCalls rules b callee) := by
  constructor
  · intro h
    cases h with
    | seqFirst ha => exact .inl ha
    | seqSecond hnull hb => exact .inr ⟨hnull, hb⟩
  · rintro (ha | ⟨hnull, hb⟩)
    · exact .seqFirst ha
    · exact .seqSecond hnull hb

@[simp] theorem leftCalls_choice_iff : LeftCalls rules (.choice a b) callee ↔
    LeftCalls rules a callee ∨ LeftCalls rules b callee := by
  constructor
  · intro h
    cases h with
    | choiceFirst ha => exact .inl ha
    | choiceSecond hb => exact .inr hb
  · rintro (ha | hb)
    · exact .choiceFirst ha
    · exact .choiceSecond hb

@[simp] theorem leftCalls_star_iff :
    LeftCalls rules (.star a) callee ↔ LeftCalls rules a callee := by
  constructor
  · intro h
    cases h with
    | star ha => exact ha
  · exact .star

@[simp] theorem leftCalls_rule_iff : LeftCalls rules (.rule name) callee ↔ callee = name := by
  constructor
  · rintro ⟨⟩
    rfl
  · rintro rfl
    exact .rule _

end Operators

/-! ## Matches go forward -/

/-- A left call gets to a rule. -/
theorem LeftCalls.isSome {expr : Peg} {name : String} (h : LeftCalls rules expr name)
    (hclosed : expr.Closed rules) : (rules name).isSome := by
  induction h with
  | rule name => exact hclosed
  | seqFirst _ ih => exact ih hclosed.1
  | seqSecond _ _ ih => exact ih hclosed.2
  | choiceFirst _ ih => exact ih hclosed.1
  | choiceSecond _ ih => exact ih hclosed.2
  | star _ ih => exact ih hclosed

/-- A match stays where it is, and its expression is nullable, or it goes forward up to the limit at
most. -/
theorem Derives.advances (hadvancing : Advancing rules takes limit) {expr : Peg} {index : Int}
    {outcome : Option Int} (h : Derives rules takes expr index outcome) :
    ∀ stop, outcome = some stop →
      (stop = index ∧ Nullable rules expr) ∨ (index < stop ∧ stop ≤ limit) := by
  induction h with
  | empty =>
    rintro stop ⟨⟩
    exact .inl ⟨rfl, .empty⟩
  | never => rintro stop ⟨⟩
  | @taken terminal index count h =>
    rintro stop ⟨⟩
    rcases Nat.eq_zero_or_pos count with rfl | hpos
    -- what takes nothing has to be known to be nullable; the rest is known not to leave the source
    · exact .inl ⟨by omega, hadvancing.nullable terminal index h⟩
    · exact .inr ⟨by omega, hadvancing.le_limit terminal index count h hpos⟩
  | missed h => rintro stop ⟨⟩
  | seq _ _ ihfirst ihsecond =>
    rintro stop hstop
    -- the sequence stays only if both parts do, and where one part moves, so does the whole
    rcases ihfirst _ rfl with ⟨hmid, hfirst⟩ | ⟨hmid, hle⟩
    · rcases ihsecond stop hstop with ⟨hlast, hsecond⟩ | ⟨hlast, hle'⟩
      · exact .inl ⟨hlast.trans hmid, .seq hfirst hsecond⟩
      · exact .inr ⟨hmid ▸ hlast, hle'⟩
    · rcases ihsecond stop hstop with ⟨hlast, -⟩ | ⟨hlast, hle'⟩
      · exact .inr ⟨hlast ▸ hmid, hlast ▸ hle⟩
      · exact .inr ⟨hmid.trans hlast, hle'⟩
  | seqFailed _ _ => rintro stop ⟨⟩
  | choiceFirst _ ih =>
    rintro stop hstop
    exact (ih stop hstop).imp_left fun ⟨heq, hfirst⟩ => ⟨heq, .choiceFirst hfirst⟩
  | choiceSecond _ _ _ ihsecond =>
    rintro stop hstop
    exact (ihsecond stop hstop).imp_left fun ⟨heq, hsecond⟩ => ⟨heq, .choiceSecond hsecond⟩
  | starDone _ _ =>
    rintro stop ⟨⟩
    exact .inl ⟨rfl, .star _⟩
  | starStill _ _ =>
    rintro stop ⟨⟩
    exact .inl ⟨rfl, .star _⟩
  | starMore _ hmid _ ihof ihrest =>
    rintro stop hstop
    rcases ihof _ rfl with ⟨heq, -⟩ | ⟨hlt, hle⟩
    -- an iteration that stays would have been the last one
    · exact absurd heq hmid
    · rcases ihrest stop hstop with ⟨hlast, -⟩ | ⟨hlast, hle'⟩
      · exact .inr ⟨hlast ▸ hlt, hlast ▸ hle⟩
      · exact .inr ⟨hlt.trans hlast, hle'⟩
  | rule hname _ ih =>
    rintro stop hstop
    exact (ih stop hstop).imp_left fun ⟨heq, hbody⟩ => ⟨heq, .rule hname hbody⟩

/-! ## Everything ends -/

/-- Something can be derived from an expression at an index if that is so for the rules to which it
gets by left calls, and if it is so for all expressions further on. -/
theorem exists_derives_of_leftCalls (hadvancing : Advancing rules takes limit) {index : Int}
    (hfurther : ∀ expr, Closed rules expr → ∀ mid, index < mid → mid ≤ limit →
      ∃ outcome, Derives rules takes expr mid outcome) :
    ∀ expr, Closed rules expr →
      (∀ name, LeftCalls rules expr name →
        ∃ outcome, Derives rules takes (.rule name) index outcome) →
      ∃ outcome, Derives rules takes expr index outcome := by
  intro expr
  induction expr with
  | empty => exact fun _ _ => ⟨_, .empty⟩
  | never => exact fun _ _ => ⟨_, .never⟩
  | terminal terminal => exact fun _ _ => ⟨_, .ofTerminal rules takes terminal index⟩
  | seq first second ihfirst ihsecond =>
    intro hclosed hcalls
    obtain ⟨outcome, hfirst⟩ := ihfirst hclosed.1 fun name h => hcalls name (.seqFirst h)
    cases outcome with
    | none => exact ⟨_, .seqFailed hfirst⟩
    | some mid =>
      rcases hfirst.advances hadvancing mid rfl with ⟨rfl, hnullable⟩ | ⟨hlt, hle⟩
      · -- nothing was consumed, so the left calls of the second part are ones of the whole
        obtain ⟨outcome, hsecond⟩ :=
          ihsecond hclosed.2 fun name h => hcalls name (.seqSecond hnullable h)
        exact ⟨outcome, .seq hfirst hsecond⟩
      · obtain ⟨outcome, hsecond⟩ := hfurther second hclosed.2 mid hlt hle
        exact ⟨outcome, .seq hfirst hsecond⟩
  | choice first second ihfirst ihsecond =>
    intro hclosed hcalls
    obtain ⟨outcome, hfirst⟩ := ihfirst hclosed.1 fun name h => hcalls name (.choiceFirst h)
    cases outcome with
    | some stop => exact ⟨_, .choiceFirst hfirst⟩
    | none =>
      obtain ⟨outcome, hsecond⟩ := ihsecond hclosed.2 fun name h => hcalls name (.choiceSecond h)
      exact ⟨outcome, .choiceSecond hfirst hsecond⟩
  | star of ih =>
    intro hclosed hcalls
    obtain ⟨outcome, hof⟩ := ih hclosed fun name h => hcalls name (.star h)
    cases outcome with
    | none => exact ⟨_, .starDone hof⟩
    | some mid =>
      -- an iteration that stays ends the repetition, which so is run again further on only
      rcases hof.advances hadvancing mid rfl with ⟨rfl, -⟩ | ⟨hlt, hle⟩
      · exact ⟨_, .starStill hof⟩
      · obtain ⟨outcome, hrest⟩ := hfurther (.star of) hclosed mid hlt hle
        exact ⟨outcome, .starMore hof (ne_of_gt hlt) hrest⟩
  | rule name => exact fun _ hcalls => hcalls name (.rule name)

/-- If finitely many rules do not get to themselves by left calls, then following left calls comes
to an end. -/
theorem wellFounded_calledBy [Finite {name // (rules name).isSome}]
    (hacyclic : ∀ name, ¬ Relation.TransGen (LeftCall rules) name name) :
    WellFounded (CalledBy rules) := by
  have hirrefl : Std.Irrefl (Relation.TransGen (CalledBy rules)) := by
    refine ⟨fun name hcycle => hacyclic name.1 ?_⟩
    exact (Relation.transGen_swap.mp hcycle).lift Subtype.val fun _ _ h => h
  -- on a finite set, a transitive relation without loops has no endless chains
  have hwf := Finite.wellFounded_of_trans_of_irrefl (Relation.TransGen (CalledBy rules))
  refine Subrelation.wf ?_ hwf
  intro callee caller h
  exact .single h

/-- If no rule gets to itself by left calls, something can be derived from every expression at every
index. -/
theorem exists_derives [Finite {name // (rules name).isSome}]
    (hadvancing : Advancing rules takes limit)
    (hclosed : ∀ name body, rules name = some body → body.Closed rules)
    (hacyclic : ∀ name, ¬ Relation.TransGen (LeftCall rules) name name) (expr : Peg)
    (hexpr : expr.Closed rules) (index : Int) :
    ∃ outcome, Derives rules takes expr index outcome := by
  -- what is left of the source decreases whenever something is consumed
  induction hleft : (limit - index).toNat using Nat.strong_induction_on generalizing expr index with
  | _ left ih =>
    have hfurther : ∀ expr, Closed rules expr → ∀ mid, index < mid → mid ≤ limit →
        ∃ outcome, Derives rules takes expr mid outcome :=
      fun expr hexpr mid hlt hle => ih (limit - mid).toNat (by omega) expr hexpr mid rfl
    -- where nothing is consumed, the order of left calls decreases from rule to rule
    have hrule : ∀ name : {name // (rules name).isSome},
        ∃ outcome, Derives rules takes (.rule name.1) index outcome := by
      intro name
      induction name using (wellFounded_calledBy hacyclic).induction with
      | _ name ihname =>
        obtain ⟨body, hbody⟩ := Option.isSome_iff_exists.mp name.2
        have hcalls : ∀ callee, LeftCalls rules body callee →
            ∃ outcome, Derives rules takes (.rule callee) index outcome :=
          fun callee h => ihname ⟨callee, h.isSome (hclosed _ _ hbody)⟩ ⟨body, hbody, h⟩
        obtain ⟨outcome, h⟩ := exists_derives_of_leftCalls hadvancing hfurther body
          (hclosed _ _ hbody) hcalls
        exact ⟨outcome, .rule hbody h⟩
    exact exists_derives_of_leftCalls hadvancing hfurther expr hexpr
      fun name h => hrule ⟨name, h.isSome hexpr⟩

end Descent.Peg
