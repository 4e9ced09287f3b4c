import Descent.Engine.Depth
import Descent.Proofs.Peg.Sound

/-! # Parsing expressions are followed to the end

What can be derived from an expression is what a parser returns that expresses it, at some depth. A
regular expression cannot be matched at every index, so from an index that is too large, or too
small, a run may end with an error instead.

* **`Peg.Terminal.read_le`** — whatever is taken lies in the source.
* **`Peg.Answers`** — what a run may end with, for a derivation.
* **`Peg.Serves`** — every parser that expresses an expression ends so.
* **`Peg.Derives.serves`** — main statement: if something can be derived, parsers end so, by
  induction on the derivation. -/

namespace Descent

/-- The value of a sequence with these values before it, the last one first. -/
def Value.behind (values : List Value) : Value → Value
  | .tuple items => .tuple (values.reverse ++ items)
  | other => other

/-- A sequence depends on the values so far in its value only. -/
theorem Engine.sequence_values (engine : Engine Eval) (source : Source) (parts : List Parser)
    (values : List Value) (place : Position) :
    engine.sequence source parts values place
      = engine.sequence source parts [] place >>= fun result =>
          pure (result.mapValue (Value.behind values)) := by
  induction parts generalizing values place with
  | nil =>
    rw [sequence_nil, sequence_nil, pure_bind, Result.mapValue, Value.behind, List.reverse_nil,
      List.append_nil]
  | cons part parts ih =>
    rw [sequence, sequence, bind_assoc]
    congr 1
    funext result
    cases result with
    | failed failure => rfl
    | matched stop value =>
      -- both sides go on with a value more than `ih` was stated for, so it is used twice
      show engine.sequence source parts (value :: values) stop
        = engine.sequence source parts [value] stop >>= _
      rw [ih (value :: values) stop, ih [value] stop, bind_assoc]
      congr 1
      funext result
      rw [pure_bind]
      cases result with
      | failed failure => rfl
      | matched last value' =>
        cases value' with
        | tuple items =>
          simp only [Result.mapValue, Value.behind, List.reverse_cons, List.append_assoc,
            List.reverse_nil, List.nil_append]
        | _ => rfl

namespace Peg

variable {source : Source}

/-- A terminal that takes anything takes it within the source. -/
theorem Terminal.read_le {terminal : Terminal} {index : Int} {count : Nat}
    (h : terminal.read source index = some count) (hcount : 0 < count) :
    index + count ≤ source.length := by
  cases terminal with
  | literal text =>
    rw [Terminal.read] at h
    split at h
    · rename_i hstands
      cases h
      unfold Source.standsAt at hstands
      simp only [Bool.and_eq_true, decide_eq_true_eq, List.isPrefixOf_iff_prefix] at hstands
      -- the text is a prefix of what is left of the source, which has no more than that
      have hlength := hstands.2.length_le
      rw [List.length_drop] at hlength
      split at hstands
      · omega
      · omega
    · cases h
  | pattern regex =>
    rw [Terminal.read] at h
    obtain ⟨found, hfound, rfl⟩ := Option.map_eq_some_iff.mp h
    -- what is matched is a part of the source behind the index, wherever that was clamped to
    have hlength := congrArg List.length (Regex.matchAt?_append hfound)
    unfold Regex.clamp at hlength
    rw [List.length_append, List.length_drop, List.length_drop] at hlength
    omega
  | finish =>
    rw [Terminal.read] at h
    split at h
    · cases h
      omega
    · cases h

/-- Where something can be matched after something else, it could be matched before that. -/
theorem Derives.addressable {rules : String → Option Peg} {expr : Peg} {index stop : Int}
    (h : Derives rules (Terminal.read source) expr index (some stop))
    (hindex : Engine.isAddressable source index = true) :
    Engine.isAddressable source stop = true := by
  have hstay : ∀ (terminal : Terminal) (index : Int) (count : Nat),
      Engine.isAddressable source index = true → terminal.read source index = some count →
      Engine.isAddressable source (index + count) = true := by
    intro terminal index count hindex hread
    rcases Nat.eq_zero_or_pos count with rfl | hpos
    · rw [Int.natCast_zero, Int.add_zero]
      exact hindex
    -- what is taken ends in the source, and every index of the source is addressable
    · have hle := Terminal.read_le hread hpos
      simp only [Engine.isAddressable, Bool.or_eq_true, Bool.and_eq_true, decide_eq_true_eq]
        at hindex ⊢
      unfold Engine.indexBound at hindex ⊢
      omega
  exact (h.congr (fun _ _ _ => rfl) hstay hindex).2 stop rfl

/-- A regular expression may have to be matched for an expression. -/
inductive UsesPattern (rules : String → Option Peg) : Peg → Prop where
  /-- It is one. -/
  | pattern (regex : Regex) : UsesPattern rules (.terminal (.pattern regex))
  /-- The first part of a sequence uses one. -/
  | seqFirst {first second : Peg} (h : UsesPattern rules first) :
      UsesPattern rules (.seq first second)
  /-- The second part of a sequence uses one. -/
  | seqSecond {first second : Peg} (h : UsesPattern rules second) :
      UsesPattern rules (.seq first second)
  /-- The first side of a choice uses one. -/
  | choiceFirst {first second : Peg} (h : UsesPattern rules first) :
      UsesPattern rules (.choice first second)
  /-- The second side of a choice uses one. -/
  | choiceSecond {first second : Peg} (h : UsesPattern rules second) :
      UsesPattern rules (.choice first second)
  /-- What is repeated uses one. -/
  | star {of : Peg} (h : UsesPattern rules of) : UsesPattern rules (.star of)
  /-- The expression of a rule uses one. -/
  | rule {name : String} {body : Peg} (hname : rules name = some body)
      (h : UsesPattern rules body) : UsesPattern rules (.rule name)

/-- What a run may end with, for something derived from an expression: a result that says so, or the
error for an index at which no regular expression can be matched. -/
def Answers (rules : Table Body) (source : Source) (expr : Peg) (index : Int)
    (derived : Option Int) : Except Raised Result → Prop
  | .ok result => result.stop? = derived
  | .error cause => cause = .placeTooLarge ∧ Engine.isAddressable source index = false ∧
      expr.UsesPattern rules.pegs

/-- An error of a part is one of the whole. -/
theorem Answers.of_part {rules : Table Body} {expr expr' : Peg} {index : Int}
    {derived derived' : Option Int}
    (huses : expr.UsesPattern rules.pegs → expr'.UsesPattern rules.pegs)
    (cause : Raised) (herror : Answers rules source expr index derived (.error cause)) :
    Answers rules source expr' index derived' (.error cause) :=
  ⟨herror.1, herror.2.1, huses herror.2.2⟩

/-- An error at a later index is one of an earlier index. -/
theorem Answers.of_derives {rules : Table Body} {first expr : Peg} {index mid : Int}
    {derived : Option Int} {cause : Raised}
    (h : Derives rules.pegs (Terminal.read source) first index (some mid))
    (herror : Answers rules source expr mid derived (.error cause)) :
    Answers rules source expr index derived (.error cause) := by
  refine ⟨herror.1, ?_, herror.2.2⟩
  by_contra haddressable
  have hmid := h.addressable (Bool.not_eq_false _ ▸ haddressable)
  rw [herror.2.1] at hmid
  cases hmid

/-- All parsers that express an expression end with an answer, from all places of an index and in
all stores that host the rules. -/
def Serves (language : InstanceId) (rules : Table Body) (cells : String → CellId) (source : Source)
    (expr : Peg) (index : Int) (derived : Option Int) : Prop :=
  ∀ parser, Expresses rules.names cells parser expr → ∀ place : Position, place.index = index →
    Eval.Ends (·.Hosts language rules cells) (Answers rules source expr index derived)
      fun depth => (Engine.upTo depth).run parser source place

namespace Serves

variable {language : InstanceId} {rules : Table Body} {cells : String → CellId} {expr : Peg}
  {index : Int} {derived : Option Int}

/-- Functions on values and labels do not matter, so it is enough to look at the other parsers. -/
theorem of_bare
    (h : ∀ parser, Expresses rules.names cells parser expr → (∀ of fn, parser ≠ .map of fn) →
      (∀ of labels, parser ≠ .desc of labels) → ∀ place : Position, place.index = index →
        Eval.Ends (·.Hosts language rules cells) (Answers rules source expr index derived)
          fun depth => (Engine.upTo depth).step parser source place) :
    Serves language rules cells source expr index derived := by
  intro parser hexpr
  have hself := hexpr
  induction hexpr with
  | mapValue hof fn ih =>
    intro place hplace
    have hends := ih h hof place hplace
    refine .succ (hends.bind (fun result hresult => ?_) fun _ hcause => hcause)
    cases result with
    | failed failure => exact .pure hresult
    | matched stop value => exact .pure hresult
  | desc hof labels ih =>
    intro place hplace
    have hends := ih h hof place hplace
    refine .succ (hends.bind (fun result hresult => .pure ?_) fun _ hcause => hcause)
    rw [Answers, Result.stop?_relabel]
    exact hresult
  | _ =>
    -- any other parser is one of those that are looked at
    intro place hplace
    exact .succ (h _ hself (by simp [Parser.andThen]) (by simp [Parser.andThen]) place hplace)

/-- What comes after a match ends with an answer for the whole. -/
theorem after {family : Nat → Eval Result} {first part : Peg} {mid : Int}
    (hfirst : Derives rules.pegs (Terminal.read source) first index (some mid))
    (huses : part.UsesPattern rules.pegs → expr.UsesPattern rules.pegs)
    (h : Eval.Ends (·.Hosts language rules cells) (Answers rules source part mid derived) family) :
    Eval.Ends (·.Hosts language rules cells) (Answers rules source expr index derived) family := by
  refine h.imp fun outcome houtcome => ?_
  cases outcome with
  | ok result => exact houtcome
  | error cause => exact (houtcome.of_derives hfirst).of_part huses cause

/-- A sequence ends with the same answer after any values. -/
theorem sequence {parts : List Parser} {place : Position} (values : List Value)
    (h : Eval.Ends (·.Hosts language rules cells) (Answers rules source expr index derived)
      fun depth => (Engine.upTo depth).run (.seq parts) source place) :
    Eval.Ends (·.Hosts language rules cells) (Answers rules source expr index derived)
      fun depth => (Engine.upTo depth).sequence source parts values place := by
  have hvalue : ∀ result, Answers rules source expr index derived (.ok result) →
      Answers rules source expr index derived
        (.ok (result.mapValue (Value.behind values))) := by
    intro result hresult
    rw [Answers, Result.stop?_mapValue]
    exact hresult
  have hsame : (fun depth => (Engine.upTo depth).sequence source parts values place)
      = fun depth => (Engine.upTo (depth + 1)).run (.seq parts) source place >>=
          fun result => pure (result.mapValue (Value.behind values)) := by
    funext depth
    exact Engine.sequence_values _ source parts values place
  rw [hsame]
  exact h.shift.bind (fun result hresult => .pure (hvalue result hresult)) fun _ hcause => hcause

theorem empty : Serves language rules cells source .empty index (some index) := by
  refine of_bare fun parser hexpr hmap hdesc place hplace => ?_
  subst hplace
  cases hexpr with
  | ok value => exact .pure rfl
  | location => exact .pure rfl
  | seqNil => exact .pure rfl
  | mapValue hof fn => exact absurd rfl (hmap _ _)
  | desc hof labels => exact absurd rfl (hdesc _ _)

theorem never : Serves language rules cells source .never index none := by
  refine of_bare fun parser hexpr hmap hdesc place hplace => ?_
  cases hexpr with
  | fail labels => exact .pure rfl
  | mapValue hof fn => exact absurd rfl (hmap _ _)
  | desc hof labels => exact absurd rfl (hdesc _ _)

theorem terminal (terminal : Terminal) :
    Serves language rules cells source (.terminal terminal) index
      ((terminal.read source index).map fun count : Nat => index + count) := by
  refine of_bare fun parser hexpr hmap hdesc place hplace => ?_
  subst hplace
  cases hexpr with
  | text literal => exact .pure (Engine.stop?_textResult literal)
  | pattern regex =>
    refine .consult fun _ _ => ?_
    cases hresult : Engine.patternResult regex source place with
    | ok result => exact Engine.stop?_patternResult hresult
    | error cause =>
      unfold Engine.patternResult at hresult
      split at hresult
      · split at hresult
        · cases hresult
        · cases hresult
      · rename_i haddressable
        cases hresult
        exact ⟨rfl, Bool.eq_false_iff.mpr haddressable, .pattern regex⟩
  | eof => exact .pure Engine.stop?_eofResult
  | mapValue hof fn => exact absurd rfl (hmap _ _)
  | desc hof labels => exact absurd rfl (hdesc _ _)

/-- What goes on after a match ends with an answer if it does so for every such match. -/
theorem bind_matched {of : Peg} {mid : Int} {parser : Parser} {place : Position}
    {next : Nat → Result → Eval Result}
    (hof : Serves language rules cells source of index (some mid))
    (hexpr : Expresses rules.names cells parser of) (hplace : place.index = index)
    (huses : of.UsesPattern rules.pegs → expr.UsesPattern rules.pegs)
    (hnext : ∀ stop value, stop.index = mid →
      Eval.Ends (·.Hosts language rules cells) (Answers rules source expr index derived)
        fun depth => next depth (.matched stop value)) :
    Eval.Ends (·.Hosts language rules cells) (Answers rules source expr index derived)
      fun depth => (Engine.upTo depth).run parser source place >>= next depth := by
  refine (hof parser hexpr place hplace).bind (fun result hresult => ?_) (Answers.of_part huses)
  cases result with
  | failed failure => cases hresult
  | matched stop value => exact hnext stop value (Option.some.inj hresult)

/-- What goes on after a failure ends with an answer if it does so for every failure. -/
theorem bind_failed {of : Peg} {parser : Parser} {place : Position}
    {next : Nat → Result → Eval Result}
    (hof : Serves language rules cells source of index none)
    (hexpr : Expresses rules.names cells parser of) (hplace : place.index = index)
    (huses : of.UsesPattern rules.pegs → expr.UsesPattern rules.pegs)
    (hnext : ∀ failure,
      Eval.Ends (·.Hosts language rules cells) (Answers rules source expr index derived)
        fun depth => next depth (.failed failure)) :
    Eval.Ends (·.Hosts language rules cells) (Answers rules source expr index derived)
      fun depth => (Engine.upTo depth).run parser source place >>= next depth := by
  refine (hof parser hexpr place hplace).bind (fun result hresult => ?_) (Answers.of_part huses)
  cases result with
  | failed failure => exact hnext failure
  | matched stop value => cases hresult

theorem seq {first second : Peg} {mid : Int}
    (hderives : Derives rules.pegs (Terminal.read source) first index (some mid))
    (hfirst : Serves language rules cells source first index (some mid))
    (hsecond : Serves language rules cells source second mid derived) :
    Serves language rules cells source (.seq first second) index derived := by
  refine of_bare fun parser hexpr hmap hdesc place hplace => ?_
  cases hexpr with
  | seqCons hpart hparts =>
    refine bind_matched hfirst hpart hplace .seqFirst fun stop value hstop => ?_
    exact sequence [value] (after hderives .seqSecond (hsecond _ hparts stop hstop))
  | andThen hof hnext =>
    refine bind_matched hfirst hof hplace .seqFirst fun stop value hstop => ?_
    exact after hderives .seqSecond (hsecond _ (hnext value) stop hstop)
  | mapValue hof fn => exact absurd rfl (hmap _ _)
  | desc hof labels => exact absurd rfl (hdesc _ _)

theorem seqFailed {first : Peg} (second : Peg)
    (hfirst : Serves language rules cells source first index none) :
    Serves language rules cells source (.seq first second) index none := by
  refine of_bare fun parser hexpr hmap hdesc place hplace => ?_
  cases hexpr with
  | seqCons hpart hparts => exact bind_failed hfirst hpart hplace .seqFirst fun _ => .pure rfl
  | andThen hof hnext => exact bind_failed hfirst hof hplace .seqFirst fun _ => .pure rfl
  | mapValue hof fn => exact absurd rfl (hmap _ _)
  | desc hof labels => exact absurd rfl (hdesc _ _)

theorem choiceFirst {first : Peg} (second : Peg) {stop : Int}
    (hfirst : Serves language rules cells source first index (some stop)) :
    Serves language rules cells source (.choice first second) index (some stop) := by
  refine of_bare fun parser hexpr hmap hdesc place hplace => ?_
  cases hexpr with
  | or hleft hright =>
    refine bind_matched hfirst hleft hplace .choiceFirst fun _ _ hstop => ?_
    exact .pure (congrArg some hstop)
  | mapValue hof fn => exact absurd rfl (hmap _ _)
  | desc hof labels => exact absurd rfl (hdesc _ _)

theorem choiceSecond {first second : Peg}
    (hfirst : Serves language rules cells source first index none)
    (hsecond : Serves language rules cells source second index derived) :
    Serves language rules cells source (.choice first second) index derived := by
  refine of_bare fun parser hexpr hmap hdesc place hplace => ?_
  cases hexpr with
  | or hleft hright =>
    refine bind_failed hfirst hleft hplace .choiceFirst fun failure => ?_
    refine (hsecond _ hright place hplace).bind (fun result hresult => ?_)
      (Answers.of_part .choiceSecond)
    cases result with
    | matched stop value => exact .pure hresult
    | failed other => exact .pure hresult
  | mapValue hof fn => exact absurd rfl (hmap _ _)
  | desc hof labels => exact absurd rfl (hdesc _ _)

theorem starDone {of : Peg} (hof : Serves language rules cells source of index none) :
    Serves language rules cells source (.star of) index (some index) := by
  refine of_bare fun parser hexpr hmap hdesc place hplace => ?_
  cases hexpr with
  | many0 hpart =>
    exact bind_failed hof hpart hplace .star fun _ => .pure (congrArg some hplace)
  | mapValue hof fn => exact absurd rfl (hmap _ _)
  | desc hof labels => exact absurd rfl (hdesc _ _)

theorem starStill {of : Peg} (hof : Serves language rules cells source of index (some index)) :
    Serves language rules cells source (.star of) index (some index) := by
  refine of_bare fun parser hexpr hmap hdesc place hplace => ?_
  cases hexpr with
  | many0 hpart =>
    refine bind_matched hof hpart hplace .star fun stop value hstop => ?_
    simp only [hstop.trans hplace.symm, if_true]
    exact .pure (congrArg some hplace)
  | mapValue hof fn => exact absurd rfl (hmap _ _)
  | desc hof labels => exact absurd rfl (hdesc _ _)

theorem starMore {of : Peg} {mid : Int}
    (hderives : Derives rules.pegs (Terminal.read source) of index (some mid)) (hmid : mid ≠ index)
    (hof : Serves language rules cells source of index (some mid))
    (hrest : Serves language rules cells source (.star of) mid derived) :
    Serves language rules cells source (.star of) index derived := by
  refine of_bare fun parser hexpr hmap hdesc place hplace => ?_
  cases hexpr with
  | many0 hpart =>
    refine bind_matched hof hpart hplace .star fun stop value hstop => ?_
    have hmoved : ¬ stop.index = place.index := by
      rw [hstop, hplace]
      exact hmid
    simp only [hmoved, if_false]
    -- the rest of the repetition is run by the same parser, from where the match stopped
    have hends := after hderives id (hrest _ (.many0 hpart) stop hstop)
    refine hends.bind (fun result hresult => .pure ?_) fun _ hcause => hcause
    rw [Answers, Result.stop?_mapValue]
    exact hresult
  | mapValue hof fn => exact absurd rfl (hmap _ _)
  | desc hof labels => exact absurd rfl (hdesc _ _)

/-- The lazy parser of a rule is made, at some depth. -/
theorem build {name : String} {body : Body} (hbody : rules.get? name = some body) :
    Eval.Ends (·.Hosts language rules cells) (· = .ok (body.parser cells))
      fun depth => (Engine.upTo depth).build (cells name) := by
  refine .succ fun store hstore => ?_
  obtain ⟨after, hon, hafter⟩ := hstore.assemble Engine.silent hbody
  refine ⟨_, after, ⟨0, fun deeper hle => ?_⟩, hafter, rfl⟩
  exact Engine.assemble_below (Engine.below_upTo hle) (cells name) store _ hon

theorem rule {name : String} {body : Body} (hname : rules.get? name = some body)
    (hbody : Serves language rules cells source body.peg index derived) :
    Serves language rules cells source (.rule name) index derived := by
  refine of_bare fun parser hexpr hmap hdesc place hplace => ?_
  cases hexpr with
  | rule _ =>
    intro store hstore
    have hexpr := body.expresses cells fun mention hmention =>
      (hstore.closed name body hname mention hmention).1
    refine (build hname).bind (fun p hp => ?_) (fun _ hcause => ?_) store hstore
    · cases hp
      -- a lazy parser makes the parser of the rule, and that one expresses the body of the rule
      have hpeg : rules.pegs name = some body.peg := by rw [Table.pegs, hname, Option.map_some]
      refine (hbody _ hexpr place hplace).imp fun outcome houtcome => ?_
      cases outcome with
      | ok result => exact houtcome
      | error cause => exact houtcome.of_part (.rule hpeg) cause
    · cases hcause
  | mapValue hof fn => exact absurd rfl (hmap _ _)
  | desc hof labels => exact absurd rfl (hdesc _ _)

end Serves

/-- If something can be derived from an expression, the parsers that express it end with an
answer. -/
theorem Derives.serves (language : InstanceId) {rules : Table Body} (cells : String → CellId)
    {expr : Peg} {index : Int} {derived : Option Int}
    (h : Derives rules.pegs (Terminal.read source) expr index derived) :
    Serves language rules cells source expr index derived := by
  induction h with
  | empty => exact .empty
  | never => exact .never
  | @taken terminal index count h =>
    -- the parser says what the terminal takes, and that is what was derived
    have hserves : Serves language rules cells source (.terminal terminal) index _ :=
      .terminal terminal
    rw [h] at hserves
    exact hserves
  | @missed terminal index h =>
    have hserves : Serves language rules cells source (.terminal terminal) index _ :=
      .terminal terminal
    rw [h] at hserves
    exact hserves
  | seq hfirst _ ihfirst ihsecond => exact .seq hfirst ihfirst ihsecond
  | seqFailed _ ih => exact .seqFailed _ ih
  | choiceFirst _ ih => exact .choiceFirst _ ih
  | choiceSecond _ _ ihfirst ihsecond => exact .choiceSecond ihfirst ihsecond
  | starDone _ ih => exact .starDone ih
  | starStill _ ih => exact .starStill ih
  | starMore hof hmid _ ihof ihrest => exact .starMore hof hmid ihof ihrest
  | rule hname _ ih =>
    obtain ⟨body, hbody, rfl⟩ := Option.map_eq_some_iff.mp hname
    exact .rule hbody ih

end Peg

end Descent
