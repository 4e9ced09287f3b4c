import Descent.Proofs.Rules.Expresses
import Descent.Proofs.Rules.Hosts
import Descent.Proofs.Triples

/-! # Results follow parsing expressions

* **`Peg.Terminal.read`** — how much of a source the parsers for terminals take, at any index.
* **`Engine.Follows`** — what parsers return with an engine can be derived from the expressions that
  they express.
* **`Engine.follows_upTo`** — main statement: every engine is of this sort, by induction on its
  depth. -/

namespace Descent

/-- How many characters of a source the parser for a terminal takes at an index, if it matches
there. -/
def Peg.Terminal.read (source : Source) : Peg.Terminal → Int → Option Nat
  | .literal text, index => if source.standsAt text index then some text.length else none
  | .pattern regex, index => (regex.matchAt? source index).map List.length
  | .finish, index => if source.length ≤ index then some 0 else none

/-- Where a parser stopped, if it matched. -/
def Result.stop? : Result → Option Int
  | .matched stop _ => some stop.index
  | .failed _ => none

@[simp] theorem Result.stop?_mapValue (result : Result) (fn : Value → Value) :
    (result.mapValue fn).stop? = result.stop? := by
  cases result with
  | matched stop value => rfl
  | failed failure => rfl

@[simp] theorem Result.stop?_relabel (result : Result) (labels : Labels) (place : Position) :
    (Engine.relabel labels place result).stop? = result.stop? := by
  cases result with
  | matched stop value => rfl
  | failed failure =>
    unfold Engine.relabel
    simp only
    split
    · rfl
    · rfl

/-- The parsing expressions of rules by name. -/
def Table.pegs (rules : Table Body) (name : String) : Option Peg := (rules.get? name).map Body.peg

/-- What a result says, as an expression derives it from the index where the parser started. -/
abbrev Peg.Says (rules : Table Body) (source : Source) (expr : Peg) (index : Int)
    (result : Result) : Prop :=
  Peg.Derives rules.pegs (Peg.Terminal.read source) expr index result.stop?

namespace Engine

variable {source : Source} {place : Position}

theorem stop?_textResult (literal : String) :
    (textResult literal source place).stop?
      = (Peg.Terminal.read source (.literal literal.toList) place.index).map
          fun count : Nat => place.index + count := by
  rw [textResult, Peg.Terminal.read]
  by_cases h : source.standsAt literal.toList place.index
  · rw [if_pos h, if_pos h, Result.stop?, Position.advance_index]
    rfl
  · rw [if_neg h, if_neg h]
    rfl

theorem stop?_patternResult {regex : Regex} {result : Result}
    (h : patternResult regex source place = .ok result) :
    result.stop? = (Peg.Terminal.read source (.pattern regex) place.index).map
      fun count : Nat => place.index + count := by
  unfold patternResult at h
  rw [Peg.Terminal.read]
  split at h
  · split at h
    · rename_i found hfound
      cases h
      rw [hfound, Result.stop?, Position.advance_index]
      rfl
    · rename_i hnone
      cases h
      rw [hnone]
      rfl
  · cases h

theorem stop?_eofResult :
    (eofResult source place).stop? = (Peg.Terminal.read source .finish place.index).map
      fun count : Nat => place.index + count := by
  rw [eofResult, Peg.Terminal.read]
  by_cases h : (source.length : Int) ≤ place.index
  · rw [if_pos h, if_pos h, Result.stop?]
    simp
  · rw [if_neg h, if_neg h]
    rfl

end Engine

/-- The result of a terminal's parser says how far the terminal takes the source. -/
theorem Peg.Says.terminal {rules : Table Body} {source : Source} {terminal : Peg.Terminal}
    {index : Int} {result : Result}
    (h : result.stop? = (Peg.Terminal.read source terminal index).map
      fun count : Nat => index + count) :
    Peg.Says rules source (.terminal terminal) index result := by
  rw [Peg.Says, h]
  exact .ofTerminal _ _ terminal index

namespace Engine

/-- What parsers return with an engine can be derived from the expressions that they express, and
the lazy parsers of rules make the parsers of the rules. -/
structure Follows (engine : Engine Eval) (language : InstanceId) (rules : Table Body)
    (cells : String → CellId) : Prop where
  /-- Running parsers. -/
  run : ∀ parser expr, Expresses rules.names cells parser expr → ∀ source place,
    (engine.run parser source place).Meets (·.Hosts language rules cells)
      fun result => Peg.Says rules source expr place.index result
  /-- Having lazy parsers made. -/
  build : ∀ name body, rules.get? name = some body →
    (engine.build (cells name)).Meets (·.Hosts language rules cells)
      fun parser => parser = body.parser cells

namespace Follows

variable {engine : Engine Eval} {language : InstanceId} {rules : Table Body}
  {cells : String → CellId}

/-- A sequence follows the sequence of expressions. -/
theorem sequence (h : engine.Follows language rules cells) (source : Source) (parts : List Parser) :
    ∀ expr, Expresses rules.names cells (.seq parts) expr → ∀ values place,
      (engine.sequence source parts values place).Meets (·.Hosts language rules cells)
        fun result => Peg.Says rules source expr place.index result := by
  induction parts with
  | nil =>
    intro expr hexpr values place
    cases hexpr with
    | seqNil => exact .pure .empty
  | cons part parts ih =>
    intro expr hexpr values place
    cases hexpr with
    | seqCons hpart hparts =>
      refine (h.run part _ hpart source place).bind fun result hresult => ?_
      cases result with
      | failed failure => exact .pure (.seqFailed hresult)
      | matched stop value =>
        exact (ih _ hparts (value :: values) stop).imp fun result hrest => .seq hresult hrest

/-- A parser follows the expression that it expresses. -/
theorem step (h : engine.Follows language rules cells) {parser : Parser} {expr : Peg}
    (hexpr : Expresses rules.names cells parser expr) (source : Source) (place : Position) :
    (engine.step parser source place).Meets (·.Hosts language rules cells)
      fun result => Peg.Says rules source expr place.index result := by
  cases hexpr with
  | text literal => exact .pure (Peg.Says.terminal (stop?_textResult literal))
  | pattern regex =>
    exact .consult fun _ result _ hresult => Peg.Says.terminal (stop?_patternResult hresult)
  | ok value => exact .pure .empty
  | fail labels => exact .pure .never
  | eof => exact .pure (Peg.Says.terminal stop?_eofResult)
  | location => exact .pure .empty
  | seqNil => exact .pure .empty
  | seqCons hpart hparts => exact h.sequence source _ _ (.seqCons hpart hparts) [] place
  | andThen hof hnext =>
    refine (h.run _ _ hof source place).bind fun result hresult => ?_
    cases result with
    | failed failure => exact .pure (.seqFailed hresult)
    | matched stop value =>
      exact (h.run _ _ (hnext value) source stop).imp fun result hrest => .seq hresult hrest
  | or hfirst hsecond =>
    refine (h.run _ _ hfirst source place).bind fun result hresult => ?_
    cases result with
    | matched stop value => exact .pure (.choiceFirst hresult)
    | failed failure =>
      refine (h.run _ _ hsecond source place).bind fun result' hresult' => ?_
      cases result' with
      | matched stop value => exact .pure (.choiceSecond hresult hresult')
      | failed other => exact .pure (.choiceSecond hresult hresult')
  | many0 hof =>
    refine (h.run _ _ hof source place).bind fun result hresult => ?_
    cases result with
    | failed failure => exact .pure (.starDone hresult)
    | matched stop value =>
      by_cases still : stop.index = place.index
      · simp only [still, if_true]
        rw [Peg.Says, Result.stop?, still] at hresult
        exact .pure (.starStill hresult)
      · simp only [still, if_false]
        refine (h.run _ _ (.many0 hof) source stop).bind fun result' hresult' => .pure ?_
        rw [Peg.Says, Result.stop?_mapValue]
        exact .starMore hresult still hresult'
  | mapValue hof fn =>
    refine (h.run _ _ hof source place).bind fun result hresult => ?_
    cases result with
    | failed failure => exact .pure hresult
    | matched stop value => exact .pure hresult
  | desc hof labels =>
    refine (h.run _ _ hof source place).bind fun result hresult => .pure ?_
    rw [Peg.Says, Result.stop?_relabel]
    exact hresult
  | rule hname =>
    -- the store says which rule it is, so it is looked at before the lazy parser is made
    intro store hstore
    obtain ⟨⟨name, body⟩, hentry, rfl⟩ := List.mem_map.mp hname
    obtain ⟨body', hbody⟩ := Table.get?_of_mem hentry
    have hexpr := body'.expresses cells fun mention hmention =>
      (hstore.closed name body' hbody mention hmention).1
    have hpeg : rules.pegs name = some body'.peg := by rw [Table.pegs, hbody, Option.map_some]
    refine (h.build name body' hbody).bind (fun parser hparser => ?_) store hstore
    subst hparser
    exact (h.run _ _ hexpr source place).imp fun result hrest => .rule hpeg hrest

end Follows

/-- Every engine follows the expressions. -/
theorem follows_upTo (language : InstanceId) (rules : Table Body) (cells : String → CellId)
    (depth : Nat) : (upTo depth).Follows language rules cells := by
  induction depth with
  | zero => exact ⟨fun _ _ _ _ _ => .diverge, fun _ _ _ => .diverge⟩
  | succ depth ih =>
    refine ⟨fun _ _ hexpr => ih.step hexpr, fun name body hbody => ?_⟩
    intro store hstore outcome after hon
    obtain ⟨after', hon', hafter'⟩ := hstore.assemble (upTo depth) hbody
    rw [upTo_succ_build, hon', Option.some.injEq, Prod.mk.injEq] at hon
    obtain ⟨rfl, rfl⟩ := hon
    refine ⟨hafter', ?_⟩
    rintro p ⟨⟩
    rfl

end Engine

end Descent
