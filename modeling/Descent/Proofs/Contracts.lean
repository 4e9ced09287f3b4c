import Descent.Proofs.Family.Engines

/-! # Contracts of parsers

A **contract** says something about the matches of a parser: the source, where a match starts and
stops, and its value. A parser fulfils a contract if all its matches do, in every store that grants
a given family of parsers for what is known. Because the rules of a grammar may refer to each other,
this is said level by level: within so many levels of depth.

* **`Parser.Fulfils`** — within so many levels, the matches of a parser fulfil a contract.
* **`Contract.Chain`**, **`Contract.Along`** — values of matches one after another.
* **`Parser.Fulfils.seq`**, **`Parser.Fulfils.many0`**, … — one rule for each combinator, by which
  what a parser fulfils follows from what its parts do.
* **`Parser.Fulfils.lazy`** — a lazy parser fulfils what its family does one level further down. -/

namespace Descent

/-- What is said of a match: the source, where the match starts and stops, and its value. -/
abbrev Contract := Source → Position → Position → Value → Prop

namespace Contract

/-- A result is no match, or one that a contract allows. -/
def Of (contract : Contract) (source : Source) (place : Position) (result : Result) : Prop :=
  ∀ stop value, result = .matched stop value → contract source place stop value

/-- Matches one after another, the first from a place and the last up to another, each by its own
contract. -/
inductive Along (source : Source) :
    List Contract → Position → Position → List Value → Prop where
  /-- No match at all. -/
  | nil (place : Position) : Along source [] place place []
  /-- A match, and others from where it stopped. -/
  | cons {contract : Contract} {contracts : List Contract} {place middle stop : Position}
      {value : Value} {values : List Value} (first : contract source place middle value)
      (rest : Along source contracts middle stop values) :
      Along source (contract :: contracts) place stop (value :: values)

/-- Any number of matches one after another, all by the same contract. -/
inductive Chain (contract : Contract) (source : Source) :
    Position → Position → List Value → Prop where
  /-- No match at all. -/
  | nil (place : Position) : Chain contract source place place []
  /-- A match, and others from where it stopped. -/
  | cons {place middle stop : Position} {value : Value} {values : List Value}
      (first : contract source place middle value)
      (rest : Chain contract source middle stop values) :
      Chain contract source place stop (value :: values)

/-- Nothing is consumed, and the value is the place. -/
def here : Contract := fun _ place stop value => stop = place ∧ value = .position place

/-- The value is the list of the values of matches one after another. -/
def listOf (contract : Contract) : Contract := fun source place stop value =>
  ∃ values, value = .list values ∧ contract.Chain source place stop values

/-- Matches that are all by one contract are a chain. -/
theorem Along.chain {contract : Contract} {contracts : List Contract} {source : Source}
    {place stop : Position} {values : List Value} (h : Along source contracts place stop values)
    (hall : ∀ other ∈ contracts, other = contract) : contract.Chain source place stop values := by
  induction h with
  | nil place => exact .nil place
  | cons first _ ih =>
    obtain rfl := hall _ List.mem_cons_self
    exact .cons first (ih fun other hother => hall other (List.mem_cons_of_mem _ hother))

variable {contract : Contract} {source : Source} {place middle stop : Position} {first rest : Value}

/-- Without a match there is the empty list. -/
theorem listOf_nil (contract : Contract) (source : Source) (place : Position) :
    contract.listOf source place place (.list []) := ⟨[], rfl, .nil place⟩

/-- A match, and others from where it stopped. -/
theorem listOf_cons (hfirst : contract source place middle first)
    (hrest : contract.listOf source middle stop rest) :
    contract.listOf source place stop (.consTo first rest) := by
  obtain ⟨values, rfl, hvalues⟩ := hrest
  exact ⟨first :: values, rfl, .cons hfirst hvalues⟩

end Contract

/-- Within so many levels, the matches of a parser fulfil a contract, in all stores that grant a
family for as much as is known. -/
def Parser.Fulfils (family : Family) (level : Nat) (known : Known) (contract : Contract)
    (parser : Parser) : Prop :=
  ∀ depth ≤ level, ∀ larger, known ⊆ larger → ∀ source place,
    ((Engine.upTo depth).run parser source place).Upholds family larger
      fun _ result => contract.Of source place result

namespace Parser.Fulfils

variable {family : Family} {level : Nat} {known larger : Known}
  {contract weaker first second : Contract} {self other : Parser}

/-- Within fewer levels. -/
theorem of_le {lower : Nat} (h : self.Fulfils family level known contract) (hle : lower ≤ level) :
    self.Fulfils family lower known contract :=
  fun depth hdepth => h depth (hdepth.trans hle)

/-- Less may be said of the matches. -/
theorem imp (h : self.Fulfils family level known contract)
    (himp : ∀ source place stop value, contract source place stop value →
      weaker source place stop value) : self.Fulfils family level known weaker := by
  intro depth hdepth larger hsub source place
  exact (h depth hdepth larger hsub source place).imp fun _ result hresult stop value heq =>
    himp source place stop value (hresult stop value heq)

/-- What the engine of a lower level does with the parser. -/
theorem below (h : self.Fulfils family level known contract) {depth : Nat} (hdepth : depth < level)
    (hsub : known ⊆ larger) (source : Source) (place : Position) :
    ((Engine.upTo depth).run self source place).Upholds family larger
      fun _ result => contract.Of source place result :=
  h depth hdepth.le larger hsub source place

/-- Within no levels there are no matches, so only what a parser does with the engines of lower
levels has to be looked at. -/
theorem of_step
    (h : ∀ depth < level, ∀ larger, known ⊆ larger → ∀ source place,
      ((Engine.upTo depth).step self source place).Upholds family larger
        fun _ result => contract.Of source place result) :
    self.Fulfils family level known contract := by
  intro depth hdepth larger hsub source place
  cases depth with
  | zero => exact .diverge
  | succ depth => exact h depth hdepth larger hsub source place

/-! ## Primitives -/

/-- The result of a parser that changes nothing in the store is the only one. -/
theorem of_pure {result : Source → Position → Result}
    (hstep : ∀ depth source place,
      (Engine.upTo depth).step self source place = Pure.pure (result source place))
    (h : ∀ source place, contract.Of source place (result source place)) :
    self.Fulfils family level known contract := by
  refine of_step fun depth _ larger _ source place => ?_
  rw [hstep]
  exact .pure (h source place)

theorem text {literal : String}
    (h : ∀ source place, contract.Of source place (Engine.textResult literal source place)) :
    (Parser.text literal).Fulfils family level known contract := of_pure (fun _ _ _ => rfl) h

theorem pattern {regex : Regex}
    (h : ∀ source place result, Engine.patternResult regex source place = .ok result →
      contract.Of source place result) :
    (Parser.pattern regex).Fulfils family level known contract :=
  of_step fun _ _ _ _ source place => .consult fun _ result _ => h source place result

theorem ok {value : Value} (h : ∀ source place, contract source place place value) :
    (Parser.ok value).Fulfils family level known contract :=
  of_pure (fun _ _ _ => rfl) fun source place stop value heq => by
    cases heq
    exact h source place

theorem fail (labels : Labels) : (Parser.fail labels).Fulfils family level known contract :=
  of_pure (fun _ _ _ => rfl) fun _ _ _ _ heq => by cases heq

theorem eof (h : ∀ source place, contract source place place .nothing) :
    Parser.eof.Fulfils family level known contract :=
  of_pure (fun _ _ _ => rfl) fun source place stop value heq => by
    unfold Engine.eofResult at heq
    split at heq
    · cases heq
      exact h source place
    · cases heq

theorem location (h : ∀ source place, contract source place place (.position place)) :
    Parser.location.Fulfils family level known contract :=
  of_pure (fun _ _ _ => rfl) fun source place stop value heq => by
    cases heq
    exact h source place

/-! ## Combinators -/

/-- Parsers one after another, each by its own contract, match along these. -/
theorem sequence_along {depth : Nat} (hdepth : depth ≤ level) (source : Source)
    (steps : List (Contract × Parser)) :
    ∀ larger values place, known ⊆ larger →
      (∀ step ∈ steps, step.2.Fulfils family level known step.1) →
      ((Engine.upTo depth).sequence source (steps.map (·.2)) values place).Upholds family larger
        fun _ result => ∀ stop value, result = .matched stop value →
          ∃ more, value = .tuple (values.reverse ++ more) ∧
            Contract.Along source (steps.map (·.1)) place stop more := by
  induction steps with
  | nil =>
    intro larger values place _ _
    refine .pure fun stop value heq => ?_
    cases heq
    exact ⟨[], by rw [List.append_nil], .nil place⟩
  | cons step steps ih =>
    intro larger values place hsub hsteps
    have hstep := hsteps step List.mem_cons_self depth hdepth larger hsub source place
    refine hstep.bind fun larger' result hsub' hresult => ?_
    cases result with
    | failed failure => exact .pure fun stop value heq => by cases heq
    | matched middle first =>
      have hrest := ih larger' (first :: values) middle (hsub.trans hsub') fun step' hstep' =>
        hsteps step' (List.mem_cons_of_mem _ hstep')
      refine hrest.imp fun _ result' hresult' stop value heq => ?_
      -- the first value comes before those of the other parsers
      obtain ⟨more, rfl, hmore⟩ := hresult' stop value heq
      refine ⟨first :: more, ?_, .cons (hresult middle first rfl) hmore⟩
      rw [List.reverse_cons, List.append_assoc, List.singleton_append]

/-- A sequence of parsers, each by its own contract. -/
theorem seq (steps : List (Contract × Parser))
    (hsteps : ∀ step ∈ steps, step.2.Fulfils family level known step.1)
    (h : ∀ source place stop values, Contract.Along source (steps.map (·.1)) place stop values →
      contract source place stop (.tuple values)) :
    (Parser.seq (steps.map (·.2))).Fulfils family level known contract := by
  refine of_step fun depth hdepth larger hsub source place => ?_
  refine (sequence_along hdepth.le source steps larger [] place hsub hsteps).imp ?_
  intro _ result hresult stop value heq
  obtain ⟨values, rfl, hvalues⟩ := hresult stop value heq
  exact h source place stop values hvalues

/-- A sequence of parsers, all by the same contract. -/
theorem seq_chain {parts : List Parser}
    (hparts : ∀ part ∈ parts, part.Fulfils family level known first)
    (h : ∀ source place stop values, first.Chain source place stop values →
      contract source place stop (.tuple values)) :
    (Parser.seq parts).Fulfils family level known contract := by
  have hseq : (Parser.seq ((parts.map fun part => (first, part)).map (·.2))).Fulfils family level
      known contract := by
    refine seq _ (fun step hstep => ?_) fun source place stop values hvalues => ?_
    · obtain ⟨part, hpart, rfl⟩ := List.mem_map.mp hstep
      exact hparts part hpart
    · refine h source place stop values (hvalues.chain fun other hother => ?_)
      obtain ⟨step, hstep, rfl⟩ := List.mem_map.mp hother
      obtain ⟨part, -, rfl⟩ := List.mem_map.mp hstep
      rfl
  rwa [List.map_map, Function.comp_def, List.map_id'] at hseq

/-- A choice: the alternative that is given up leaves nothing behind. -/
theorem or (hself : self.Fulfils family level known contract)
    (hother : other.Fulfils family level known contract) :
    (Parser.or self other).Fulfils family level known contract := by
  refine of_step fun depth hdepth larger hsub source place => ?_
  refine (hself.below hdepth hsub source place).bind fun larger' result hsub' hresult => ?_
  cases result with
  | matched stop value => exact .pure hresult
  | failed failure =>
    have hsecond := hother.below hdepth (hsub.trans hsub') source place
    refine hsecond.bind fun _ result' _ hresult' => ?_
    cases result' with
    | matched stop value => exact .pure hresult'
    | failed failure' => exact .pure fun stop value heq => by cases heq

/-- A plain function applied to the value. -/
theorem mapValue {fn : Value → Value} (hself : self.Fulfils family level known first)
    (h : ∀ source place stop value, first source place stop value →
      contract source place stop (fn value)) :
    (self.mapValue fn).Fulfils family level known contract := by
  refine of_step fun depth hdepth larger hsub source place => ?_
  refine (hself.below hdepth hsub source place).bind fun larger' result _ hresult => ?_
  cases result with
  | failed failure => exact .pure fun stop value heq => by cases heq
  | matched stop value =>
    have hmade : (Pure.pure (fn value) : Eval Value).Upholds family larger'
        fun _ made => made = fn value := .pure rfl
    refine hmade.bind fun _ made _ heq => .pure fun stop' value' heq' => ?_
    subst heq
    cases heq'
    exact h source place stop value (hresult stop value rfl)

/-- A parser, then the one that a plain function gives for its value. -/
theorem andThen {fn : Value → Parser} (after : Value → Contract)
    (hself : self.Fulfils family level known first)
    (hfn : ∀ value, (fn value).Fulfils family level known (after value))
    (h : ∀ source place middle stop value value', first source place middle value →
      after value source middle stop value' → contract source place stop value') :
    (self.andThen fn).Fulfils family level known contract := by
  refine of_step fun depth hdepth larger hsub source place => ?_
  refine (hself.below hdepth hsub source place).bind fun larger' result hsub' hresult => ?_
  cases result with
  | failed failure => exact .pure fun stop value heq => by cases heq
  | matched middle value =>
    have hmade : (Pure.pure (.parser (fn value)) : Eval (Object Parser)).Upholds family larger'
        fun _ made => made = .parser (fn value) := .pure rfl
    refine hmade.bind fun larger'' made hsub'' heq => ?_
    subst heq
    have hnext := (hfn value).below hdepth ((hsub.trans hsub').trans hsub'') source middle
    exact hnext.imp fun _ result' hresult' stop value' heq =>
      h source place middle stop value value' (hresult middle value rfl) (hresult' stop value' heq)

/-- A repeated parser: the iteration that is given up, or that moves nothing, leaves nothing
behind. -/
theorem many0 (hself : self.Fulfils family level known contract) :
    (Parser.many0 self).Fulfils family level known contract.listOf := by
  induction level with
  | zero => exact of_step fun _ hdepth => absurd hdepth (Nat.not_lt_zero _)
  | succ level ih =>
    refine of_step fun depth hdepth larger hsub source place => ?_
    have hnone : (contract.listOf).Of source place (.matched place (.list [])) := by
      rintro stop value ⟨⟩
      exact Contract.listOf_nil contract source place
    refine (hself.below hdepth hsub source place).bind fun larger' result hsub' hresult => ?_
    cases result with
    | failed failure => exact .pure hnone
    | matched middle value =>
      by_cases still : middle.index = place.index
      · simp only [still, if_true]
        exact .pure hnone
      · simp only [still, if_false]
        -- the rest is the repetition one level further down
        have hrest := ih (hself.of_le (Nat.le_succ level)) depth (Nat.le_of_lt_succ hdepth) larger'
          (hsub.trans hsub') source middle
        refine hrest.bind fun _ result' _ hresult' => .pure fun stop value' heq => ?_
        cases result' with
        | failed failure => cases heq
        | matched stop' rest =>
          cases heq
          exact Contract.listOf_cons (hresult middle value rfl) (hresult' _ rest rfl)

/-- A relabelled parser. -/
theorem desc (hself : self.Fulfils family level known contract) (labels : Labels) :
    (Parser.desc self labels).Fulfils family level known contract := by
  refine of_step fun depth hdepth larger hsub source place => ?_
  refine (hself.below hdepth hsub source place).bind fun _ result _ hresult => ?_
  refine .pure fun stop value heq => ?_
  cases result with
  | matched stop' value' => exact hresult stop value heq
  | failed failure =>
    rw [Engine.relabel] at heq
    split at heq
    · cases heq
    · cases heq

/-- A parser whose labels cannot be replaced. -/
theorem undescribed (hself : self.Fulfils family level known contract) :
    self.undescribed.Fulfils family level known contract := by
  refine of_step fun depth hdepth larger hsub source place => ?_
  refine (hself.below hdepth hsub source place).bind fun _ result _ hresult => ?_
  cases result with
  | matched stop value => exact .pure hresult
  | failed failure =>
    by_cases there : failure.place.index = place.index
    · simp only [there, if_true]
      exact .raise _
    · simp only [there, if_false]
      exact .pure hresult

/-- The first value of a list before the others. -/
theorem consFrom (hself : self.Fulfils family level known contract)
    (hother : other.Fulfils family level known contract.listOf) :
    (self.consFrom other).Fulfils family level known contract.listOf := by
  refine hself.andThen (fun first source middle stop value =>
    ∃ rest, value = .consTo first rest ∧ contract.listOf source middle stop rest) ?_ ?_
  · exact fun first => hother.mapValue fun _ _ _ rest hrest => ⟨rest, rfl, hrest⟩
  · rintro source place middle stop first - hfirst ⟨rest, rfl, hrest⟩
    exact Contract.listOf_cons hfirst hrest

/-! ## Parsers of the store -/

/-- A known lazy parser fulfils what the parsers of its family do one level further down. -/
theorem lazy (hmono : family.Monotone) {cell : CellId} (hcell : Reference.cell cell ∈ known)
    (h : ∀ larger, known ⊆ larger → ∀ p, family larger p → p.Fulfils family level larger contract) :
    (Parser.lazy cell).Fulfils family (level + 1) known contract := by
  refine of_step fun depth hdepth larger hsub source place => ?_
  have hbuild := (Engine.upholds_upTo hmono depth).build larger cell
  exact hbuild.bind fun larger' p hsub' hp =>
    h larger' (hsub.trans hsub') p (hp (hsub hcell)) depth (Nat.le_of_lt_succ hdepth) larger'
      subset_rfl source place

/-- A known parser that was put aside, likewise. -/
theorem kept {number : Nat} (hnumber : Reference.kept number ∈ known)
    (h : ∀ larger, known ⊆ larger → ∀ p, family larger p → p.Fulfils family level larger contract) :
    (Parser.kept number).Fulfils family (level + 1) known contract := by
  refine of_step fun depth hdepth larger hsub source place => ?_
  exact (Eval.Upholds.kept (hsub hnumber)).bind fun larger' p hsub' hp =>
    h larger' (hsub.trans hsub') p hp depth (Nat.le_of_lt_succ hdepth) larger' subset_rfl source
      place

end Parser.Fulfils

end Descent
