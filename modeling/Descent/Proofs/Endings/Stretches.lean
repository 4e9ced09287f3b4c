import Descent.Proofs.Endings.Gives

/-! # Stretches of characters

A regular expression that repeats the characters of a set, as often as it can, takes the longest
stretch of such characters: nothing has to follow, so nothing is given back.

* **`Regex.CharSet.without`** — the set of all characters but some.
* **`Regex.matchFrom?_zeroOrMore`**, **`Regex.matchFrom?_oneOrMore`** — what it matches, where none
  will do and where there has to be one.
* **`Parser.Gives.zeroOrMore`**, **`Parser.Gives.oneOrMore`** — main statements: the parsers for
  such expressions. -/

namespace Descent

namespace Regex

/-- The set of all characters but some. -/
def CharSet.without (marks : List Char) : CharSet :=
  ⟨true, marks.map fun c => .range c.toNat c.toNat⟩

/-- It holds a character that is none of these. -/
theorem CharSet.holds_without (marks : List Char) :
    (without marks).holds false = fun c => decide (c ∉ marks) := by
  funext c
  have hrange : ∀ d : Char, (Entry.range d.toNat d.toNat).holds c = decide (c = d) := by
    intro d
    rw [Entry.holds, ← Bool.decide_and, decide_eq_decide, ← Char.toNat_inj]
    omega
  have hany : (marks.any fun d => decide (c = d)) = decide (c ∈ marks) := by
    rw [Bool.eq_iff_iff]
    simp
  simp [holds, without, Function.comp_def, hrange, hany]

variable (flags : Flags) (set : CharSet)

/-- A character that a set does not hold is not taken. -/
theorem run_one_of_not {c : Char} (h : set.holds flags.ignoreCase c = false) (index : Nat)
    (before rest : List Char) (groups : List (Nat × List Char)) (next : Continuation) :
    Pattern.run flags (.one set) ⟨index, before, c :: rest, groups⟩ next = none := by
  rw [Pattern.run, Cursor.stepIf?]
  simp only [h, Bool.false_eq_true, if_false, Option.bind_none]

/-- A character that a set holds is taken. -/
theorem run_one_of_holds {c : Char} (h : set.holds flags.ignoreCase c = true) (index : Nat)
    (before rest : List Char) (groups : List (Nat × List Char)) (next : Continuation) :
    Pattern.run flags (.one set) ⟨index, before, c :: rest, groups⟩ next
      = next ⟨index + 1, c :: before, rest, groups⟩ := by
  rw [Pattern.run, Cursor.stepIf?]
  simp only [h, if_true, Option.bind_some]
  rfl

/-- If nothing has to follow, as many characters of a set are taken as there are. -/
theorem exists_greedyLoop_one (fuel index : Nat) (before after : List Char)
    (groups : List (Nat × List Char)) (last : Option Nat) (hfuel : after.length < fuel)
    (hlast : last ≠ some index) :
    ∃ stop, greedyLoop (Pattern.run flags (.one set)) some fuel none last
        ⟨index, before, after, groups⟩ = some stop ∧
      stop.index = index + (after.takeWhile (set.holds flags.ignoreCase)).length := by
  induction fuel generalizing index before after last with
  | zero => exact absurd hfuel (Nat.not_lt_zero _)
  | succ fuel ih =>
    -- no copy is empty, so the repetition is never finished early
    have hgoes : finished none last ⟨index, before, after, groups⟩ = false := by
      simp [finished, hlast]
    rw [greedyLoop, hgoes, if_neg Bool.false_ne_true]
    cases after with
    | nil => exact ⟨_, rfl, rfl⟩
    | cons c rest =>
      cases hc : set.holds flags.ignoreCase c with
      | true =>
        obtain ⟨stop, hstop, hindex⟩ := ih (index + 1) (c :: before) rest (some index)
          (Nat.lt_of_succ_lt_succ hfuel) (by simp)
        rw [run_one_of_holds flags set hc, Option.map_none, hstop]
        refine ⟨stop, rfl, ?_⟩
        rw [hindex, List.takeWhile_cons_of_pos hc, List.length_cons]
        omega
      | false =>
        rw [run_one_of_not flags set hc]
        refine ⟨⟨index, before, c :: rest, groups⟩, rfl, ?_⟩
        rw [List.takeWhile_cons_of_neg (by simp [hc]), List.length_nil, Nat.add_zero]

/-- Any number of characters of a set, as many as possible, are the longest stretch of them, which
may be empty. -/
theorem matchFrom?_zeroOrMore (before after : List Char) :
    Pattern.matchFrom? flags (.copies .greedy 0 none (.one set)) before after
      = some (after.takeWhile (set.holds flags.ignoreCase)) := by
  obtain ⟨stop, hstop, hindex⟩ := exists_greedyLoop_one flags set (after.length + 1)
    before.length before after [] none (Nat.lt_succ_self _) (by simp)
  have hcount : stop.index - before.length
      = (after.takeWhile (set.holds flags.ignoreCase)).length := by omega
  rw [Pattern.matchFrom?, Pattern.run]
  simp only [exactly, Option.map_none]
  rw [hstop, Option.map_some, hcount, ← List.prefix_iff_eq_take.mp (List.takeWhile_prefix _)]

/-- One or more characters of a set, as many as possible, are the longest stretch of them. -/
theorem matchFrom?_oneOrMore (before after : List Char) :
    Pattern.matchFrom? flags (.copies .greedy 1 none (.one set)) before after
      = if after.takeWhile (set.holds flags.ignoreCase) = [] then none
        else some (after.takeWhile (set.holds flags.ignoreCase)) := by
  rw [Pattern.matchFrom?, Pattern.run]
  cases after with
  | nil => rfl
  | cons c rest =>
    cases hc : set.holds flags.ignoreCase c with
    | true =>
      -- the first character is asked for, the others are taken as they come
      obtain ⟨stop, hstop, hindex⟩ := exists_greedyLoop_one flags set (rest.length + 1)
        (before.length + 1) (c :: before) rest [] none (Nat.lt_succ_self _) (by simp)
      have hcount : stop.index - before.length
          = (rest.takeWhile (set.holds flags.ignoreCase)).length + 1 := by omega
      have hrest : rest.take (rest.takeWhile (set.holds flags.ignoreCase)).length
          = rest.takeWhile (set.holds flags.ignoreCase) :=
        (List.prefix_iff_eq_take.mp (List.takeWhile_prefix _)).symm
      simp only [exactly, run_one_of_holds flags set hc, Option.map_none]
      rw [hstop, Option.map_some, hcount, List.take_succ_cons, hrest,
        List.takeWhile_cons_of_pos hc, if_neg (List.cons_ne_nil _ _)]
    | false =>
      simp only [exactly, run_one_of_not flags set hc, Option.map_none]
      rw [List.takeWhile_cons_of_neg (by simp [hc]), if_pos rfl]

end Regex

variable {source : Source} {place : Position} {rest : List Char}

/-- What a regular expression gives at a place depends on what it matches in front of what is left
of the source. -/
theorem Position.Faces.patternResult (h : place.Faces source rest) (regex : Regex) :
    Engine.patternResult regex source place
      = .ok (match regex.pattern.matchFrom? regex.flags (source.take place.index.toNat).reverse
            rest with
          | some found => .matched (place.advance found) (.str (String.ofList found))
          | none => .failed ⟨place, [.str regex.label]⟩) := by
  have hoffset : Regex.clamp source place.index = place.index.toNat :=
    Nat.min_eq_left (by have := h.within.le_length; omega)
  have haddressable : Engine.isAddressable source place.index = true := by
    simp [Engine.isAddressable, h.within.nonneg, h.within.le_length]
  rw [Engine.patternResult, if_pos haddressable, Regex.matchAt?, hoffset, h.drop]
  cases regex.pattern.matchFrom? regex.flags (source.take place.index.toNat).reverse rest <;> rfl

namespace Parser.Gives

variable {holds : Store → Prop} {regex : Regex} {set : Regex.CharSet}

/-- At a place the longest stretch of characters of a set is matched. -/
theorem zeroOrMore (hregex : regex.pattern = .copies .greedy 0 none (.one set))
    (hplace : place.Faces source rest) :
    (Parser.pattern regex).Gives holds source place
      (.matched (place.advance (rest.takeWhile (set.holds regex.flags.ignoreCase)))
        (.str (String.ofList (rest.takeWhile (set.holds regex.flags.ignoreCase))))) := by
  refine .pattern ?_
  rw [hplace.patternResult, hregex, Regex.matchFrom?_zeroOrMore]

/-- At a place the longest stretch of characters of a set is matched, if there is one. -/
theorem oneOrMore (hregex : regex.pattern = .copies .greedy 1 none (.one set))
    (hplace : place.Faces source rest) :
    (Parser.pattern regex).Gives holds source place
      (if rest.takeWhile (set.holds regex.flags.ignoreCase) = [] then
        .failed ⟨place, [.str regex.label]⟩
      else .matched (place.advance (rest.takeWhile (set.holds regex.flags.ignoreCase)))
        (.str (String.ofList (rest.takeWhile (set.holds regex.flags.ignoreCase))))) := by
  refine .pattern ?_
  rw [hplace.patternResult, hregex, Regex.matchFrom?_oneOrMore]
  by_cases hnone : rest.takeWhile (set.holds regex.flags.ignoreCase) = []
  · rw [if_pos hnone, if_pos hnone]
  · rw [if_neg hnone, if_neg hnone]

end Parser.Gives

end Descent
