import Descent.Proofs.Family.Engines
import Descent.Proofs.Placeless.Forward

/-! # Nothing matters but what remains

A placeless parser that is run behind some text recognises what it would recognise if the source
began there. Neither the text before nor the line and column that it is told change anything but the
places in its result: the same values and the same labels come out, the same errors end the run, and
the same store is left.

* **`EndAlike`** — computations that ended with related results, or in the same way.
* **`Eval.Parallel`** — computations that end alike in every store that grants a family.
* **`Position.Shifted`**, **`Result.Shifted`** — places and results in a rest and in the whole.
* **`Engine.Shifts.step`** — one level of running keeps results apart by the text before.
* **`Parser.Placeless.run_append`** — main statement: so do all runs, by induction on the depth. -/

namespace Descent

/-! ## Computations side by side -/

/-- Two computations left the same store, and they ended with related results or the same error; or
neither of them gave an answer. -/
inductive EndAlike {α β : Type} (R : α → β → Prop) :
    Option (Except Raised α × Store) → Option (Except Raised β × Store) → Prop where
  /-- Neither gave an answer. -/
  | endless : EndAlike R none none
  /-- Both ended with the same error. -/
  | error (cause : Raised) (after : Store) :
      EndAlike R (some (.error cause, after)) (some (.error cause, after))
  /-- Both ended with a result. -/
  | ok {result : α} {result' : β} (h : R result result') (after : Store) :
      EndAlike R (some (.ok result, after)) (some (.ok result', after))

/-- Two computations end alike in every store that grants a family for what is known. -/
def Eval.Parallel {α β : Type} (family : Family) (known : Known) (R : α → β → Prop)
    (first : Eval α) (second : Eval β) : Prop :=
  ∀ store, store.Grants family known → EndAlike R (first.on store) (second.on store)

namespace Eval.Parallel

variable {α β γ δ : Type} {family : Family} {known : Known} {R : α → β → Prop}
  {R' : γ → δ → Prop}

/-- A computation ends like itself. -/
theorem refl (computation : Eval α) : Parallel family known Eq computation computation := by
  intro store _
  rcases computation.on store with _ | ⟨cause | result, after⟩
  · exact .endless
  · exact .error cause after
  · exact .ok rfl after

theorem pure {result : α} {result' : β} (h : R result result') :
    Parallel family known R (Pure.pure result : Eval α) (Pure.pure result') :=
  fun store _ => .ok h store

theorem raise (cause : Raised) :
    Parallel family known R (Eval.raise cause : Eval α) (Eval.raise cause : Eval β) :=
  fun store _ => .error cause store

/-- Computations with related answers that are read off the store. -/
theorem consult {view : Store → Except Raised α} {view' : Store → Except Raised β}
    (h : ∀ store, EndAlike R (some (view store, store)) (some (view' store, store))) :
    Parallel family known R (Eval.consult view) (Eval.consult view') := fun store _ => h store

/-- One computation after another. The second ones start with all that the first got known. -/
theorem bind {first : Eval α} {first' : Eval β} {next : α → Eval γ} {next' : β → Eval δ}
    {post : Known → α → Prop} (h : Parallel family known R first first')
    (hupholds : first.Upholds family known post)
    (hnext : ∀ larger result result', known ⊆ larger → post larger result → R result result' →
      Parallel family larger R' (next result) (next' result')) :
    Parallel family known R' (first >>= next) (first' >>= next') := by
  intro store hstore
  have hfirst := h store hstore
  have hupheld := hupholds store hstore
  rw [Eval.bind_on, Eval.bind_on]
  generalize first.on store = done at hfirst hupheld ⊢
  generalize first'.on store = done' at hfirst ⊢
  cases hfirst with
  | endless => exact .endless
  | error cause after => exact .error cause after
  | ok hR after =>
    obtain ⟨larger, hcarries, hpost⟩ := hupheld _ _ rfl
    exact hnext larger _ _ hcarries.subset (hpost _ rfl) hR after hcarries.grants

/-- First computations of which nothing has to be known. -/
theorem bind_any {first : Eval α} {first' : Eval β} {next : α → Eval γ} {next' : β → Eval δ}
    (h : Parallel family known R first first')
    (hupholds : first.Upholds family known fun _ _ => True)
    (hnext : ∀ larger result result', known ⊆ larger → R result result' →
      Parallel family larger R' (next result) (next' result')) :
    Parallel family known R' (first >>= next) (first' >>= next') :=
  h.bind hupholds fun larger result result' hsub _ => hnext larger result result' hsub

end Eval.Parallel

/-! ## Places and results behind a text -/

/-- One place lies as far behind a text as another one lies in what follows the text. Their lines and
columns may be any. -/
def Position.Shifted (text rest : Source) (place place' : Position) : Prop :=
  ∃ offset ≤ rest.length, place.index = text.length + offset ∧ place'.index = offset

/-- Results with the same value or the same labels, at places of which one lies as far behind a text
as the other one lies in what follows. -/
inductive Result.Shifted (text rest : Source) : Result → Result → Prop where
  /-- Both are matches. -/
  | matched {stop stop' : Position} (hstop : stop.Shifted text rest stop') (value : Value) :
      Result.Shifted text rest (.matched stop value) (.matched stop' value)
  /-- Both are failures. -/
  | failed {place place' : Position} (hplace : place.Shifted text rest place')
      (expected : List Value) :
      Result.Shifted text rest (.failed ⟨place, expected⟩) (.failed ⟨place', expected⟩)

namespace Position.Shifted

variable {text rest : Source} {place place' other other' : Position}

/-- The same lies ahead. -/
theorem drop (h : place.Shifted text rest place') :
    (text ++ rest).drop place.index.toNat = rest.drop place'.index.toNat := by
  obtain ⟨offset, -, hplace, hplace'⟩ := h
  have hindex : place.index.toNat = text.length + offset := by omega
  have hindex' : place'.index.toNat = offset := by omega
  rw [hindex, hindex', List.drop_append]
  simp

/-- Two places are at one index behind the text if they are so in the rest. -/
theorem index_eq_iff (h : place.Shifted text rest place') (hother : other.Shifted text rest other') :
    place.index = other.index ↔ place'.index = other'.index := by
  obtain ⟨offset, -, hplace, hplace'⟩ := h
  obtain ⟨offset', -, hother, hother'⟩ := hother
  omega

theorem index_lt_iff (h : place.Shifted text rest place') (hother : other.Shifted text rest other') :
    place.index < other.index ↔ place'.index < other'.index := by
  obtain ⟨offset, -, hplace, hplace'⟩ := h
  obtain ⟨offset', -, hother, hother'⟩ := hother
  omega

/-- What lies ahead can be consumed. -/
theorem advance (h : place.Shifted text rest place') {consumed : List Char}
    (hconsumed : consumed.length ≤ (rest.drop place'.index.toNat).length) :
    (place.advance consumed).Shifted text rest (place'.advance consumed) := by
  obtain ⟨offset, hle, hplace, hplace'⟩ := h
  rw [List.length_drop] at hconsumed
  refine ⟨offset + consumed.length, ?_, ?_, ?_⟩
  · omega
  · rw [advance_index, hplace]
    omega
  · rw [advance_index, hplace']
    omega

/-- A text stands behind another as it stands in the rest. -/
theorem standsAt (h : place.Shifted text rest place') (literal : List Char) :
    (text ++ rest).standsAt literal place.index = rest.standsAt literal place'.index := by
  have hdrop := h.drop
  obtain ⟨offset, hle, hplace, hplace'⟩ := h
  have hin : place.index ≤ ((text ++ rest).length : Int) := by
    rw [List.length_append]
    omega
  have hin' : place'.index ≤ (rest.length : Int) := by omega
  unfold Source.standsAt
  rw [if_neg (by omega), if_neg (by omega)]
  simp only [hdrop, hin, hin']

/-- A regular expression to which the text before does not matter matches the same. -/
theorem matchAt? (h : place.Shifted text rest place') {regex : Regex} (hregex : regex.Placeless) :
    regex.matchAt? (text ++ rest) place.index = regex.matchAt? rest place'.index := by
  obtain ⟨offset, hle, hplace, hplace'⟩ := h
  have hsplit : rest.take offset ++ rest.drop offset = rest := List.take_append_drop offset rest
  have hlength : (rest.take offset).length = offset := by simp [hle]
  -- both times the expression is matched at the beginning of what is left
  have hwhole := hregex (text ++ rest.take offset) (rest.drop offset)
  have hpart := hregex (rest.take offset) (rest.drop offset)
  rw [List.append_assoc, hsplit, List.length_append, hlength, Int.natCast_add, ← hplace] at hwhole
  rw [hsplit, hlength, ← hplace'] at hpart
  rw [hwhole, hpart]

/-- Both indices can be matched at. -/
theorem isAddressable (h : place.Shifted text rest place') :
    Engine.isAddressable (text ++ rest) place.index = true ∧
      Engine.isAddressable rest place'.index = true := by
  obtain ⟨offset, hle, hplace, hplace'⟩ := h
  constructor
  · rw [hplace, ← Int.natCast_add]
    exact Engine.isAddressable_of_le (by simpa using hle)
  · rw [hplace']
    exact Engine.isAddressable_of_le hle

end Position.Shifted

namespace Result.Shifted

variable {text rest : Source} {place place' : Position} {result result' : Result}

/-- A text is found behind another as it is found in the rest. -/
theorem textResult (h : place.Shifted text rest place') (literal : String) :
    Result.Shifted text rest (Engine.textResult literal (text ++ rest) place)
      (Engine.textResult literal rest place') := by
  unfold Engine.textResult
  rw [h.standsAt]
  split
  · rename_i hstands
    refine .matched (h.advance ?_) _
    -- what stands there is a beginning of what lies ahead
    unfold Source.standsAt at hstands
    obtain ⟨offset, hle, hplace, hplace'⟩ := h
    rw [if_neg (by omega), Bool.and_eq_true] at hstands
    exact (List.isPrefixOf_iff_prefix.mp hstands.2).length_le
  · exact .failed h _

/-- So is a regular expression to which the text before does not matter. -/
theorem patternResult (h : place.Shifted text rest place') {regex : Regex}
    (hregex : regex.Placeless) : ∃ result result',
      Engine.patternResult regex (text ++ rest) place = .ok result ∧
        Engine.patternResult regex rest place' = .ok result' ∧
          Result.Shifted text rest result result' := by
  unfold Engine.patternResult
  rw [if_pos h.isAddressable.1, if_pos h.isAddressable.2, h.matchAt? hregex]
  cases hfound : regex.matchAt? rest place'.index with
  | none => exact ⟨_, _, rfl, rfl, .failed h _⟩
  | some found =>
    refine ⟨_, _, rfl, rfl, .matched (h.advance ?_) _⟩
    have happend := Regex.matchAt?_append hfound
    obtain ⟨offset, hle, -, hplace'⟩ := h
    rw [hplace', Regex.clamp_of_le hle] at happend
    rw [hplace', Int.toNat_natCast, ← happend, List.length_append]
    exact Nat.le_add_right _ _

/-- The end of the whole is the end of the rest. -/
theorem eofResult (h : place.Shifted text rest place') :
    Result.Shifted text rest (Engine.eofResult (text ++ rest) place)
      (Engine.eofResult rest place') := by
  have hend : ((text ++ rest).length : Int) ≤ place.index ↔ (rest.length : Int) ≤ place'.index := by
    obtain ⟨offset, hle, hplace, hplace'⟩ := h
    rw [List.length_append]
    omega
  unfold Engine.eofResult
  simp only [hend]
  split
  · exact .matched h _
  · exact .failed h _

/-- Failures are relabelled at the same places. -/
theorem relabel (h : Result.Shifted text rest result result') (labels : Labels)
    (hplace : place.Shifted text rest place') :
    Result.Shifted text rest (Engine.relabel labels place result)
      (Engine.relabel labels place' result') := by
  cases h with
  | matched hstop value => exact .matched hstop value
  | failed hfailed expected =>
    unfold Engine.relabel
    simp only [hfailed.index_eq_iff hplace]
    split
    · exact .failed hfailed _
    · exact .failed hfailed _

/-- Of two failures the same is reported. -/
theorem merge {other other' : Position} (hplace : place.Shifted text rest place')
    (hother : other.Shifted text rest other') (expected expected' : List Value) :
    Result.Shifted text rest (.failed (Failure.merge ⟨place, expected⟩ ⟨other, expected'⟩))
      (.failed (Failure.merge ⟨place', expected⟩ ⟨other', expected'⟩)) := by
  unfold Failure.merge
  simp only [gt_iff_lt, hother.index_lt_iff hplace, hplace.index_lt_iff hother]
  split
  · exact .failed hplace _
  · split
    · exact .failed hother _
    · exact .failed hplace _

theorem mapValue (h : Result.Shifted text rest result result') (f : Value → Value) :
    Result.Shifted text rest (result.mapValue f) (result'.mapValue f) := by
  cases h with
  | matched hstop value => exact .matched hstop (f value)
  | failed hfailed expected => exact .failed hfailed expected

end Result.Shifted

/-! ## Engines -/

/-- Behind a text, an engine gives the results that it gives in the rest. -/
def Engine.Shifts (engine : Engine Eval) : Prop :=
  ∀ {known : Known} {parser : Parser} {text rest : Source} {place place' : Position},
    parser.Placeless known → place.Shifted text rest place' →
      Eval.Parallel Parser.Placeless known (Result.Shifted text rest)
        (engine.run parser (text ++ rest) place) (engine.run parser rest place')

namespace Engine.Shifts

variable {engine : Engine Eval} {known : Known} {text rest : Source} {place place' : Position}

/-- Parsers one after another. -/
theorem sequence (h : engine.Shifts) (hupholds : engine.Upholds Parser.Placeless)
    {parts : List Parser} (hparts : ∀ part ∈ parts, part.Placeless known) (values : List Value)
    (hplace : place.Shifted text rest place') :
    Eval.Parallel Parser.Placeless known (Result.Shifted text rest)
      (engine.sequence (text ++ rest) parts values place)
      (engine.sequence rest parts values place') := by
  induction parts generalizing known values place place' with
  | nil => exact .pure (.matched hplace _)
  | cons part parts ih =>
    have hpart := h (hparts part List.mem_cons_self) hplace
    refine hpart.bind_any (hupholds.run known part _ _) fun larger result result' hsub hresult => ?_
    cases hresult with
    | failed hfailed expected => exact .pure (.failed hfailed expected)
    | matched hstop value =>
      exact ih (fun p hp => (hparts p (List.mem_cons_of_mem _ hp)).mono hsub) (value :: values) hstop

/-- One level more of running. -/
theorem step (h : engine.Shifts) (hupholds : engine.Upholds Parser.Placeless) {parser : Parser}
    (hparser : parser.Placeless known) (hplace : place.Shifted text rest place') :
    Eval.Parallel Parser.Placeless known (Result.Shifted text rest)
      (engine.step parser (text ++ rest) place) (engine.step parser rest place') := by
  cases hparser with
  | text literal => exact .pure (.textResult hplace literal)
  | pattern hregex =>
    obtain ⟨result, result', hwhole, hrest, hresult⟩ := Result.Shifted.patternResult hplace hregex
    refine .consult fun store => ?_
    rw [hwhole, hrest]
    exact .ok hresult store
  | ok value => exact .pure (.matched hplace value)
  | fail labels => exact .pure (.failed hplace _)
  | eof => exact .pure (.eofResult hplace)
  | seq hparts => exact h.sequence hupholds hparts [] hplace
  | or hfirst hsecond =>
    refine (h hfirst hplace).bind_any (hupholds.run known _ _ _) fun larger _ _ hsub hresult => ?_
    cases hresult with
    | matched hstop value => exact .pure (.matched hstop value)
    | failed hfailed expected =>
      refine (h (hsecond.mono hsub) hplace).bind_any (hupholds.run larger _ _ _)
        fun larger' _ _ _ hother => ?_
      cases hother with
      | matched hstop value => exact .pure (.matched hstop value)
      | failed hfailed' expected' => exact .pure (.merge hfailed hfailed' expected expected')
  | map hof fn =>
    refine (h hof hplace).bind_any (hupholds.run known _ _ _) fun larger _ _ _ hresult => ?_
    cases hresult with
    | failed hfailed expected => exact .pure (.failed hfailed expected)
    | matched hstop value =>
      -- the function is given the same value and does the same with it
      refine (Eval.Parallel.refl _).bind_any (hupholds.perform_any (fn value) larger) ?_
      rintro larger' made _ - rfl
      exact .pure (.matched hstop made)
  | chain hof hfn =>
    refine (h hof hplace).bind_any (hupholds.run known _ _ _) fun larger _ _ hsub hresult => ?_
    cases hresult with
    | failed hfailed expected => exact .pure (.failed hfailed expected)
    | matched hstop value =>
      have hmade := hupholds.perform_makes Parser.Placeless.monotone _ larger
        (hfn larger value hsub)
      refine (Eval.Parallel.refl _).bind hmade ?_
      rintro larger' object _ - hobject rfl
      cases object with
      | parser p => exact h (hobject p rfl) hstop
      | value | table | other =>
        refine (Eval.Parallel.refl _).bind_any (.basic (.consult _)) ?_
        rintro _ shown _ - rfl
        exact .raise _
  | many0 hof =>
    refine (h hof hplace).bind_any (hupholds.run known _ _ _) fun larger _ _ hsub hresult => ?_
    cases hresult with
    | failed hfailed expected => exact .pure (.matched hplace _)
    | matched hstop value =>
      simp only [hstop.index_eq_iff hplace]
      split
      · exact .pure (.matched hplace _)
      · refine (h (.many0 (hof.mono hsub)) hstop).bind_any (hupholds.run larger _ _ _)
          fun _ _ _ _ hrest => .pure (hrest.mapValue _)
  | desc hof labels =>
    exact (h hof hplace).bind_any (hupholds.run known _ _ _)
      fun _ _ _ _ hresult => .pure (hresult.relabel labels hplace)
  | undescribed hof =>
    refine (h hof hplace).bind_any (hupholds.run known _ _ _) fun larger _ _ _ hresult => ?_
    cases hresult with
    | matched hstop value => exact .pure (.matched hstop value)
    | failed hfailed expected =>
      simp only [hfailed.index_eq_iff hplace]
      split
      · exact .raise _
      · exact .pure (.failed hfailed expected)
  | @lazy _ cell hcell =>
    refine (Eval.Parallel.refl _).bind (hupholds.build known cell) ?_
    rintro larger p _ hsub hp rfl
    exact h (hp hcell) hplace
  | kept hnumber =>
    refine (Eval.Parallel.refl _).bind (.kept hnumber) ?_
    rintro larger p _ - hp rfl
    exact h hp hplace

end Engine.Shifts

/-- Behind a text, every engine gives the results that it gives in the rest. -/
theorem Engine.shifts_upTo (depth : Nat) : (Engine.upTo depth).Shifts := by
  induction depth with
  | zero => exact fun _ _ store _ => .endless
  | succ depth ih =>
    exact fun hparser hplace =>
      ih.step (Engine.upholds_upTo Parser.Placeless.monotone depth) hparser hplace

/-- A placeless parser that is run behind a text, at any line and column, ends like the same parser
at the beginning of what follows the text: at every depth both have matched with the same value, or
both have failed with the same labels, at places equally far into what follows; or they have ended
with the same error, or given no answer. The stores that they leave are the same. -/
theorem Parser.Placeless.run_append {store : Store} {known : Known}
    (hstore : store.Grants Parser.Placeless known) {parser : Parser}
    (hparser : parser.Placeless known) (text rest : Source) {place : Position}
    (hplace : place.index = text.length) (depth : Nat) :
    EndAlike (Result.Shifted text rest)
      (((Engine.upTo depth).run parser (text ++ rest) place).on store)
      (((Engine.upTo depth).run parser rest .start).on store) := by
  have hstart : place.Shifted text rest .start := ⟨0, Nat.zero_le _, by simpa using hplace, rfl⟩
  exact Engine.shifts_upTo depth hparser hstart store hstore

/-! ## Brackets of two kinds -/

/-- An opening bracket, round or square. -/
def openingBracket : Regex := ⟨"[([]", .none, .one ⟨false, [.range 40 40, .range 91 91]⟩⟩

/-- What follows an opening bracket: any number of groups, then the bracket that closes it. -/
def closingBracket (group : CellId) : Value → Action (Object Parser)
  | .str "(" => .done (.parser (.seq [.many0 (.lazy group), .text ")"]))
  | _ => .done (.parser (.seq [.many0 (.lazy group), .text "]"]))

/-- Groups in brackets of two kinds, and letters. -/
def bracketsMaker (owner : Owner) : Maker :=
  .mk <| .rule owner.language "group" fun cell =>
    .done (.parser (.or (.chain (.pattern openingBracket) (closingBracket cell))
      (.desc (.text "x") ⟨.str "a group", []⟩)))

/-- A store with a language of that rule. -/
def bracketsStore : Store :=
  { Store.initial false with
    instances := #[⟨Store.base, [], some [("group", ⟨0, 0⟩)],
      #[.unbuilt "group" (bracketsMaker ⟨0, []⟩)]⟩] }

/-- What is chosen for a bracket is placeless. -/
theorem makes_closingBracket {known : Known} {cell : CellId} (hcell : Reference.cell cell ∈ known)
    (value : Value) : Action.Makes Parser.Placeless known (closingBracket cell value) := by
  have hparts : ∀ literal, (Parser.seq [.many0 (.lazy cell), .text literal]).Placeless known :=
    fun literal => .and (.many0 (.lazy hcell)) (.text literal)
  unfold closingBracket
  split
  · exact .parser (hparts _)
  · exact .parser (hparts _)

/-- The rule makes a placeless parser. -/
theorem grants_bracketsStore :
    bracketsStore.Grants Parser.Placeless
      (Store.Honours.withLanguage bracketsStore {.className Store.baseName} 0) := by
  have hcreate : (Store.initial false).create Store.baseName [] [("group", bracketsMaker)]
      = .ok (0, bracketsStore) := rfl
  refine (Store.Grants.initial false).create Parser.Placeless.monotone hcreate rfl
    fun entry hentry larger owner _ hl _ => ?_
  rw [List.mem_singleton] at hentry
  subst hentry
  refine .rule fun larger' cell hsub hcell => .parser (.or (.chain ?_ ?_) (.desc (.text _) _))
  · exact .pattern (Regex.placeless_of_forward rfl)
  · exact fun larger'' value hsub' => makes_closingBracket (hsub' (hcell hl)) value

/-- A text with a line break, and a group with a bracket too many behind it. -/
def bracketsSource : Source × Source :=
  (['(', ']', '\n'], ['(', 'x', '[', 'x', ']', ')', ')'])

/-- The group, run at the end of the first text with a line and a column that are not those of the
place. -/
def bracketsBehind : Option (Except Raised Result × Store) :=
  ((Engine.upTo 16).run (.lazy ⟨0, 0⟩) (bracketsSource.1 ++ bracketsSource.2) ⟨3, -7, 40⟩).on
    bracketsStore

/-- The group, run at the beginning of a source. -/
def bracketsAlone : Option (Except Raised Result × Store) :=
  ((Engine.upTo 16).run (.lazy ⟨0, 0⟩) bracketsSource.2 .start).on bracketsStore

/-- Both runs match equally far. -/
theorem Parser.Placeless.run_append_brackets :
    let known := Store.Honours.withLanguage bracketsStore {.className Store.baseName} 0
    bracketsStore.Grants Parser.Placeless known ∧ (Parser.lazy ⟨0, 0⟩).Placeless known ∧
      EndAlike (Result.Shifted bracketsSource.1 bracketsSource.2) bracketsBehind bracketsAlone ∧
      (∃ value after, bracketsBehind = some (.ok (.matched ⟨9, -7, 46⟩ value), after)) ∧
      ∃ value after, bracketsAlone = some (.ok (.matched ⟨6, 1, 7⟩ value), after) := by
  intro known
  have hparser : (Parser.lazy ⟨0, 0⟩).Placeless known :=
    .lazy (.inr (.inr (.inr ⟨0, rfl, rfl⟩)))
  have halike := @Parser.Placeless.run_append _ _ grants_bracketsStore _ hparser bracketsSource.1
    bracketsSource.2 ⟨3, -7, 40⟩ rfl 16
  exact ⟨grants_bracketsStore, hparser, halike, ⟨_, _, rfl⟩, ⟨_, _, rfl⟩⟩

end Descent
