import Descent.Proofs.Family.Engines
import Descent.Proofs.Verdicts

/-! # Parsers whose labels are texts

What a parser expected goes into the log in words, and there are words for labels that are texts. A
parser is **worded** when all labels that its parts are given are texts. Whatever happens to them in
a run, the labels of a failure are some of these.

* **`Parser.Worded`** — worded parsers, if what is known leads to worded parsers.
* **`Result.HasTexts.merge`**, **`Result.HasTexts.relabel`** — labels that are texts stay so.
* **`Engine.Words.step`** — the labels of a worded parser are texts if those of its parts are.
* **`Parser.Worded.hasTexts`** — main statement: so are the labels of every result of a worded
  parser, by induction on the depth. -/

namespace Descent

/-- All labels are texts. -/
def Labels.AreTexts (labels : Labels) : Prop := ∀ label ∈ labels.toList, ∃ text, label = .str text

/-- All labels that parts of a parser are given are texts. -/
inductive Parser.Worded : Known → Parser → Prop where
  /-- A text, which is its own label. -/
  | text {known : Known} (literal : String) : Parser.Worded known (.text literal)
  /-- A regular expression, which is labelled by its pattern. -/
  | pattern {known : Known} (regex : Regex) : Parser.Worded known (.pattern regex)
  /-- A value without consuming anything. -/
  | ok {known : Known} (value : Value) : Parser.Worded known (.ok value)
  /-- A failure with texts as its labels. -/
  | fail {known : Known} {labels : Labels} (hlabels : labels.AreTexts) :
      Parser.Worded known (.fail labels)
  /-- The end of the source. -/
  | eof {known : Known} : Parser.Worded known .eof
  /-- The place in the source. -/
  | location {known : Known} : Parser.Worded known .location
  /-- A sequence of worded parsers. -/
  | seq {known : Known} {parts : List Parser}
      (hparts : ∀ part ∈ parts, Parser.Worded known part) : Parser.Worded known (.seq parts)
  /-- A choice between worded parsers. -/
  | or {known : Known} {first second : Parser} (hfirst : Parser.Worded known first)
      (hsecond : Parser.Worded known second) : Parser.Worded known (.or first second)
  /-- A worded parser with any function applied to its value. -/
  | map {known : Known} {of : Parser} (hof : Parser.Worded known of)
      (fn : Value → Action Value) : Parser.Worded known (.map of fn)
  /-- A worded parser, then one of the worded parsers that a function makes of its value and of what
  is known by then. -/
  | chain {known : Known} {of : Parser} {fn : Value → Action (Object Parser)}
      (hof : Parser.Worded known of)
      (hfn : ∀ larger value, known ⊆ larger → Action.Makes Parser.Worded larger (fn value)) :
      Parser.Worded known (.chain of fn)
  /-- A repeated worded parser. -/
  | many0 {known : Known} {of : Parser} (hof : Parser.Worded known of) :
      Parser.Worded known (.many0 of)
  /-- A worded parser relabelled by texts. -/
  | desc {known : Known} {of : Parser} {labels : Labels} (hof : Parser.Worded known of)
      (hlabels : labels.AreTexts) : Parser.Worded known (.desc of labels)
  /-- A worded parser whose labels cannot be replaced. -/
  | undescribed {known : Known} {of : Parser} (hof : Parser.Worded known of) :
      Parser.Worded known of.undescribed
  /-- A known lazy parser. -/
  | lazy {known : Known} {cell : CellId} (hcell : Reference.cell cell ∈ known) :
      Parser.Worded known (.lazy cell)
  /-- A known parser that was put aside. -/
  | kept {known : Known} {number : Nat} (hnumber : Reference.kept number ∈ known) :
      Parser.Worded known (.kept number)

/-- Knowing more does no harm. -/
theorem Parser.Worded.mono {known larger : Known} (hsub : known ⊆ larger) {parser : Parser} :
    parser.Worded known → parser.Worded larger
  | .text literal => .text literal
  | .pattern regex => .pattern regex
  | .ok value => .ok value
  | .fail hlabels => .fail hlabels
  | .eof => .eof
  | .location => .location
  | .seq hparts => .seq fun part hpart => (hparts part hpart).mono hsub
  | .or hfirst hsecond => .or (hfirst.mono hsub) (hsecond.mono hsub)
  | .map hof fn => .map (hof.mono hsub) fn
  | .chain hof hfn =>
      .chain (hof.mono hsub) fun larger' value hlarger => hfn larger' value (hsub.trans hlarger)
  | .many0 hof => .many0 (hof.mono hsub)
  | .desc hof hlabels => .desc (hof.mono hsub) hlabels
  | .undescribed hof => .undescribed (hof.mono hsub)
  | .lazy hcell => .lazy (hsub hcell)
  | .kept hnumber => .kept (hsub hnumber)

/-- Worded parsers are a family. -/
theorem Parser.Worded.monotone : Family.Monotone Parser.Worded := fun _ _ hsub _ h => h.mono hsub

/-! ## Results -/

namespace Result.HasTexts

variable {result : Result}

theorem matched (stop : Position) (value : Value) : (Result.matched stop value).HasTexts := nofun

theorem failed {failure : Failure} (h : ∀ label ∈ failure.expected, ∃ text, label = .str text) :
    (Result.failed failure).HasTexts := by
  rintro _ ⟨⟩
  exact h

/-- A single text. -/
theorem single (place : Position) (text : String) :
    (Result.failed ⟨place, [.str text]⟩).HasTexts :=
  .failed fun _ hlabel => ⟨text, List.mem_singleton.mp hlabel⟩

/-- Where the labels of two failures are texts, so are those of the one reported for both. -/
theorem merge {first second : Failure} (h : (Result.failed first).HasTexts)
    (h' : (Result.failed second).HasTexts) : (Result.failed (first.merge second)).HasTexts := by
  unfold Failure.merge
  split
  · exact h
  · split
    · exact h'
    · refine .failed fun label hlabel => ?_
      rcases List.mem_append.mp (Value.mem_of_mem_distinct hlabel) with hfirst | hsecond
      · exact h first rfl label hfirst
      · exact h' second rfl label hsecond

/-- New labels that are texts can be given to a result. -/
theorem relabel (h : result.HasTexts) {labels : Labels} (hlabels : labels.AreTexts)
    (place : Position) : (Engine.relabel labels place result).HasTexts := by
  cases result with
  | matched stop value => exact .matched stop value
  | failed failure =>
    rw [Engine.relabel]
    split
    · exact .failed hlabels
    · exact h

theorem mapValue (h : result.HasTexts) (fn : Value → Value) :
    (result.mapValue fn).HasTexts := by
  cases result with
  | matched stop value => exact .matched stop (fn value)
  | failed failure => exact h

end Result.HasTexts

/-! ## Engines -/

/-- The labels of what an engine returns for worded parsers are texts. -/
def Engine.Words (engine : Engine Eval) : Prop :=
  ∀ {known : Known} {parser : Parser} (source : Source) (place : Position),
    parser.Worded known →
      (engine.run parser source place).Upholds Parser.Worded known fun _ result => result.HasTexts

namespace Engine.Words

open Result

variable {engine : Engine Eval} {known : Known} {source : Source} {place : Position}

/-- Worded parsers one after another. -/
theorem sequence (h : engine.Words) {parts : List Parser}
    (hparts : ∀ part ∈ parts, part.Worded known) (values : List Value) :
    (engine.sequence source parts values place).Upholds Parser.Worded known
      fun _ result => result.HasTexts := by
  induction parts generalizing known values place with
  | nil => exact .pure (.matched _ _)
  | cons part parts ih =>
    refine (h source place (hparts part List.mem_cons_self)).bind
      fun larger result hsub hresult => ?_
    cases result with
    | failed failure => exact .pure hresult
    | matched stop value =>
      exact ih (fun p hp => (hparts p (List.mem_cons_of_mem _ hp)).mono hsub) (value :: values)

/-- One level more of running. -/
theorem step (h : engine.Words) (hupholds : engine.Upholds Parser.Worded) {parser : Parser}
    (hparser : parser.Worded known) :
    (engine.step parser source place).Upholds Parser.Worded known
      fun _ result => result.HasTexts := by
  cases hparser with
  | text literal =>
    refine .pure ?_
    unfold textResult
    split
    · exact .matched _ _
    · exact .single _ _
  | pattern regex =>
    refine .consult fun _ result _ hresult => ?_
    unfold patternResult at hresult
    split at hresult
    · split at hresult
      · cases hresult
        exact .matched _ _
      · cases hresult
        exact .single _ _
    · cases hresult
  | ok value => exact .pure (.matched _ _)
  | fail hlabels => exact .pure (.failed hlabels)
  | eof =>
    refine .pure ?_
    unfold eofResult
    split
    · exact .matched _ _
    · exact .single _ _
  | location => exact .pure (.matched _ _)
  | seq hparts => exact h.sequence hparts []
  | or hfirst hsecond =>
    refine (h source place hfirst).bind fun larger result hsub hresult => ?_
    cases result with
    | matched stop value => exact .pure (.matched stop value)
    | failed failure =>
      refine (h source place (hsecond.mono hsub)).bind fun _ result' _ hresult' => ?_
      cases result' with
      | matched stop value => exact .pure (.matched stop value)
      | failed other => exact .pure (hresult.merge hresult')
  | map hof fn =>
    refine (h source place hof).bind fun larger result _ hresult => ?_
    cases result with
    | failed failure => exact .pure hresult
    | matched stop value =>
      -- the function may do anything, but there is no failure any more
      exact (hupholds.perform_any (fn value) larger).bind_any
        fun _ made _ => .pure (.matched stop made)
  | chain hof hfn =>
    refine (h source place hof).bind fun larger result hsub hresult => ?_
    cases result with
    | failed failure => exact .pure hresult
    | matched stop value =>
      -- what the function makes is worded, given what has become known
      have hmade := hupholds.perform_makes Parser.Worded.monotone _ larger (hfn larger value hsub)
      refine hmade.bind fun larger' object _ hobject => ?_
      cases object with
      | parser p => exact h source stop (hobject p rfl)
      | value | table | other =>
        exact (Eval.Upholds.basic (.consult _)).bind_any fun _ _ _ => .raise _
  | many0 hof =>
    -- whatever the labels are, a failure ends the repetition and is not reported
    refine (h source place hof).bind fun larger result hsub _ => ?_
    cases result with
    | failed failure => exact .pure (.matched place _)
    | matched stop value =>
      simp only
      split
      · exact .pure (.matched place _)
      · exact (h source stop (.many0 (hof.mono hsub))).bind
          fun _ _ _ hrest => .pure (hrest.mapValue _)
  | desc hof hlabels =>
    exact (h source place hof).bind fun _ _ _ hresult => .pure (hresult.relabel hlabels place)
  | undescribed hof =>
    refine (h source place hof).bind fun _ result _ hresult => ?_
    cases result with
    | matched stop value => exact .pure (.matched stop value)
    | failed failure =>
      simp only
      split
      · exact .raise _
      · exact .pure hresult
  | lazy hcell =>
    exact (hupholds.build known _).bind fun _ _ _ hp => h source place (hp hcell)
  | kept hnumber => exact (Eval.Upholds.kept hnumber).bind fun _ _ _ hp => h source place hp

end Engine.Words

/-- The labels of what any engine returns for worded parsers are texts. -/
theorem Engine.words_upTo (depth : Nat) : (Engine.upTo depth).Words := by
  induction depth with
  | zero => exact fun _ _ _ => .diverge
  | succ depth ih =>
    exact fun _ _ hparser => ih.step (Engine.upholds_upTo Parser.Worded.monotone depth) hparser

/-- The labels of every result of a worded parser are texts, so what becomes of a source can always
be reported. -/
theorem Parser.Worded.hasTexts {store after : Store} {known : Known}
    (hstore : store.Grants Parser.Worded known) {root : Parser} (hroot : root.Worded known)
    {source : Source} {place : Position} {result : Result}
    (h : root.Ends source place store (.ok result) after) : result.HasTexts := by
  obtain ⟨depth, hon⟩ := Parser.ends_iff_exists.mp h
  obtain ⟨_, -, hresult⟩ := Engine.words_upTo depth source place hroot store hstore _ _ hon
  exact hresult result rfl

end Descent
