import Descent.Proofs.Endings.Composed
import Descent.Proofs.Film.Turns
import Descent.Proofs.Places

/-! # Parsing a source in full

Parsing a source is running a parser from its start and reporting what became of it; parsing all of
it asks for the end of the source besides.

* **`Parser.Parses`**, **`Parser.TriesParse`** — what either ends with.
* **`Result.completed`** — the result of a parser as one for all of a source: a match that stops
  short of the end is a failure to find the end there.
* **`Result.verdict`** — the value of such a result, or else an error that reports it.
* **`Store.Reports`** — one entry of the log was made for a source, and any number for lazy parsers.
* **`Parser.Ends.skip_eof`** — where no match goes beyond the end, asking for the end is asking to
  stop there.
* **`Parser.Composed.parses_and_triesParse`** — main statement: what a composed parser whose run
  ends with a result comes to, either way, and what the log says of it. -/

namespace Descent

open Eval Engine

/-- Running a parser on a source and reporting it, in a store, ends so. -/
def Parser.Parses (root : Parser) (source : Source) (store : Store) (ended : Except Raised Result)
    (after : Store) : Prop :=
  Eventually (fun depth => (upTo depth).parse root source) store (ended, after)

/-- Parsing all of a source, in a store, ends so. -/
def Parser.TriesParse (root : Parser) (source : Source) (store : Store)
    (ended : Except Raised Value) (after : Store) : Prop :=
  Eventually (fun depth => (upTo depth).tryParse root source) store (ended, after)

namespace Result

/-- The result for all of a source. A match has to stop at the end. -/
def completed (source : Source) : Result → Result
  | .matched stop value =>
      if stop.index = source.length then .matched stop value else .failed ⟨stop, [endLabel]⟩
  | .failed failure => .failed failure

/-- The value of a match, or an error that reports the failure. -/
def verdict (source : Source) : Result → Except Raised Value
  | .matched _ value => .ok value
  | .failed failure => .error (.unparsed source failure)

/-- All labels of a failure are texts. -/
def HasTexts (result : Result) : Prop :=
  ∀ failure, result = .failed failure → ∀ label ∈ failure.expected, ∃ text, label = .str text

variable {source : Source} {result : Result}

theorem HasTexts.completed (h : result.HasTexts) : (result.completed source).HasTexts := by
  cases result with
  | failed failure => exact h
  | matched stop value =>
    rw [Result.completed]
    split
    · intro failure heq
      cases heq
    · rintro _ ⟨⟩ label hlabel
      exact ⟨_, List.mem_singleton.mp hlabel⟩

theorem completed_matched (stop : Position) (value : Value) :
    completed source (.matched stop value)
      = if stop.index = source.length then .matched stop value
        else .failed ⟨stop, [endLabel]⟩ := rfl

end Result

/-! ## The log -/

/-- From one store to another, one entry of the log was made that says what became of a source, and
it comes last; all others are about lazy parsers. If no log is kept, none was made. -/
structure Store.Reports (store : Store) (source : Source) (result : Result) (after : Store) :
    Prop where
  /-- A log is kept or not, as before. -/
  logging : after.logging = store.logging
  /-- Without a log there are no entries. -/
  silent : store.logging = false → after.records = store.records
  /-- With a log there is one for the source. -/
  reported : store.logging = true → ∃ record built, Record.ofResult source result = .ok record ∧
    (∀ other ∈ built, other.isReport = false) ∧
    after.records.toList = store.records.toList ++ built ++ [record]

/-- The words for labels that are texts are a phrase made of texts. -/
theorem Text.Wording.exists_expected {labels : List Value}
    (h : ∀ label ∈ labels, ∃ text, label = .str text) :
    ∃ texts : List String, expected labels = .ok (phrase (texts.map name)) := by
  -- texts can be compared, so the labels can be told apart
  have hkeys : labels.all Value.isKey = true := by
    rw [List.all_eq_true]
    intro label hlabel
    obtain ⟨text, rfl⟩ := h label hlabel
    rfl
  have hnames : ∀ some : List Value, (∀ label ∈ some, ∃ text, label = .str text) →
      ∃ texts : List String, some.mapM Wording.label = .ok (texts.map name) := by
    intro some hsome
    induction some with
    | nil => exact ⟨[], rfl⟩
    | cons label rest ih =>
      obtain ⟨text, rfl⟩ := hsome label List.mem_cons_self
      obtain ⟨texts, htexts⟩ := ih fun other hother => hsome other (List.mem_cons_of_mem _ hother)
      refine ⟨text :: texts, ?_⟩
      rw [List.mapM_cons, label_str, htexts]
      rfl
  obtain ⟨texts, hmap⟩ := hnames (Value.distinct labels) fun label hlabel =>
    h label (Value.mem_of_mem_distinct hlabel)
  refine ⟨texts, ?_⟩
  rw [expected, Value.distinct?, if_pos hkeys]
  show (do return phrase (← (Value.distinct labels).mapM label)) = _
  rw [hmap]
  rfl

/-- There are words for every result whose labels are texts. -/
theorem Result.HasTexts.exists_record {result : Result} (h : result.HasTexts) (source : Source) :
    ∃ record, Record.ofResult source result = .ok record := by
  cases result with
  | matched stop value => exact ⟨_, rfl⟩
  | failed failure =>
    obtain ⟨_, hwording⟩ := Text.Wording.exists_expected (h failure rfl)
    exact ⟨.failed failure.place _, by rw [Record.ofResult, hwording]; rfl⟩

/-- A run writes nothing to the log but entries about lazy parsers. -/
theorem Parser.Ends.exists_writes {parser : Parser} {source : Source} {place : Position}
    {store after : Store} {ended : Except Raised Result}
    (h : parser.Ends source place store ended after) :
    ∃ records, store.Writes after records ∧ ∀ record ∈ records, record.isReport = false := by
  obtain ⟨depth, hon⟩ := ends_iff_exists.mp h
  have hreels := (Film.reels_upTo (fun _ => False) depth).run parser source place store
  have hfilm := Film.fst_run_on depth parser source place store
  rw [hon] at hfilm
  generalize ((Film.upTo depth).run parser source place).on store = done at hreels hfilm
  obtain ⟨_, scenes⟩ := done
  obtain rfl : _ = some (ended, after) := hfilm
  obtain ⟨records, hwrites, hnone⟩ := Reel.exists_writes hreels
  exact ⟨records, hwrites, fun record hrecord => by
    simpa using fun hreport => hnone record hrecord hreport⟩

/-! ## What either ends with -/

namespace Parser

variable {root : Parser} {source : Source} {store middle after : Store} {known : Known}
  {result : Result} {ended ended' : Except Raised Value}

/-- Parsing ends with the result of the run, once that has been reported. -/
theorem Ends.parses (h : root.Ends source .start store (.ok result) middle)
    (hlog : middle.logResult source result = .ok ((), after)) :
    root.Parses source store (.ok result) after := by
  refine Eventually.bind h ⟨0, fun depth _ => ?_⟩
  exact Eval.bind_ok (Eval.attempt_ok hlog)

/-- Parsing all of a source ends with the verdict on what parsing it up to its end comes to. -/
theorem Parses.triesParse (h : (root.skip .eof).Parses source store (.ok result) after) :
    root.TriesParse source store (result.verdict source) after := by
  refine Eventually.bind h ⟨0, fun depth _ => ?_⟩
  cases result with
  | matched stop value => rfl
  | failed failure => rfl

/-- Parsing all of a source ends in one way at most. -/
theorem TriesParse.unique (h : root.TriesParse source store ended after) {after' : Store}
    (h' : root.TriesParse source store ended' after') : ended = ended' :=
  (Prod.mk.inj (Eventually.unique h h')).1

/-- What became of a source can be reported if there are words for it. -/
theorem Ends.exists_logResult (h : root.Ends source .start store (.ok result) middle)
    (hlabels : store.logging = true → result.HasTexts) :
    ∃ after, middle.logResult source result = .ok ((), after) ∧
      store.Reports source result after := by
  obtain ⟨records, hwrites, hnone⟩ := h.exists_writes
  by_cases hlogging : store.logging = true
  · obtain ⟨record, hrecord⟩ := (hlabels hlogging).exists_record source
    have hall := hwrites.trans (Store.writes_log middle record)
    refine ⟨middle.log record, ?_, hall.logging, fun hoff => ?_, fun _ => ?_⟩
    · rw [Store.logResult, if_pos (hwrites.logging.trans hlogging), hrecord]
      rfl
    · rw [hlogging] at hoff
      cases hoff
    · refine ⟨record, records, hrecord, hnone, ?_⟩
      rw [hall.records, if_pos hlogging, List.append_assoc]
  · refine ⟨middle, ?_, hwrites.logging, fun _ => ?_, fun hon => absurd hon hlogging⟩
    · rw [Store.logResult, hwrites.logging, if_neg hlogging]
    · have hrecords := hwrites.records
      rw [if_neg hlogging, List.append_nil] at hrecords
      exact Array.toList_inj.mp hrecords

/-- The end of a source is looked for without changing anything. -/
theorem ends_eof_iff {place : Position} {ended : Except Raised Result} :
    Parser.eof.Ends source place store ended after
      ↔ ended = .ok (eofResult source place) ∧ after = store :=
  (ends_iff_of_step fun _ => rfl).trans eventually_pure_iff

/-- If no match goes beyond the end, asking for the end is asking to stop there. -/
theorem Ends.skip_eof {place : Position}
    (h : root.Ends source place store (.ok result) after)
    (hstop : ∀ stop value, result = .matched stop value → stop.index ≤ source.length) :
    (root.skip .eof).Ends source place store (.ok (result.completed source)) after := by
  refine (ends_mapValue_iff _).mpr ?_
  cases result with
  | failed failure => exact ⟨_, ends_and_iff.mpr (.inl ⟨h, unmatched_failed failure⟩), rfl⟩
  | matched stop value =>
    refine ⟨_, ends_and_iff.mpr (.inr ⟨stop, value, after, h, _, ends_eof_iff.mpr ⟨rfl, rfl⟩, rfl⟩),
      ?_⟩
    have hle := hstop stop value rfl
    rw [Result.completed_matched, eofResult]
    by_cases hend : stop.index = source.length
    · rw [if_pos hend, if_pos (by omega)]
      rfl
    · rw [if_neg hend, if_neg (by omega)]
      rfl

/-- Parsing all of a source ends with the value of a match that stops at its end. -/
theorem Ends.exists_triesParse {stop : Position} {value : Value}
    (h : root.Ends source .start store (.ok (.matched stop value)) middle)
    (hend : stop.index = source.length) :
    ∃ after, root.TriesParse source store (.ok value) after := by
  have hskip := h.skip_eof fun stop' value' heq => by
    cases heq
    exact hend.le
  rw [Result.completed_matched, if_pos hend] at hskip
  obtain ⟨after, hlog, -⟩ := hskip.exists_logResult fun _ => nofun
  exact ⟨after, (hskip.parses hlog).triesParse⟩

end Parser

end Descent
