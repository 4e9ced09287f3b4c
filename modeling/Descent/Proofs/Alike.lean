import Descent.Proofs.Composed
import Descent.Proofs.Table

/-! # Parsers that are alike

Two parsers are alike if they are put together in the same way, although the labels in them may
differ, or although they stand in different stores, where the lazy parsers and languages that they
name go by other numbers. Their functions are alike as well: they do the same things in the same
order, and where they go on with different answers, they go on alike.

* **`Leeway`** — what two runs may differ in.
* **`Pairing`** — which references of one store stand for which of another.
* **`Parser.Alike`**, **`Action.Alike`** — parsers and scripts that are alike.
* **`Parser.Alike.mono`**, **`Action.Alike.mono`** — they stay alike when more is paired.
* **`Script.Quiet`** — a script that runs no parser. -/

namespace Descent

/-! ## Pairings -/

/-- What two runs may differ in. -/
structure Leeway where
  /-- The labels of failures. -/
  labels : Prop
  /-- The stages of lazy parsers and the answers of counters. -/
  stages : Prop

/-- Which references of one store stand for which of another. -/
abbrev Pairing := Set (Reference × Reference)

namespace Pairing

/-- The same pairs the other way round. -/
def flip (pairs : Pairing) : Pairing := {pair | (pair.2, pair.1) ∈ pairs}

@[simp] theorem mem_flip {pairs : Pairing} {a b : Reference} :
    (a, b) ∈ pairs.flip ↔ (b, a) ∈ pairs := Iff.rfl

/-- More pairs are more pairs the other way round. -/
theorem flip_subset {pairs larger : Pairing} (h : pairs ⊆ larger) : pairs.flip ⊆ larger.flip :=
  fun pair hpair => @h (pair.2, pair.1) hpair

/-- What has only pairs the other way round can be turned. -/
theorem subset_flip {pairs larger : Pairing} (h : pairs.flip ⊆ larger) : pairs ⊆ larger.flip :=
  flip_subset h

end Pairing

/-- Lazy parsers that are paired. -/
def CellId.Pairs (pairs : Pairing) (cell cell' : CellId) : Prop :=
  (Reference.cell cell, Reference.cell cell') ∈ pairs

/-- Objects of the same sort, where `inside` says so of parsers. -/
def Object.Pairs {P : Type} (pairs : Pairing) (inside : P → P → Prop) :
    Object P → Object P → Prop
  | .parser p, .parser p' => inside p p'
  | .value v, .value v' => v' = v
  | .table rules, .table rules' => Table.Rel (CellId.Pairs pairs) rules rules'
  | .other kind shown, .other kind' shown' => kind' = kind ∧ shown' = shown
  | _, _ => False

/-- Parsers that can be recognised again and are paired. -/
def Handle.Pairs (pairs : Pairing) : Handle → Handle → Prop
  | .eof, .eof => True
  | .location, .location => True
  | .lazy cell, .lazy cell' => cell.Pairs pairs cell'
  | .kept number, .kept number' => (Reference.kept number, Reference.kept number') ∈ pairs
  | _, _ => False

/-- Languages that are paired in every respect, made with the same arguments. -/
structure Owner.Pairs (pairs : Pairing) (owner owner' : Owner) : Prop where
  /-- The arguments are the same. -/
  arguments : owner'.arguments = owner.arguments
  /-- The rules of one stand for those of the other. -/
  language : (Reference.language owner.language, Reference.language owner'.language) ∈ pairs
  /-- So do the lazy parsers that are added. -/
  home : (Reference.home owner.language, Reference.home owner'.language) ∈ pairs

/-! ## Scripts -/

/-- A script that runs no parser. It may have lazy parsers made. -/
def Script.Quiet {P M α : Type} : Script P M α → Prop
  | .done _ => True
  | .raise _ => True
  | .note _ next => next.Quiet
  | .run _ _ _ _ => False
  | .build _ next => next.Quiet
  | .defer _ _ _ next => ∀ cell, (next cell).Quiet
  | .inspect _ next => ∀ state shown, (next state shown).Quiet
  | .lookUp _ _ next => ∀ found, (next found).Quiet
  | .rule _ _ next => ∀ cell, (next cell).Quiet
  | .create _ _ _ next => ∀ language, (next language).Quiet
  | .fetch _ next => ∀ found, (next found).Quiet
  | .count _ next => ∀ before, (next before).Quiet

/-- What the scripts of a grammar end with: the object that a map or chain function or a rule makes,
or the result that a hand-written parser finds. -/
inductive Yield : Type where
  /-- An object. -/
  | object (object : Object Parser)
  /-- A result. -/
  | result (result : Result)

/-- A script that makes an object. -/
abbrev Script.objects (action : Action (Object Parser)) : Action Yield :=
  action.bind fun object => .done (.object object)

/-- A script that makes a value. -/
abbrev Script.values (action : Action Value) : Action Yield :=
  action.bind fun value => .done (.object (.value value))

/-- A script that finds a result. -/
abbrev Script.results (action : Action Result) : Action Yield :=
  action.bind fun result => .done (.result result)

/-- Results that differ at most in the labels of a failure. -/
inductive Result.Alike (leeway : Leeway) : Result → Result → Prop where
  /-- The same match. -/
  | matched (place : Position) (value : Value) :
      Result.Alike leeway (.matched place value) (.matched place value)
  /-- Failures at the same place. -/
  | failed {place : Position} {expected expected' : List Value}
      (h : expected' = expected ∨ leeway.labels) :
      Result.Alike leeway (.failed ⟨place, expected⟩) (.failed ⟨place, expected'⟩)

mutual

/-- Parsers that are put together in the same way. -/
inductive Parser.Alike (leeway : Leeway) : Pairing → Parser → Parser → Prop where
  /-- The same text. -/
  | text {pairs : Pairing} (literal : String) :
      Parser.Alike leeway pairs (.text literal) (.text literal)
  /-- The same regular expression. -/
  | pattern {pairs : Pairing} (regex : Regex) :
      Parser.Alike leeway pairs (.pattern regex) (.pattern regex)
  /-- The same value without consuming anything. -/
  | ok {pairs : Pairing} (value : Value) : Parser.Alike leeway pairs (.ok value) (.ok value)
  /-- Failures, perhaps with other labels. -/
  | fail {pairs : Pairing} {labels labels' : Labels} (hlabels : labels' = labels ∨ leeway.labels) :
      Parser.Alike leeway pairs (.fail labels) (.fail labels')
  /-- The end of the source. -/
  | eof {pairs : Pairing} : Parser.Alike leeway pairs .eof .eof
  /-- The place. -/
  | location {pairs : Pairing} : Parser.Alike leeway pairs .location .location
  /-- Empty sequences. -/
  | seqNil {pairs : Pairing} : Parser.Alike leeway pairs (.seq []) (.seq [])
  /-- Sequences that begin alike and go on alike. -/
  | seqCons {pairs : Pairing} {part part' : Parser} {parts parts' : List Parser}
      (hpart : Parser.Alike leeway pairs part part')
      (hparts : Parser.Alike leeway pairs (.seq parts) (.seq parts')) :
      Parser.Alike leeway pairs (.seq (part :: parts)) (.seq (part' :: parts'))
  /-- Choices between parsers that are alike. -/
  | or {pairs : Pairing} {first first' second second' : Parser}
      (hfirst : Parser.Alike leeway pairs first first')
      (hsecond : Parser.Alike leeway pairs second second') :
      Parser.Alike leeway pairs (.or first second) (.or first' second')
  /-- Functions that are alike, applied to the values of parsers that are alike. -/
  | map {pairs : Pairing} {of of' : Parser} {fn fn' : Value → Script Parser Maker Value}
      (hof : Parser.Alike leeway pairs of of')
      (hfn : ∀ value, Action.Alike leeway pairs (fn value).values (fn' value).values) :
      Parser.Alike leeway pairs (.map of fn) (.map of' fn')
  /-- Functions that are alike choose what comes after parsers that are alike. -/
  | chain {pairs : Pairing} {of of' : Parser} {fn fn' : Value → Script Parser Maker (Object Parser)}
      (hof : Parser.Alike leeway pairs of of')
      (hfn : ∀ value, Action.Alike leeway pairs (fn value).objects (fn' value).objects) :
      Parser.Alike leeway pairs (.chain of fn) (.chain of' fn')
  /-- Parsers that are alike, repeated. -/
  | many0 {pairs : Pairing} {of of' : Parser} (hof : Parser.Alike leeway pairs of of') :
      Parser.Alike leeway pairs (.many0 of) (.many0 of')
  /-- Parsers that are alike, relabelled. -/
  | desc {pairs : Pairing} {of of' : Parser} {labels labels' : Labels}
      (hof : Parser.Alike leeway pairs of of') (hlabels : labels' = labels ∨ leeway.labels) :
      Parser.Alike leeway pairs (.desc of labels) (.desc of' labels')
  /-- Only the first one is relabelled. -/
  | descLeft {pairs : Pairing} {of other : Parser} {labels : Labels} (hlabels : leeway.labels)
      (hof : Parser.Alike leeway pairs of other) : Parser.Alike leeway pairs (.desc of labels) other
  /-- Only the second one is relabelled. -/
  | descRight {pairs : Pairing} {other of : Parser} {labels : Labels} (hlabels : leeway.labels)
      (hof : Parser.Alike leeway pairs other of) : Parser.Alike leeway pairs other (.desc of labels)
  /-- Lazy parsers that are paired. -/
  | lazy {pairs : Pairing} {cell cell' : CellId} (hcell : cell.Pairs pairs cell') :
      Parser.Alike leeway pairs (.lazy cell) (.lazy cell')
  /-- Parsers put aside that are paired. -/
  | kept {pairs : Pairing} {number number' : Nat}
      (hnumber : (Reference.kept number, Reference.kept number') ∈ pairs) :
      Parser.Alike leeway pairs (.kept number) (.kept number')
  /-- Parsers written by hand, with actions that are alike. -/
  | custom {pairs : Pairing} {action action' : Source → Position → Script Parser Maker Result}
      (haction : ∀ source place,
        Action.Alike leeway pairs (action source place).results (action' source place).results) :
      Parser.Alike leeway pairs (.custom action) (.custom action')

/-- Scripts that do the same and end alike. -/
inductive Action.Alike (leeway : Leeway) : Pairing → Action Yield → Action Yield → Prop where
  /-- They end with parsers that are alike. -/
  | parser {pairs : Pairing} {p p' : Parser} (hp : Parser.Alike leeway pairs p p') :
      Action.Alike leeway pairs (.done (.object (.parser p))) (.done (.object (.parser p')))
  /-- They end with objects that are no parsers. -/
  | nonParser {pairs : Pairing} {object object' : Object Parser}
      (hobject : object.Pairs pairs (fun _ _ => False) object') :
      Action.Alike leeway pairs (.done (.object object)) (.done (.object object'))
  /-- They end with results that are alike. -/
  | result {pairs : Pairing} {result result' : Result}
      (hresult : Result.Alike leeway result result') :
      Action.Alike leeway pairs (.done (.result result)) (.done (.result result'))
  /-- They end with the same error. -/
  | raise {pairs : Pairing} (cause : Raised) :
      Action.Alike leeway pairs (.raise cause) (.raise cause)
  /-- They leave notes. -/
  | note {pairs : Pairing} {event event' : Event} {next next' : Action Yield}
      (hnext : Action.Alike leeway pairs next next') :
      Action.Alike leeway pairs (.note event next) (.note event' next')
  /-- They run parsers that are alike. -/
  | run {pairs : Pairing} {parser parser' : Parser} {source : Source} {start : Position}
      {next next' : Result → Action Yield} (hparser : Parser.Alike leeway pairs parser parser')
      (hnext : ∀ result result', Result.Alike leeway result result' →
        Action.Alike leeway pairs (next result) (next' result')) :
      Action.Alike leeway pairs (.run parser source start next) (.run parser' source start next')
  /-- They have paired lazy parsers made. -/
  | build {pairs : Pairing} {cell cell' : CellId} {next next' : Action Yield}
      (hcell : cell.Pairs pairs cell') (hnext : Action.Alike leeway pairs next next') :
      Action.Alike leeway pairs (.build cell next) (.build cell' next')
  /-- They get new lazy parsers of the same name. If stages may differ, these are made quietly. -/
  | defer {pairs : Pairing} {language language' : InstanceId} {name : String} {make make' : Maker}
      {next next' : CellId → Action Yield}
      (hhome : (Reference.home language, Reference.home language') ∈ pairs)
      (hmake : Action.Alike leeway pairs make.action.objects make'.action.objects)
      (hquiet : leeway.stages → make.action.Quiet ∧ make'.action.Quiet)
      (hnext : ∀ larger cell cell', pairs ⊆ larger → cell.Pairs larger cell' →
        Action.Alike leeway larger (next cell) (next' cell')) :
      Action.Alike leeway pairs (.defer language name make next)
        (.defer language' name make' next')
  /-- They ask for the stages of paired lazy parsers, which are the same. -/
  | inspect {pairs : Pairing} {cell cell' : CellId} {next next' : RuleState → String → Action Yield}
      (hstages : ¬ leeway.stages) (hcell : cell.Pairs pairs cell')
      (hnext : ∀ state shown, Action.Alike leeway pairs (next state shown) (next' state shown)) :
      Action.Alike leeway pairs (.inspect cell next) (.inspect cell' next')
  /-- They ask for stages and make nothing of the answers. -/
  | inspectAny {pairs : Pairing} {cell cell' : CellId}
      {next next' : RuleState → String → Action Yield}
      (hnext : ∀ state shown state' shown',
        Action.Alike leeway pairs (next state shown) (next' state' shown')) :
      Action.Alike leeway pairs (.inspect cell next) (.inspect cell' next')
  /-- They ask for the same attribute of paired languages. -/
  | lookUp {pairs : Pairing} {language language' : InstanceId} {name : String}
      {next next' : Object CellId → Action Yield}
      (hlanguage : (Reference.language language, Reference.language language') ∈ pairs)
      (hnext : ∀ larger found found', pairs ⊆ larger →
        found.Pairs larger (CellId.Pairs larger) found' →
        Action.Alike leeway larger (next found) (next' found')) :
      Action.Alike leeway pairs (.lookUp language name next) (.lookUp language' name next')
  /-- They ask for the same rule of paired languages. -/
  | rule {pairs : Pairing} {language language' : InstanceId} {name : String}
      {next next' : CellId → Action Yield}
      (hlanguage : (Reference.language language, Reference.language language') ∈ pairs)
      (hnext : ∀ larger cell cell', pairs ⊆ larger → cell.Pairs larger cell' →
        Action.Alike leeway larger (next cell) (next' cell')) :
      Action.Alike leeway pairs (.rule language name next) (.rule language' name next')
  /-- They get new languages of the same class, with further rules of the same names. -/
  | create {pairs : Pairing} {className : String} {arguments : List (String × Value)}
      {rules rules' : List (String × (Owner → Maker))} {next next' : InstanceId → Action Yield}
      (hclass : (Reference.className className, Reference.className className) ∈ pairs)
      (hnames : rules'.map Prod.fst = rules.map Prod.fst)
      (hrules : ∀ entry ∈ rules.zip rules', ∀ larger owner owner', pairs ⊆ larger →
        owner.Pairs larger owner' →
        Action.Alike leeway larger (entry.1.2 owner).action.objects
          (entry.2.2 owner').action.objects)
      (hquiet : ∀ entry ∈ rules.zip rules', ∀ owner, leeway.stages →
        (entry.1.2 owner).action.Quiet ∧ (entry.2.2 owner).action.Quiet)
      (hnext : ∀ larger language language', pairs ⊆ larger →
        (Reference.language language, Reference.language language') ∈ larger →
        (Reference.home language, Reference.home language') ∈ larger →
        Action.Alike leeway larger (next language) (next' language')) :
      Action.Alike leeway pairs (.create className arguments rules next)
        (.create className arguments rules' next')
  /-- They ask for what was put aside under the same name. -/
  | fetch {pairs : Pairing} {name : String} {next next' : Object Handle → Action Yield}
      (hname : (Reference.shelved name, Reference.shelved name) ∈ pairs)
      (hnext : ∀ larger found found', pairs ⊆ larger →
        found.Pairs larger (Handle.Pairs larger) found' →
        Action.Alike leeway larger (next found) (next' found')) :
      Action.Alike leeway pairs (.fetch name next) (.fetch name next')
  /-- They ask the same counter, which answers the same. -/
  | count {pairs : Pairing} {counter : Nat} {next next' : Nat → Action Yield}
      (hstages : ¬ leeway.stages)
      (hnext : ∀ before, Action.Alike leeway pairs (next before) (next' before)) :
      Action.Alike leeway pairs (.count counter next) (.count counter next')
  /-- They ask counters and make nothing of the answers. -/
  | countAny {pairs : Pairing} {counter counter' : Nat} {next next' : Nat → Action Yield}
      (hstages : leeway.stages)
      (hnext : ∀ before before', Action.Alike leeway pairs (next before) (next' before')) :
      Action.Alike leeway pairs (.count counter next) (.count counter' next')

end

/-! ## Pairing more -/

section Mono

variable {pairs larger : Pairing}

/-- Objects stay paired when more is paired. -/
theorem Object.Pairs.mono {P : Type} {inside inside' : P → P → Prop} {object object' : Object P}
    (hsub : pairs ⊆ larger) (hinside : ∀ p p', inside p p' → inside' p p')
    (h : object.Pairs pairs inside object') : object.Pairs larger inside' object' := by
  cases object with
  | parser p =>
    cases object' with
    | parser p' => exact hinside p p' h
    | value | table | other => exact h
  | table rules =>
    cases object' with
    | table rules' => exact Table.Rel.imp (fun _ _ hcell => hsub hcell) h
    | parser | value | other => exact h
  | value | other => cases object' <;> exact h

/-- Of paired objects both are parsers or neither is. -/
theorem Object.Pairs.eq_or {P : Type} {inside : P → P → Prop} {object object' : Object P}
    (h : object.Pairs pairs inside object') :
    (∃ p p', object = .parser p ∧ object' = .parser p' ∧ inside p p') ∨
      (∀ p, object ≠ .parser p) ∧ (∀ p, object' ≠ .parser p) ∧
        object.Pairs pairs (fun _ _ => False) object' := by
  cases object with
  | parser p =>
    cases object' with
    | parser p' => exact .inl ⟨p, p', rfl, rfl, h⟩
    | value | table | other => exact h.elim
  | value | table | other =>
    cases object' with
    | parser p' => exact h.elim
    | value | table | other => exact .inr ⟨nofun, nofun, h⟩

/-- Parsers that can be recognised again stay paired when more is paired. -/
theorem Handle.Pairs.mono {handle handle' : Handle} (hsub : pairs ⊆ larger)
    (h : handle.Pairs pairs handle') : handle.Pairs larger handle' := by
  cases handle with
  | lazy cell =>
    cases handle' with
    | lazy cell' => exact hsub h
    | eof | location | kept => exact h
  | kept number =>
    cases handle' with
    | kept number' => exact hsub h
    | eof | location | lazy => exact h
  | eof | location => cases handle' <;> exact h

end Mono

mutual

/-- Parsers stay alike when more is paired. -/
theorem Parser.Alike.mono {leeway : Leeway} {pairs larger : Pairing} (hsub : pairs ⊆ larger)
    {p p' : Parser} : Parser.Alike leeway pairs p p' → Parser.Alike leeway larger p p'
  | .text literal => .text literal
  | .pattern regex => .pattern regex
  | .ok value => .ok value
  | .fail hlabels => .fail hlabels
  | .eof => .eof
  | .location => .location
  | .seqNil => .seqNil
  | .seqCons hpart hparts => .seqCons (hpart.mono hsub) (hparts.mono hsub)
  | .or hfirst hsecond => .or (hfirst.mono hsub) (hsecond.mono hsub)
  | .map hof hfn => .map (hof.mono hsub) fun value => (hfn value).mono hsub
  | .chain hof hfn => .chain (hof.mono hsub) fun value => (hfn value).mono hsub
  | .many0 hof => .many0 (hof.mono hsub)
  | .desc hof hlabels => .desc (hof.mono hsub) hlabels
  | .descLeft hlabels hof => .descLeft hlabels (hof.mono hsub)
  | .descRight hlabels hof => .descRight hlabels (hof.mono hsub)
  | .lazy hcell => .lazy (hsub hcell)
  | .kept hnumber => .kept (hsub hnumber)
  | .custom haction => .custom fun source place => (haction source place).mono hsub

/-- Scripts stay alike when more is paired. -/
theorem Action.Alike.mono {leeway : Leeway} {pairs larger : Pairing} (hsub : pairs ⊆ larger)
    {action action' : Action Yield} :
    Action.Alike leeway pairs action action' → Action.Alike leeway larger action action'
  | .parser hp => .parser (hp.mono hsub)
  | .nonParser hobject => .nonParser (hobject.mono hsub fun _ _ h => h)
  | .result hresult => .result hresult
  | .raise cause => .raise cause
  | .note hnext => .note (hnext.mono hsub)
  | .run hparser hnext =>
      .run (hparser.mono hsub) fun result result' h => (hnext result result' h).mono hsub
  | .build hcell hnext => .build (hsub hcell) (hnext.mono hsub)
  | .defer hhome hmake hquiet hnext =>
      .defer (hsub hhome) (hmake.mono hsub) hquiet fun larger' cell cell' h =>
        hnext larger' cell cell' (hsub.trans h)
  | .inspect hstages hcell hnext =>
      .inspect hstages (hsub hcell) fun state shown => (hnext state shown).mono hsub
  | .inspectAny hnext =>
      .inspectAny fun state shown state' shown' => (hnext state shown state' shown').mono hsub
  | .lookUp hlanguage hnext =>
      .lookUp (hsub hlanguage) fun larger' found found' h =>
        hnext larger' found found' (hsub.trans h)
  | .rule hlanguage hnext =>
      .rule (hsub hlanguage) fun larger' cell cell' h => hnext larger' cell cell' (hsub.trans h)
  | .create hclass hnames hrules hquiet hnext =>
      .create (hsub hclass) hnames
        (fun entry hentry larger' owner owner' h =>
          hrules entry hentry larger' owner owner' (hsub.trans h))
        hquiet fun larger' language language' h => hnext larger' language language' (hsub.trans h)
  | .fetch hname hnext =>
      .fetch (hsub hname) fun larger' found found' h => hnext larger' found found' (hsub.trans h)
  | .count hstages hnext => .count hstages fun before => (hnext before).mono hsub
  | .countAny hstages hnext =>
      .countAny hstages fun before before' => (hnext before before').mono hsub

end

/-! ## One script after another -/

/-- What comes after scripts that are alike may rely on all that is paired by then. -/
theorem Action.Alike.bind {leeway : Leeway} {pairs : Pairing} {action action' : Action Yield}
    {rest rest' : Yield → Action Yield}
    (hrest : ∀ larger yield yield', pairs ⊆ larger →
      Action.Alike leeway larger (.done yield) (.done yield') →
      Action.Alike leeway larger (rest yield) (rest' yield')) :
    Action.Alike leeway pairs action action' →
      Action.Alike leeway pairs (action.bind rest) (action'.bind rest')
  | .parser hp => hrest _ _ _ .rfl (.parser hp)
  | .nonParser hobject => hrest _ _ _ .rfl (.nonParser hobject)
  | .result hresult => hrest _ _ _ .rfl (.result hresult)
  | .raise cause => .raise cause
  | .note hnext => .note (hnext.bind hrest)
  | .run hparser hnext =>
      .run hparser fun result result' h => (hnext result result' h).bind hrest
  | .build hcell hnext => .build hcell (hnext.bind hrest)
  | .defer hhome hmake hquiet hnext =>
      .defer hhome hmake hquiet fun larger cell cell' h hcell =>
        (hnext larger cell cell' h hcell).bind fun largest yield yield' h' =>
          hrest largest yield yield' (h.trans h')
  | .inspect hstages hcell hnext =>
      .inspect hstages hcell fun state shown => (hnext state shown).bind hrest
  | .inspectAny hnext =>
      .inspectAny fun state shown state' shown' => (hnext state shown state' shown').bind hrest
  | .lookUp hlanguage hnext =>
      .lookUp hlanguage fun larger found found' h hfound =>
        (hnext larger found found' h hfound).bind fun largest yield yield' h' =>
          hrest largest yield yield' (h.trans h')
  | .rule hlanguage hnext =>
      .rule hlanguage fun larger cell cell' h hcell =>
        (hnext larger cell cell' h hcell).bind fun largest yield yield' h' =>
          hrest largest yield yield' (h.trans h')
  | .create hclass hnames hrules hquiet hnext =>
      .create hclass hnames hrules hquiet fun larger language language' h hlanguage hhome =>
        (hnext larger language language' h hlanguage hhome).bind fun largest yield yield' h' =>
          hrest largest yield yield' (h.trans h')
  | .fetch hname hnext =>
      .fetch hname fun larger found found' h hfound =>
        (hnext larger found found' h hfound).bind fun largest yield yield' h' =>
          hrest largest yield yield' (h.trans h')
  | .count hstages hnext => .count hstages fun before => (hnext before).bind hrest
  | .countAny hstages hnext =>
      .countAny hstages fun before before' => (hnext before before').bind hrest

/-- Parsers that leave out the value of another one are alike if both parts are. -/
theorem Parser.Alike.skip {leeway : Leeway} {pairs : Pairing} {p p' other other' : Parser}
    (hp : Parser.Alike leeway pairs p p') (hother : Parser.Alike leeway pairs other other') :
    Parser.Alike leeway pairs (p.skip other) (p'.skip other') :=
  .map (.seqCons hp (.seqCons hother .seqNil)) fun _ => .nonParser rfl

/-- Quiet scripts one after another are quiet. -/
theorem Script.Quiet.bind {P M α β : Type} {script : Script P M α} {next : α → Script P M β}
    (h : script.Quiet) (hnext : ∀ result, (next result).Quiet) : (script.bind next).Quiet := by
  induction script with
  | done result => exact hnext result
  | raise cause => trivial
  | note event rest ih => exact ih h
  | run parser source start rest ih => exact h.elim
  | build cell rest ih => exact ih h
  | defer language name make rest ih => exact fun cell => ih cell (h cell)
  | inspect cell rest ih => exact fun state shown => ih state shown (h state shown)
  | lookUp language name rest ih => exact fun found => ih found (h found)
  | rule language name rest ih => exact fun cell => ih cell (h cell)
  | create className arguments rules rest ih => exact fun language => ih language (h language)
  | fetch name rest ih => exact fun found => ih found (h found)
  | count counter rest ih => exact fun before => ih before (h before)

end Descent
