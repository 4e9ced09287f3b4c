import Descent.Proofs.Endings.Gives
import Descent.Proofs.Lists.Digits
import Descent.Proofs.Lists.Trees
import Descent.Session

/-! # The language of nested lists

Three rules that refer to each other: a value is a number or a list, a list is made of values with
commas between them, in square brackets, and a number is one or more digits.

* **`Lists.products`** — the parsers of the rules, for any function that reads the numbers.
* **`Lists.houses_of_create`** — a new language of a class with these rules houses them.
* **`Lists.Tells`** — what the result of a rule tells of the text behind a place.
* **`Lists.tells_value`** — from every place, the rule for values gives a result that tells of it.
* **`Lists.value_run`** — main statement: the rule for values matches what the grammar derives and
  nothing else, takes the longest of it, and gives the tree that it denotes. -/

namespace Descent.Lists

/-! ## The rules -/

/-- A number or a list. -/
def valueGrammar : Grammar := .or (.rule "number") (.rule "list") true

/-- Values with commas between them, in brackets. -/
def listGrammar : Grammar :=
  .wrap (.sepBy0 (.rule "value") (.text (.const (.str ",")))) (.text (.const (.str "[")))
    (.text (.const (.str "]")))

/-- One or more digits, read as an integer. -/
def numberGrammar : Grammar := .map (.pattern (.const (.str "[0-9]+")) .none none) .int

/-- The three rules. -/
def grammars : Table Grammar :=
  [("value", valueGrammar), ("list", listGrammar), ("number", numberGrammar)]

section Products

variable (convert : Value → Action Value) (cells : String → CellId)

/-- What comes of the rule for values. -/
def valueProduct : Product :=
  ⟨[.byAttribute "number", .byAttribute "list"],
    .or (.lazy (cells "number")) (.lazy (cells "list"))⟩

/-- What comes of the rule for lists. -/
def listProduct : Product :=
  ⟨[.byAttribute "value"],
    ((Parser.lazy (cells "value")).sepBy0 (.text ",")).wrap (.text "[") (.text "]")⟩

/-- What comes of the rule for numbers, where `convert` reads them. -/
def numberProduct : Product := ⟨[], .map (.pattern digits) convert⟩

/-- What comes of the three rules. -/
def products : Table Product :=
  [("value", valueProduct cells), ("list", listProduct cells), ("number", numberProduct convert)]

variable {convert cells}

/-- There are no other rules. -/
theorem eq_of_get?_products {name : String} {product : Product}
    (h : (products convert cells).get? name = some product) :
    name = "value" ∧ product = valueProduct cells ∨ name = "list" ∧ product = listProduct cells ∨
      name = "number" ∧ product = numberProduct convert := by
  have hentry := Table.mem_of_get? h
  simpa [products] using hentry

end Products

/-! ## What the rules make -/

section Makes

variable {language : InstanceId} {cells : String → CellId}

/-- A reference to a rule leads to its lazy parser. -/
theorem perform_attributeOf {engine : Engine Eval} {store : Store} {name : String}
    (h : store.Resolves language cells (.byAttribute name)) :
    (engine.perform (Grammar.attributeOf language name)).on store
      = some (.ok (.parser (.lazy (cells name))), store) := by
  have hconsult : (Eval.consult (·.lookUp language name)).on store
      = some (.ok (.parser (cells name)), store) := by
    rw [Eval.consult_on, show store.lookUp language name = _ from h]
  exact Eval.bind_ok hconsult

/-- A grammar as a rule of a class. -/
def definitionOf (name : String) (grammar : Grammar) : Definition :=
  ⟨name, none, Session.bodyOf grammar⟩

/-- The maker of such a rule. -/
def makerOf (name : String) (grammar : Grammar) (owner : Owner) : Maker :=
  .mk ((definitionOf name grammar).action owner)

/-- It makes the parser that the grammar describes. -/
theorem makes_of_build {name : String} {grammar : Grammar} {owner : Owner} {cells : String → CellId}
    {mentions : List Mention} {p : Parser}
    (h : ∀ (engine : Engine Eval) (store : Store),
      (∀ mention ∈ mentions, store.Resolves owner.language cells mention) →
      (engine.perform (grammar.build ⟨owner, []⟩)).on store = some (.ok (.parser p), store)) :
    (makerOf name grammar owner).Makes owner.language cells mentions p :=
  fun engine store hmentions => Engine.perform_bind_ok (h engine store hmentions) _

/-- The rule for values makes a choice. -/
theorem makes_value (owner : Owner) (cells : String → CellId) :
    (makerOf "value" valueGrammar owner).Makes owner.language cells (valueProduct cells).mentions
      (valueProduct cells).parser := by
  refine makes_of_build fun engine store h => ?_
  have hnumber : (engine.perform (Grammar.build ⟨owner, []⟩ (.rule "number"))).on store = _ :=
    perform_attributeOf (h _ (.head _))
  have hlist : (engine.perform (Grammar.build ⟨owner, []⟩ (.rule "list"))).on store = _ :=
    perform_attributeOf (h _ (.tail _ (.head _)))
  rw [valueGrammar, Grammar.build, Engine.perform_bind_ok hnumber, Engine.perform_bind_ok hlist]
  rfl

/-- The rule for lists makes brackets around a repetition. -/
theorem makes_list (owner : Owner) (cells : String → CellId) :
    (makerOf "list" listGrammar owner).Makes owner.language cells (listProduct cells).mentions
      (listProduct cells).parser := by
  refine makes_of_build fun engine store h => ?_
  have hvalue : (engine.perform (Grammar.build ⟨owner, []⟩ (.rule "value"))).on store = _ :=
    perform_attributeOf (h _ (.head _))
  have hitems : (engine.perform (Grammar.build ⟨owner, []⟩
      (.sepBy0 (.rule "value") (.text (.const (.str ",")))))).on store
        = some (.ok (.parser ((Parser.lazy (cells "value")).sepBy0 (.text ","))), store) := by
    rw [Grammar.build, Engine.perform_bind_ok (Engine.perform_receive _ hvalue)]
    rfl
  rw [listGrammar, Grammar.build, Engine.perform_bind_ok (Engine.perform_receive _ hitems)]
  rfl

/-- The rule for numbers makes a regular expression with a function. -/
theorem makes_number (owner : Owner) (cells : String → CellId) :
    (makerOf "number" numberGrammar owner).Makes owner.language cells
      (numberProduct Grammar.Function.int.apply).mentions
      (numberProduct Grammar.Function.int.apply).parser := by
  refine makes_of_build fun engine store h => ?_
  have hof : Grammar.patternOf .none none (.str "[0-9]+") = .ok (.pattern digits) := by
    rw [Grammar.patternOf, Parser.pattern?, compile?_digits]
  have htext : (engine.perform (Script.ofExcept (.ok (Value.str "[0-9]+")))).on store
      = some (.ok (.str "[0-9]+"), store) := rfl
  have hpattern : (engine.perform (Grammar.build ⟨owner, []⟩
      (.pattern (.const (.str "[0-9]+")) .none none))).on store
        = some (.ok (.parser (.pattern digits)), store) := by
    rw [Grammar.build, Grammar.Expr.eval, Engine.perform_bind_ok htext, hof]
    rfl
  rw [numberGrammar, Grammar.build, Engine.perform_bind_ok (Engine.perform_receive _ hpattern)]
  rfl

/-- A new language of a class with the three rules houses their parsers. -/
theorem houses_of_create {store after : Store} {className : String} {arguments : Table Value}
    {mapping : Table (Owner → Maker)}
    (hcreate : store.create className arguments mapping = .ok (language, after))
    (hresolves : ∀ name ∈ grammars.names, after.Resolves language cells (.byName name) ∧
      after.Resolves language cells (.byAttribute name))
    (hmaker : ∀ cls name grammar, store.classNamed className = .ok cls →
      grammars.get? name = some grammar →
      (store.makers (store.classAt cls).lineage ⟨language, arguments⟩ mapping).get? name
        = some (makerOf name grammar ⟨language, arguments⟩)) :
    after.Houses language (products Grammar.Function.int.apply cells) cells := by
  refine .of_create hcreate (fun name hname => (hresolves name hname).1) ?_ ?_
  · intro name product hproduct mention hmention
    -- the rules mention one another only
    have hnumber : "number" ∈ grammars.names := by decide
    have hlist : "list" ∈ grammars.names := by decide
    have hvalue : "value" ∈ grammars.names := by decide
    rcases eq_of_get?_products hproduct with ⟨-, rfl⟩ | ⟨-, rfl⟩ | ⟨-, rfl⟩
    · rcases List.mem_pair.mp hmention with rfl | rfl
      · exact ⟨hnumber, (hresolves "number" hnumber).2⟩
      · exact ⟨hlist, (hresolves "list" hlist).2⟩
    · cases List.mem_singleton.mp hmention
      exact ⟨hvalue, (hresolves "value" hvalue).2⟩
    · cases hmention
  · intro cls name product maker hcls hproduct hget
    rcases eq_of_get?_products hproduct with ⟨rfl, rfl⟩ | ⟨rfl, rfl⟩ | ⟨rfl, rfl⟩
    · rw [hmaker cls "value" valueGrammar hcls rfl, Option.some.injEq] at hget
      exact hget ▸ makes_value _ _
    · rw [hmaker cls "list" listGrammar hcls rfl, Option.some.injEq] at hget
      exact hget ▸ makes_list _ _
    · rw [hmaker cls "number" numberGrammar hcls rfl, Option.some.injEq] at hget
      exact hget ▸ makes_number _ _

end Makes

/-! ## Results -/

/-- What a result tells of the text behind a place: a match, that a text stands there and which
tree it denotes, and a failure, that there is none. -/
def Tells (place : Position) (rest : List Char) : Result → Prop
  | .matched stop value => ∃ text tree others, rest = text ++ others ∧ Stands text tree others ∧
      stop = place.advance text ∧ value = tree.value
  | .failed _ => ∀ text tree, Denotes text tree → ¬ text <+: rest

/-- A function reads all numbers of a source. -/
def Reads (convert : Value → Action Value) (source : Source) : Prop :=
  ∀ run, run <:+: source → run ≠ [] → (∀ c ∈ run, c.isDigit = true) →
    convert (.str (String.ofList run)) = .done (.int (Nat.ofDigitChars 10 run 0))

/-- The function for integers reads all numbers of a source that is not too long. -/
theorem reads_int {source : Source} (h : source.length ≤ Text.Numeral.longest) :
    Reads Grammar.Function.int.apply source := by
  intro run hrun hne hdigits
  rw [Grammar.Function.apply, Value.toInteger_digits hne hdigits (hrun.length_le.trans h)]
  rfl

section Gives

variable {language : InstanceId} {convert : Value → Action Value} {cells : String → CellId}
  {source : Source} {place : Position} {rest : List Char}

variable (language convert cells) in
/-- A store houses the parsers of the three rules. -/
abbrev Housed : Store → Prop := (·.Houses language (products convert cells) cells)

variable (language convert cells source) in
/-- From a place, the lazy parser of a rule gives a result that tells of the text behind the
place. -/
def TellsFrom (name : String) (place : Position) (rest : List Char) : Prop :=
  ∃ result, (Parser.lazy (cells name)).Gives (Housed language convert cells) source place result ∧
    Tells place rest result

theorem TellsFrom.matched {name : String} {text others : List Char} {tree : Tree}
    (hgives : (Parser.lazy (cells name)).Gives (Housed language convert cells)
      source place (.matched (place.advance text) tree.value))
    (hstands : Stands text tree others) (hrest : rest = text ++ others) :
    TellsFrom language convert cells source name place rest :=
  ⟨_, hgives, text, tree, others, hrest, hstands, rfl, rfl⟩

theorem TellsFrom.failed {name : String} {failure : Failure}
    (hgives : (Parser.lazy (cells name)).Gives (Housed language convert cells)
      source place (.failed failure))
    (hnone : ∀ text tree, Denotes text tree → ¬ text <+: rest) :
    TellsFrom language convert cells source name place rest :=
  ⟨_, hgives, hnone⟩

variable (language cells) in
/-- The rule for numbers matches where digits stand, and fails elsewhere. -/
theorem gives_number (hreads : Reads convert source) (hplace : place.Faces source rest) :
    (Parser.lazy (cells "number")).Gives (Housed language convert cells) source place
      (if rest.takeWhile Char.isDigit = [] then .failed ⟨place, [.str digits.label]⟩
        else .matched (place.advance (rest.takeWhile Char.isDigit))
          (.int (Nat.ofDigitChars 10 (rest.takeWhile Char.isDigit) 0))) := by
  have hproduct : (products convert cells).get? "number" = some (numberProduct convert) := rfl
  refine Parser.Gives.lazy ?_ hproduct
  have hgives : (Parser.pattern digits).Gives (Housed language convert cells)
    source place _ := .digits hplace
  by_cases hnone : rest.takeWhile Char.isDigit = []
  · rw [if_pos hnone] at hgives ⊢
    exact hgives.map_failed
  · rw [if_neg hnone] at hgives ⊢
    have hrun : rest.takeWhile Char.isDigit <:+: source := by
      rw [← @List.takeWhile_append_dropWhile _ Char.isDigit rest] at hplace
      exact hplace.infix_of_append
    exact hgives.map (hreads _ hrun hnone fun c hc => List.mem_takeWhile_imp hc)

/-- Commas and values are taken as long as there are any, if the rule for values tells of all that
is behind them. -/
theorem gives_many0
    (ih : ∀ {rest' : List Char} {place' : Position}, rest'.length < rest.length →
      place'.Faces source rest' → TellsFrom language convert cells source "value" place' rest')
    (hplace : place.Faces source rest) :
    ∃ more trees others, rest = more ++ others ∧ StandsMore more trees others ∧
      (Parser.many0 ((Parser.text ",").next (.lazy (cells "value")))).Gives
        (Housed language convert cells) source place
        (.matched (place.advance more) (.list (Tree.value.values trees))) ∧
      ∀ last, others = ',' :: last → ∀ text tree, Denotes text tree → ¬ text <+: last := by
  have hliteral : ",".toList = [','] := rfl
  -- each comma with its value takes something off what is left
  induction hlength : rest.length using Nat.strong_induction_on generalizing rest place with
  | _ length ihrest =>
    by_cases hcomma : ∃ last, rest = ',' :: last
    · obtain ⟨last, rfl⟩ := hcomma
      have hlast : (place.advance [',']).Faces source last := Position.Faces.advance hplace
      obtain ⟨result, hgives, htells⟩ := ih (Nat.lt_succ_self _) hlast
      have hitem := (Parser.Gives.mark hliteral hplace).next hgives
      cases result with
      | failed failure =>
        -- the comma is given back
        refine ⟨[], [], _, rfl, .none _, by simpa [Tree.value.values] using hitem.many0_failed, ?_⟩
        rintro _ ⟨⟩
        exact htells
      | matched stop value =>
        obtain ⟨text, tree, others, rfl, hstands, rfl, rfl⟩ := htells
        have hshorter : others.length < (',' :: (text ++ others)).length := by
          rw [List.length_cons, List.length_append]
          omega
        obtain ⟨more, trees, others, rfl, hmore, hgivesmore, hstuck⟩ :=
          ihrest _ (hlength ▸ hshorter) (fun hlt => ih (hlt.trans hshorter)) hlast.advance rfl
        refine ⟨',' :: (text ++ more), tree :: trees, others, by simp, .more hstands hmore, ?_,
          hstuck⟩
        rw [Position.advance_append] at hitem hgivesmore
        have hfirst := hitem.many0_advance (List.cons_ne_nil _ _) hgivesmore
        rwa [Position.advance_append, List.append_assoc] at hfirst
    · have hother : ∀ last, rest ≠ ',' :: last := fun last heq => hcomma ⟨last, heq⟩
      have hitem : ((Parser.text ",").next (.lazy (cells "value"))).Gives
          (Housed language convert cells) source place _ :=
        (Parser.Gives.mark_failed hliteral hplace hother).next_failed
      exact ⟨[], [], rest, rfl, .none rest, by simpa [Tree.value.values] using hitem.many0_failed,
        fun last heq => absurd heq (hother last)⟩

/-- Behind an opening bracket, the list with separators ends where the bracket has to be closed: if
it is, then what stands there is a list, and otherwise nothing is derived. -/
theorem gives_items
    (ih : ∀ {rest' : List Char} {place' : Position}, rest'.length ≤ rest.length →
      place'.Faces source rest' → TellsFrom language convert cells source "value" place' rest')
    (hplace : place.Faces source rest) :
    ∃ items trees others, rest = items ++ others ∧
      ((Parser.lazy (cells "value")).sepBy0 (.text ",")).Gives
        (Housed language convert cells) source place
        (.matched (place.advance items) (.list (Tree.value.values trees))) ∧
      Denotes ('[' :: (items ++ [']'])) (.list trees) ∧
      ((∀ last, others ≠ ']' :: last) →
        ∀ text tree, Denotes text tree → ¬ text <+: '[' :: rest) := by
  obtain ⟨result, hgives, htells⟩ := ih (Nat.le_refl _) hplace
  cases result with
  | failed failure =>
    have hitems : ((Parser.lazy (cells "value")).sepBy0 (.text ",")).Gives
        (Housed language convert cells) source place _ := hgives.sepBy0_failed
    exact ⟨[], [], rest, rfl, by simpa [Tree.value.values] using hitems, .empty,
      fun hopen _ _ hdenotes => not_denotes_of_empty htells hopen hdenotes⟩
  | matched stop value =>
    obtain ⟨first, tree, others, rfl, hstands, rfl, rfl⟩ := htells
    obtain ⟨more, trees, others, rfl, hmore, hgivesmore, hstuck⟩ :=
      gives_many0 (fun hlt => ih (hlt.le.trans (by simp))) hplace.advance
    refine ⟨first ++ more, tree :: trees, others, by simp, ?_, ?_,
      fun hopen _ _ hdenotes => not_denotes_of_stuck hstands hmore hstuck hopen hdenotes⟩
    · rw [← Position.advance_append]
      exact hgives.sepBy0 hgivesmore
    · exact .list hstands.denotes hmore.denotes

/-- Where no digit stands, the rule for lists tells of what is behind a place, if the rule for
values tells of all that is shorter. -/
theorem tells_list
    (ih : ∀ {rest' : List Char} {place' : Position}, rest'.length < rest.length →
      place'.Faces source rest' → TellsFrom language convert cells source "value" place' rest')
    (hplace : place.Faces source rest) (hnone : rest.takeWhile Char.isDigit = []) :
    TellsFrom language convert cells source "list" place rest := by
  have hproduct : (products convert cells).get? "list" = some (listProduct cells) := rfl
  have hopening : "[".toList = ['['] := rfl
  have hclosing : "]".toList = [']'] := rfl
  by_cases hbracket : ∃ inner, rest = '[' :: inner
  · obtain ⟨inner, rfl⟩ := hbracket
    have hinner : (place.advance ['[']).Faces source inner := Position.Faces.advance hplace
    obtain ⟨items, trees, others, rfl, hitems, hdenotes, hopen⟩ :=
      gives_items (fun hle => ih (Nat.lt_succ_of_le hle)) hinner
    have hfront := (Parser.Gives.mark hopening hplace).next hitems
    by_cases hclosed : ∃ last, others = ']' :: last
    · obtain ⟨last, rfl⟩ := hclosed
      have hgives := (hfront.skip (Parser.Gives.mark hclosing hinner.advance)).lazy hproduct
      have hrest : '[' :: (items ++ ']' :: last) = '[' :: (items ++ [']']) ++ last := by simp
      rw [Result.mapValue_matched, Position.advance_mark] at hgives
      exact .matched hgives ⟨hdenotes, nofun⟩ hrest
    · have hother : ∀ last, others ≠ ']' :: last := fun last heq => hclosed ⟨last, heq⟩
      have hgives :=
        (hfront.skip (Parser.Gives.mark_failed hclosing hinner.advance hother)).lazy hproduct
      exact .failed hgives (hopen hother)
  · have hother : ∀ inner, rest ≠ '[' :: inner := fun inner heq => hbracket ⟨inner, heq⟩
    have hgives : (Parser.lazy (cells "list")).Gives (Housed language convert cells) source place
        _ :=
      (Parser.Gives.mark_failed hopening hplace hother).next_failed.skip_failed.lazy hproduct
    -- neither a digit nor a bracket stands here, and nothing that is derived starts otherwise
    refine .failed hgives fun _ _ => not_denotes_of_head fun c hc => ?_
    obtain ⟨others, rfl⟩ : ∃ others, rest = c :: others := List.head?_eq_some_iff.mp hc
    refine ⟨?_, ?_⟩
    · by_contra hdigit
      rw [List.takeWhile_cons_of_pos (by simpa using hdigit)] at hnone
      cases hnone
    · rintro rfl
      exact hother others rfl

variable (language cells) in
/-- From every place, the rule for values gives a result that tells whether, and how far, a text
stands there, and which tree it denotes. -/
theorem tells_value (hreads : Reads convert source) (hplace : place.Faces source rest) :
    TellsFrom language convert cells source "value" place rest := by
  have hproduct : (products convert cells).get? "value" = some (valueProduct cells) := rfl
  induction hlength : rest.length using Nat.strong_induction_on generalizing rest place with
  | _ length ih =>
    -- the first character decides between the two rules: the choice is never made twice
    have hnumber := gives_number language cells hreads hplace
    by_cases hnone : rest.takeWhile Char.isDigit = []
    · rw [if_pos hnone] at hnumber
      obtain ⟨result, hlist, htells⟩ :=
        tells_list (fun hlt hface => ih _ (hlength ▸ hlt) hface rfl) hplace hnone
      have hgives := (hnumber.or_failed hlist).lazy hproduct
      cases result with
      | matched stop value => exact ⟨_, hgives, htells⟩
      | failed failure => exact .failed hgives htells
    · rw [if_neg hnone] at hnumber
      exact .matched (hnumber.or.lazy hproduct) (stands_digits hnone)
        List.takeWhile_append_dropWhile.symm

end Gives

/-! ## The language -/

/-- The rule for values, run on a source whose numbers can be read. First, it matches the usual text
of every tree, whatever follows that does not start with a digit, and gives the tree. Second, on
every source it returns; it matches exactly if the source starts with a text that the grammar
derives, and then it consumes the longest such text and gives the tree that the text denotes. -/
theorem value_run {store : Store} {language : InstanceId} {convert : Value → Action Value}
    {cells : String → CellId} (hstore : store.Houses language (products convert cells) cells) :
    (∀ (tree : Tree) (rest : List Char), NoDigit rest → Reads convert (tree.print ++ rest) →
      ∃ after, (Parser.lazy (cells "value")).Ends (tree.print ++ rest) .start store
        (.ok (.matched (Position.start.advance tree.print) tree.value)) after) ∧
    (∀ source : Source, Reads convert source →
      ∃ result after, (Parser.lazy (cells "value")).Ends source .start store (.ok result) after ∧
        ((∃ stop value, result = .matched stop value) ↔
          ∃ text tree, Denotes text tree ∧ text <+: source) ∧
        ∀ stop value, result = .matched stop value →
          ∃ text tree, Denotes text tree ∧ text <+: source ∧
            (∀ text' tree', Denotes text' tree' → text' <+: source → text'.length ≤ text.length) ∧
            (∀ tree', Denotes text tree' → tree' = tree) ∧
            stop = Position.start.advance text ∧ value = tree.value) := by
  constructor
  · intro tree rest hrest hreads
    have hstands : Stands tree.print tree rest := ⟨tree.denotes_print, fun _ _ => hrest⟩
    obtain ⟨result, hgives, htells⟩ := tells_value language cells hreads
      (Position.Faces.start (tree.print ++ rest))
    obtain ⟨after, hends, -⟩ := hgives store hstore
    cases result with
    | matched stop value =>
      -- what was matched stands in front, as the printed text does, so it is the same text
      obtain ⟨text, tree', others, heq, hstands', rfl, rfl⟩ := htells
      obtain ⟨rfl, rfl⟩ := hstands.unique hstands' heq
      exact ⟨after, hends⟩
    | failed failure =>
      exact absurd (List.prefix_append _ _) (htells tree.print tree tree.denotes_print)
  · intro source hreads
    obtain ⟨result, hgives, htells⟩ := tells_value language cells hreads
      (Position.Faces.start source)
    obtain ⟨after, hends, -⟩ := hgives store hstore
    refine ⟨result, after, hends, ?_, ?_⟩
    · cases result with
      | matched stop value =>
        obtain ⟨text, tree, others, rfl, hstands, -, -⟩ := htells
        exact ⟨fun _ => ⟨text, tree, hstands.denotes, List.prefix_append _ _⟩,
          fun _ => ⟨stop, value, rfl⟩⟩
      | failed failure =>
        refine ⟨?_, ?_⟩
        · rintro ⟨_, _, ⟨⟩⟩
        · rintro ⟨text, tree, hdenotes, hfront⟩
          exact absurd hfront (htells text tree hdenotes)
    · rintro stop value rfl
      obtain ⟨text, tree, others, rfl, hstands, hstop, hvalue⟩ := htells
      exact ⟨text, tree, hstands.denotes, List.prefix_append _ _,
        fun _ _ hdenotes hfront => hstands.length_le hdenotes hfront,
        fun _ hdenotes => hstands.denotes.tree_unique hdenotes, hstop, hvalue⟩

/-! ## A language

The three rules as rules of a class, and a language of the class. -/

/-- The lazy parsers of the rules. -/
def listCells (name : String) : CellId :=
  if name = "value" then ⟨0, 0⟩ else if name = "list" then ⟨0, 1⟩ else ⟨0, 2⟩

/-- A store with the class. -/
def listClasses : Store :=
  { Store.initial false with
    definitions := #[definitionOf "value" valueGrammar, definitionOf "list" listGrammar,
      definitionOf "number" numberGrammar]
    classes := #[⟨Store.baseName, [Store.base], [], true⟩,
      ⟨"Lists", [1, Store.base], [("value", .rule 0), ("list", .rule 1), ("number", .rule 2)],
        true⟩]
    classNames := [(Store.baseName, Store.base), ("Lists", 1)] }

/-- A store with a language of the class. -/
def listStore : Store :=
  { listClasses with
    instances := #[⟨1, [], some [("value", ⟨0, 0⟩), ("list", ⟨0, 1⟩), ("number", ⟨0, 2⟩)],
      #[.unbuilt "value" (makerOf "value" valueGrammar ⟨0, []⟩),
        .unbuilt "list" (makerOf "list" listGrammar ⟨0, []⟩),
        .unbuilt "number" (makerOf "number" numberGrammar ⟨0, []⟩)]⟩] }

/-- It houses the parsers of the rules. -/
theorem houses_listStore :
    listStore.Houses 0 (products Grammar.Function.int.apply listCells) listCells := by
  have hcreate : listClasses.create "Lists" [] [] = .ok (0, listStore) := rfl
  refine houses_of_create hcreate ?_ ?_
  · intro name hname
    simp only [grammars, Table.names, List.map_cons, List.map_nil, List.mem_cons, List.not_mem_nil,
      or_false] at hname
    rcases hname with rfl | rfl | rfl
    all_goals exact ⟨rfl, rfl⟩
  · intro cls name grammar hcls hgrammar
    have hentry := Table.mem_of_get? hgrammar
    simp only [grammars, List.mem_cons, Prod.mk.injEq, List.not_mem_nil, or_false] at hentry
    cases hcls
    rcases hentry with ⟨rfl, rfl⟩ | ⟨rfl, rfl⟩ | ⟨rfl, rfl⟩
    all_goals rfl

/-- A list in a list with blanks behind it, and a list that is not closed. -/
theorem value_run_nested :
    let tree : Tree := .list [.number 1, .list [.number 23], .list []]
    let source : Source := ['[', '1', ',', ']']
    listStore.Houses 0 (products Grammar.Function.int.apply listCells) listCells ∧
      (NoDigit [' '] ∧ Reads Grammar.Function.int.apply (tree.print ++ [' ']) ∧
        ∃ after, (Parser.lazy ⟨0, 0⟩).Ends "[1,[23],[]] ".toList .start listStore
          (.ok (.matched ⟨11, 1, 12⟩ (.list [.int 1, .list [.int 23], .list []]))) after) ∧
      (Reads Grammar.Function.int.apply source ∧
        ∃ result after, (Parser.lazy ⟨0, 0⟩).Ends source .start listStore (.ok result) after ∧
          ((∃ stop value, result = .matched stop value) ↔
            ∃ text tree, Denotes text tree ∧ text <+: source) ∧
          ∀ stop value, result = .matched stop value →
            ∃ text tree, Denotes text tree ∧ text <+: source ∧
              (∀ text' tree', Denotes text' tree' → text' <+: source →
                text'.length ≤ text.length) ∧
              (∀ tree', Denotes text tree' → tree' = tree) ∧
              stop = Position.start.advance text ∧ value = tree.value) := by
  intro tree source
  have hblank : NoDigit [' '] := noDigit_cons rfl []
  have hreads : Reads Grammar.Function.int.apply (tree.print ++ [' ']) := reads_int (by decide)
  have hsource : Reads Grammar.Function.int.apply source := reads_int (by decide)
  exact ⟨houses_listStore,
    ⟨hblank, hreads, (value_run houses_listStore).1 tree [' '] hblank hreads⟩,
    ⟨hsource, (value_run houses_listStore).2 source hsource⟩⟩

end Descent.Lists
