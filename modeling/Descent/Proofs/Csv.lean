import Descent.Grammar.Function
import Descent.Proofs.Csv.Texts
import Descent.Proofs.Endings.Stretches
import Descent.Proofs.Verdicts

/-! # Tables with commas between their fields

A parser for tables: rows with line breaks between them, in which fields are separated by commas. A
field with quotes around it may hold anything, its own quotes being doubled. The line break that
ends the last row is taken for one between that row and a further one, whose only field is empty;
so this row is dropped.

* **`Csv.file`** — the parser, and **`Csv.file?`**, how it is put together.
* **`Csv.gives_field`** — a field is read back from each of the texts it can be written as.
* **`Csv.joins_row`**, **`Csv.joins_rows`** — fields in a row, and rows in a table.
* **`Csv.file_triesParse`** — main statement: a table is read back from each text of it. -/

namespace Descent.Csv

/-! ## The parser -/

/-- A line break of either kind. -/
def lineBreak : Parser := .or (.text "\r\n") (.text "\n")

section Parsers

-- the parsers for a stretch without quotes, and for a field without marks
variable (stretch plain : Parser)

/-- A stretch without quotes, or a quote that is doubled. -/
def piece : Parser := .or stretch ((Parser.text "\"\"").mapValue fun _ => .str "\"")

/-- A field in quotes. -/
def quotedField : Parser :=
  (Parser.text "\"").andThen fun _ =>
    (Parser.map (.many0 (piece stretch)) Grammar.Function.join.apply).andThen fun value =>
      (Parser.text "\"").mapValue fun _ => value

/-- A field with quotes or without. -/
def field : Parser := .or (quotedField stretch) plain

/-- The fields of a row. -/
def row : Parser := (field stretch plain).sepBy1 (.text ",")

/-- The rows of a table, without a last one that has but an empty field. -/
def fileOf : Parser :=
  ((row stretch plain).sepBy1 lineBreak).andThen fun rows =>
    .map (lineBreak.opt .nothing) fun _ => Grammar.Function.dropTrailing.apply rows

end Parsers

/-- The parser for tables, put together from the texts of its regular expressions. -/
def file? : Except Raised Parser := do
  let stretch ← Parser.pattern? "[^\"]+" .none
  let plain ← Parser.pattern? "[^\\r\\n,\"]*" .none
  return fileOf stretch plain

/-- The regular expression for a stretch without quotes. -/
def stretch : Regex := ⟨"[^\"]+", .none, .copies .greedy 1 none (.one (.without ['"']))⟩

/-- The regular expression for a field without marks. -/
def plain : Regex := ⟨"[^\\r\\n,\"]*", .none, .copies .greedy 0 none (.one (.without marks))⟩

/-- The parser for tables. -/
def file : Parser := fileOf (.pattern stretch) (.pattern plain)

/-- The regular expressions are read from their texts. -/
theorem file?_eq : file? = .ok file := by
  have hstretch : Regex.compile? "[^\"]+" .none = some stretch := by decide +kernel
  have hplain : Regex.compile? "[^\\r\\n,\"]*" .none = some plain := by decide +kernel
  rw [file?, Parser.pattern?, hstretch, Parser.pattern?, hplain]
  rfl

/-! ## Fields -/

section Gives

variable {holds : Store → Prop} {source : Source} {place : Position} {text rest : List Char}

/-- At a place the longest stretch without quotes is matched, if there is one. -/
theorem gives_stretch (hplace : place.Faces source rest) :
    (Parser.pattern stretch).Gives holds source place
      (if rest.takeWhile (· ≠ '"') = [] then .failed ⟨place, [.str stretch.label]⟩
        else .matched (place.advance (rest.takeWhile (· ≠ '"')))
          (.str (String.ofList (rest.takeWhile (· ≠ '"'))))) := by
  have hset : (Regex.CharSet.without ['"']).holds false = fun c => decide (c ≠ '"') := by
    rw [Regex.CharSet.holds_without]
    simp only [List.mem_singleton]
  rw [← hset]
  exact .oneOrMore rfl hplace

/-- At a place the longest stretch without marks is matched. -/
theorem gives_plain (hplace : place.Faces source rest) :
    (Parser.pattern plain).Gives holds source place
      (.matched (place.advance (rest.takeWhile (· ∉ marks)))
        (.str (String.ofList (rest.takeWhile (· ∉ marks))))) := by
  rw [← Regex.CharSet.holds_without]
  exact .zeroOrMore rfl hplace

/-- Between quotes, a piece takes some of a text whose quotes are doubled: all up to the first
quote, or else this quote. -/
theorem gives_piece (hne : text ≠ []) (hplace : place.Faces source (doubled text ++ '"' :: rest)) :
    ∃ front back, text = front ++ back ∧ front ≠ [] ∧
      (piece (.pattern stretch)).Gives holds source place
        (.matched (place.advance (doubled front)) (.str (String.ofList front))) := by
  have hstretch : (Parser.pattern stretch).Gives holds source place _ := gives_stretch hplace
  rw [takeWhile_doubled] at hstretch
  by_cases hnone : text.takeWhile (· ≠ '"') = []
  · obtain ⟨c, back, rfl⟩ := List.exists_cons_of_ne_nil hne
    obtain rfl : c = '"' := by
      by_contra hc
      rw [List.takeWhile_cons_of_pos (by simpa using hc)] at hnone
      cases hnone
    rw [if_pos hnone] at hstretch
    have hquotes : "\"\"".toList <+: doubled ('"' :: back) ++ '"' :: rest := ⟨_, rfl⟩
    exact ⟨['"'], back, rfl, List.cons_ne_nil _ _,
      hstretch.or_failed ((Parser.Gives.text hplace hquotes).mapValue _)⟩
  · rw [if_neg hnone] at hstretch
    refine ⟨_, _, List.takeWhile_append_dropWhile.symm, hnone, ?_⟩
    rw [doubled_takeWhile]
    exact hstretch.or

/-- The closing quote is no piece. -/
theorem gives_piece_failed (hrest : ∀ more, rest ≠ '"' :: more)
    (hplace : place.Faces source ('"' :: rest)) :
    ∃ failure, (piece (.pattern stretch)).Gives holds source place (.failed failure) := by
  have hquotes : ¬ "\"\"".toList <+: '"' :: rest := by
    rintro ⟨more, heq⟩
    exact hrest more (List.cons.inj heq).2.symm
  exact ⟨_, (gives_stretch hplace).or_failed ((Parser.Gives.text_failed hplace hquotes).mapValue _)⟩

/-- Pieces are taken up to the closing quote. Put together they are the text whose quotes were
doubled. -/
theorem gives_pieces (hrest : ∀ more, rest ≠ '"' :: more)
    (hplace : place.Faces source (doubled text ++ '"' :: rest)) :
    ∃ values, (Parser.many0 (piece (.pattern stretch))).Gives holds source place
        (.matched (place.advance (doubled text)) (.list values)) ∧
      ∀ index, Value.joinFrom index values = .ok (String.ofList text) := by
  -- each piece takes something off the text
  induction hlength : text.length using Nat.strong_induction_on generalizing text place with
  | _ length ih =>
    by_cases hnil : text = []
    · subst hnil
      obtain ⟨failure, hfailed⟩ := gives_piece_failed hrest hplace
      rw [doubled_nil, Position.advance_nil]
      exact ⟨[], hfailed.many0_failed, fun index => rfl⟩
    · obtain ⟨front, back, rfl, hfront, hpiece⟩ := gives_piece hnil hplace
      rw [doubled_append, List.append_assoc] at hplace
      have hshorter : back.length < length := by
        have hpos := List.length_pos_iff.mpr hfront
        rw [← hlength, List.length_append]
        omega
      obtain ⟨values, hvalues, hjoin⟩ := ih _ hshorter hplace.advance rfl
      refine ⟨.str (String.ofList front) :: values, ?_, fun index => ?_⟩
      · rw [doubled_append, ← Position.advance_append]
        exact hpiece.many0_advance (doubled_ne_nil hfront) hvalues
      · rw [Value.joinFrom, hjoin, String.ofList_append]
        rfl

/-- What stands between quotes is read back. -/
theorem gives_quotedField (hrest : ∀ more, rest ≠ '"' :: more)
    (hplace : place.Faces source ('"' :: (doubled text ++ '"' :: rest))) :
    (quotedField (.pattern stretch)).Gives holds source place
      (.matched (place.advance ('"' :: (doubled text ++ ['"']))) (.str (String.ofList text))) := by
  have hquote : "\"".toList = ['"'] := rfl
  have hinner : (place.advance ['"']).Faces source (doubled text ++ '"' :: rest) :=
    Position.Faces.advance hplace
  obtain ⟨values, hvalues, hjoin⟩ := gives_pieces hrest hinner
  have hvalue : Grammar.Function.join.apply (.list values)
      = .done (.str (String.ofList text)) := by
    show Script.ofExcept ((Value.joinFrom 0 values).map Value.str) = _
    rw [hjoin]
    rfl
  rw [← Position.advance_mark]
  exact (Parser.Gives.mark hquote hplace).andThen
    ((hvalues.map hvalue).andThen ((Parser.Gives.mark hquote hinner.advance).mapValue _))

/-- A field is read back from each text of it, if it ends there. -/
theorem gives_field {item : String} (hfield : Field item text) (hends : EndsField rest)
    (hplace : place.Faces source (text ++ rest)) :
    (field (.pattern stretch) (.pattern plain)).Gives holds source place
      (.matched (place.advance text) (.str item)) := by
  cases hfield with
  | quoted =>
    rw [List.cons_append, List.append_assoc] at hplace
    have hquoted : (quotedField (.pattern stretch)).Gives holds source place _ :=
      gives_quotedField hends.ne_quote hplace
    rw [String.ofList_toList] at hquoted
    exact hquoted.or
  | bare hmarks =>
    have hquote : "\"".toList = ['"'] := rfl
    have hquoted : (quotedField (.pattern stretch)).Gives holds source place _ :=
      (Parser.Gives.mark_failed hquote hplace (hends.append_ne_quote hmarks)).andThen_failed
    have hplain : (Parser.pattern plain).Gives holds source place _ := gives_plain hplace
    rw [hends.takeWhile_append hmarks, String.ofList_toList] at hplain
    exact hquoted.or_failed hplain

end Gives

/-! ## Rows and tables -/

/-- A row as a value. -/
def rowValue (row : List String) : Value := .list (row.map .str)

/-- A table as a value. -/
def tableValue (rows : List (List String)) : Value := .list (rows.map rowValue)

section Joins

variable (holds : Store → Prop) (source : Source)

/-- Fields with commas between them are read up to where the row is closed. -/
theorem joins_row :
    Parser.Joins holds source (field (.pattern stretch) (.pattern plain)) (.text ",") Value.str
      Field (· = [',']) EndsRow where
  gives_item := gives_field
  gives_separator := by
    rintro place _ rest rfl hplace
    exact ⟨_, .mark rfl hplace⟩
  ne_nil := by
    rintro _ rfl
    exact List.cons_ne_nil _ _
  gives_failed hcloses hplace := ⟨_, .mark_failed rfl hplace hcloses.ne_comma⟩

/-- Rows with line breaks between them are read up to the end. -/
theorem joins_rows :
    Parser.Joins holds source (row (.pattern stretch) (.pattern plain)) lineBreak rowValue
      Row LineBreak (· = []) where
  gives_item hrow hends hplace := (joins_row holds source).gives_sepBy1 hrow hends hplace
  gives_separator := by
    intro place text rest hbreak hplace
    cases hbreak with
    | lineFeed =>
      have hfeed : ¬ "\r\n".toList <+: '\n' :: rest := by
        rintro ⟨more, heq⟩
        cases heq
      exact ⟨_, (Parser.Gives.text_failed hplace hfeed).or_failed (.mark rfl hplace)⟩
    | both =>
      have hboth : "\r\n".toList <+: '\r' :: '\n' :: rest := ⟨rest, rfl⟩
      exact ⟨_, (Parser.Gives.text hplace hboth).or⟩
  ne_nil := by
    intro text hbreak
    cases hbreak with
    | lineFeed => exact List.cons_ne_nil _ _
    | both => exact List.cons_ne_nil _ _
  gives_failed := by
    rintro place _ rfl hplace
    have hboth : ¬ "\r\n".toList <+: [] := by decide
    have hfeed : ¬ "\n".toList <+: [] := by decide
    exact ⟨_, (Parser.Gives.text_failed hplace hboth).or_failed (.text_failed hplace hfeed)⟩

variable {holds source}

/-- The parser reads all of the rows, and what it gives for them is left to the function that drops
a last empty one. -/
theorem gives_file {rows : List (List String)} {value : Value} (hrows : Rows rows source)
    (hdrop : Grammar.Function.dropTrailing.apply (tableValue rows) = .done value) :
    file.Gives holds source .start (.matched (Position.start.advance source) value) := by
  have hplace : Position.start.Faces source (source ++ []) := by
    rw [List.append_nil]
    exact .start source
  have htable := (joins_rows holds source).gives_sepBy1 hrows rfl hplace
  obtain ⟨failure, hfailed⟩ := (joins_rows holds source).gives_failed rfl hplace.advance
  have hend : (lineBreak.opt .nothing).Gives holds source (Position.start.advance source) _ :=
    hfailed.or_failed .ok
  exact htable.andThen (hend.map hdrop)

end Joins

/-! ## The row that is dropped -/

theorem plain_rowValue (row : List String) : (rowValue row).plain = rowValue row := by
  have hitems : Value.plain.plainAll (row.map .str) = row.map .str := by
    induction row with
    | nil => rfl
    | cons item rest ih =>
      rw [List.map_cons, Value.plain.plainAll, ih]
      rfl
  rw [rowValue, Value.plain, hitems]

/-- The values of two rows count as equal only if it is the same row. -/
theorem same_rowValue (row other : List String) :
    Value.same (rowValue row) (rowValue other) = true ↔ row = other := by
  have hstr : Function.Injective Value.str := fun _ _ => Value.str.inj
  rw [Value.same_iff, plain_rowValue, plain_rowValue, rowValue, rowValue, Value.list.injEq]
  exact (List.map_injective_iff.mpr hstr).eq_iff

/-- A last row with but an empty field is dropped. -/
theorem dropTrailing_append (rows : List (List String)) :
    Grammar.Function.dropTrailing.apply (tableValue (rows ++ [[""]]))
      = .done (tableValue rows) := by
  have hsame : Value.same (.list [.str ""]) (rowValue [""]) = true := Value.same_refl _
  have hdropped : Value.withoutTrailing ((rows ++ [[""]]).map rowValue) = rows.map rowValue := by
    rw [Value.withoutTrailing, List.map_append, List.map_singleton, List.getLast?_concat,
      Option.any_some, if_pos hsame, List.dropLast_concat]
  exact congrArg (fun items => Script.done (Value.list items)) hdropped

/-- No other row is dropped. -/
theorem dropTrailing_of_ne {rows : List (List String)} (h : rows.getLast? ≠ some [""]) :
    Grammar.Function.dropTrailing.apply (tableValue rows) = .done (tableValue rows) := by
  have hkept : Value.withoutTrailing (rows.map rowValue) = rows.map rowValue := by
    rw [Value.withoutTrailing, List.getLast?_map, if_neg]
    intro hsame
    cases hlast : rows.getLast? with
    | none =>
      rw [hlast] at hsame
      cases hsame
    | some row =>
      rw [hlast] at hsame
      obtain rfl := (same_rowValue [""] row).mp hsame
      exact h hlast
  exact congrArg (fun items => Script.done (Value.list items)) hkept

/-! ## Tables read back -/

/-- Parsing all of a text gives the value of the table that the text stands for. Whatever the table
is, each line may end with a line break of its own kind, the last line too. The last line may also
be left open, if its row is not one that has but an empty field. -/
theorem file_triesParse (rows : List (List String)) (source : Source) (store : Store) :
    file? = .ok file ∧
      (Ended rows source →
        ∃ after, file.TriesParse source store (.ok (tableValue rows)) after) ∧
      (Rows rows source → rows.getLast? ≠ some [""] →
        ∃ after, file.TriesParse source store (.ok (tableValue rows)) after) := by
  -- the parser asks nothing of the store
  have hreads : file.Gives (fun _ => True) source .start
      (.matched (Position.start.advance source) (tableValue rows)) →
      ∃ after, file.TriesParse source store (.ok (tableValue rows)) after := by
    intro hgives
    obtain ⟨after, hends, -⟩ := hgives store trivial
    refine hends.exists_triesParse ?_
    rw [Position.advance_index]
    exact Int.zero_add _
  exact ⟨file?_eq, fun hended => hreads (gives_file hended.rows (dropTrailing_append rows)),
    fun hrows hlast => hreads (gives_file hrows (dropTrailing_of_ne hlast))⟩

/-- A field with quotes and a line break in it and a row with but an empty field, each line with
another line break; and a line that is left open behind a comma. -/
theorem file_triesParse_lastLines :
    let ended : Source := "a,,\"say \"\"hi\"\",\r\nbye\"\r\n\n".toList
    let unended : Source := "\"\"\nb,".toList
    file? = .ok file ∧
      (Ended [["a", "", "say \"hi\",\r\nbye"], [""]] ended ∧
        ∃ after, file.TriesParse ended (Store.initial false)
          (.ok (tableValue [["a", "", "say \"hi\",\r\nbye"], [""]])) after) ∧
      (Rows [[""], ["b", ""]] unended ∧ [[""], ["b", ""]].getLast? ≠ some [""] ∧
        ∃ after, file.TriesParse unended (Store.initial false)
          (.ok (tableValue [[""], ["b", ""]])) after) := by
  intro ended unended
  have ha : Field "a" ['a'] := .bare "a" (List.forall_mem_singleton.mpr (by decide))
  have hb : Field "b" ['b'] := .bare "b" (List.forall_mem_singleton.mpr (by decide))
  have hempty : Field "" [] := .bare "" nofun
  have hsay := Field.quoted "say \"hi\",\r\nbye"
  have hended : Ended [["a", "", "say \"hi\",\r\nbye"], [""]] ended :=
    .row (.more ha rfl (.more hempty rfl (.one hsay))) .both (.row row_empty .lineFeed .none)
  have hquotes : Row [""] ['"', '"'] := .one (.quoted "")
  have hcomma : Row ["b", ""] (['b'] ++ ([','] ++ [])) := .more hb rfl (.one hempty)
  have hrows : Rows [[""], ["b", ""]] unended := Joined.more hquotes LineBreak.lineFeed (.one hcomma)
  have hlast : [[""], ["b", ""]].getLast? ≠ some [""] := by decide
  exact ⟨file?_eq, ⟨hended, (file_triesParse _ ended _).2.1 hended⟩,
    ⟨hrows, hlast, (file_triesParse _ unended _).2.2 hrows hlast⟩⟩

end Descent.Csv
