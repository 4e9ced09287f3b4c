import Descent.Proofs.Endings.Joined
import Mathlib.Data.List.TakeWhile

/-! # Tables, as texts

How a table is written down with commas between the fields of a row, apart from all parsers. There
is more than one text for a table: it is open which fields are quoted that need not be, and how
each line ends.

* **`Csv.doubled`** — a text with every quote doubled.
* **`Csv.Field`**, **`Csv.Row`**, **`Csv.Rows`** — the texts of a field, of a row, and of rows with
  line breaks between them.
* **`Csv.Ended`** — the texts of rows that each end with a line break.
* **`Csv.exists_ended_iff`** — there is one just if no row is empty.
* **`Csv.Ended.rows`** — behind the last line break there is one more row, with an empty field.
* **`Csv.EndsField.eq_nil_or`** — what may stand behind a field cannot be taken for a part of it. -/

namespace Descent.Csv

/-! ## Texts -/

/-- The characters of line breaks, the comma and the quote: a field that is not quoted has none. -/
def marks : List Char := ['\r', '\n', ',', '"']

/-- A text with every quote doubled. -/
def doubled (text : List Char) : List Char :=
  text.flatMap fun c => if c = '"' then ['"', '"'] else [c]

/-- A field is written like this. -/
inductive Field : String → List Char → Prop where
  /-- In quotes, with its own quotes doubled. -/
  | quoted (field : String) : Field field ('"' :: (doubled field.toList ++ ['"']))
  /-- As it is, if it has no marks. -/
  | bare (field : String) (h : ∀ c ∈ field.toList, c ∉ marks) : Field field field.toList

/-- A line ends with a line feed, and may have a carriage return before it. -/
inductive LineBreak : List Char → Prop where
  /-- A line feed alone. -/
  | lineFeed : LineBreak ['\n']
  /-- Both of them. -/
  | both : LineBreak ['\r', '\n']

/-- The fields of a row, one or more, with commas between them. -/
abbrev Row : List String → List Char → Prop := Joined Field (· = [','])

/-- Rows, one or more, with line breaks between them. -/
abbrev Rows : List (List String) → List Char → Prop := Joined Row LineBreak

/-- Rows that each end with a line break. -/
inductive Ended : List (List String) → List Char → Prop where
  /-- There is none. -/
  | none : Ended [] []
  /-- There is one, and then others. -/
  | row {row : List String} {rows : List (List String)} {text between rest : List Char}
      (hrow : Row row text) (hbreak : LineBreak between) (hrest : Ended rows rest) :
      Ended (row :: rows) (text ++ (between ++ rest))

/-- A row can be written if it has a field: there is no field that cannot be quoted. -/
theorem exists_row_iff {row : List String} : (∃ text, Row row text) ↔ row ≠ [] := by
  constructor
  · rintro ⟨_, _ | _⟩ <;> exact List.cons_ne_nil _ _
  · intro hne
    induction row with
    | nil => exact absurd rfl hne
    | cons field row ih =>
      cases row with
      | nil => exact ⟨_, .one (.quoted field)⟩
      | cons next row =>
        obtain ⟨text, hrow⟩ := ih (List.cons_ne_nil _ _)
        exact ⟨_, .more (.quoted field) rfl hrow⟩

/-- A table can be written if each of its rows has a field. -/
theorem exists_ended_iff {rows : List (List String)} :
    (∃ text, Ended rows text) ↔ ∀ row ∈ rows, row ≠ [] := by
  induction rows with
  | nil => exact ⟨fun _ => nofun, fun _ => ⟨[], .none⟩⟩
  | cons row rows ih =>
    rw [List.forall_mem_cons, ← exists_row_iff, ← ih]
    constructor
    · rintro ⟨_, _ | ⟨hrow, -, hrest⟩⟩
      exact ⟨⟨_, hrow⟩, _, hrest⟩
    · rintro ⟨⟨_, hrow⟩, _, hrest⟩
      exact ⟨_, .row hrow .lineFeed hrest⟩

/-- An empty text is a row with an empty field. -/
theorem row_empty : Row [""] [] := .one (.bare "" nofun)

/-- Behind the line break that ends the last row, there is a row with an empty field. -/
theorem Ended.rows {rows : List (List String)} {text : List Char} (h : Ended rows text) :
    Rows (rows ++ [[""]]) text := by
  induction h with
  | none => exact .one row_empty
  | row hrow hbreak _ ih => exact .more hrow hbreak ih

/-! ## Stretches between quotes -/

@[simp] theorem doubled_nil : doubled [] = [] := rfl

@[simp] theorem doubled_quote (text : List Char) :
    doubled ('"' :: text) = '"' :: '"' :: doubled text := rfl

theorem doubled_of_ne {c : Char} (h : c ≠ '"') (text : List Char) :
    doubled (c :: text) = c :: doubled text := by
  rw [doubled, List.flatMap_cons, if_neg h]
  rfl

theorem doubled_append (text more : List Char) :
    doubled (text ++ more) = doubled text ++ doubled more :=
  List.flatMap_append

/-- Nothing gets lost. -/
theorem doubled_ne_nil {text : List Char} (h : text ≠ []) : doubled text ≠ [] := by
  obtain ⟨c, rest, rfl⟩ := List.exists_cons_of_ne_nil h
  by_cases hc : c = '"'
  · subst hc
    exact List.cons_ne_nil _ _
  · rw [doubled_of_ne hc]
    exact List.cons_ne_nil _ _

/-- Up to its first quote, a text is not changed. -/
theorem doubled_takeWhile (text : List Char) :
    doubled (text.takeWhile (· ≠ '"')) = text.takeWhile (· ≠ '"') := by
  induction text with
  | nil => rfl
  | cons c text ih =>
    by_cases h : c = '"'
    · subst h
      rfl
    · rw [List.takeWhile_cons_of_pos (by simpa using h), doubled_of_ne h, ih]

/-- The stretch up to the first quote is the same, whether quotes are doubled or not. -/
theorem takeWhile_doubled (text rest : List Char) :
    (doubled text ++ '"' :: rest).takeWhile (· ≠ '"') = text.takeWhile (· ≠ '"') := by
  induction text with
  | nil => rfl
  | cons c text ih =>
    by_cases h : c = '"'
    · subst h
      rfl
    · rw [doubled_of_ne h, List.cons_append, List.takeWhile_cons_of_pos (by simpa using h),
        List.takeWhile_cons_of_pos (by simpa using h), ih]

/-! ## What stands behind a field -/

/-- What closes a row: the end of the table, or a line break. -/
abbrev EndsRow : List Char → Prop := Joined.Behind LineBreak (· = [])

/-- What may stand behind a field: what closes the row, or a comma. -/
abbrev EndsField : List Char → Prop := Joined.Behind (· = [',']) EndsRow

variable {rest : List Char}

/-- A row is closed by the end, or by a character of a line break. -/
theorem EndsRow.eq_nil_or (h : EndsRow rest) :
    rest = [] ∨ ∃ c more, rest = c :: more ∧ (c = '\r' ∨ c = '\n') := by
  rcases h with rfl | ⟨_, more, hbreak, rfl⟩
  · exact .inl rfl
  · cases hbreak with
    | lineFeed => exact .inr ⟨'\n', more, rfl, .inr rfl⟩
    | both => exact .inr ⟨'\r', '\n' :: more, rfl, .inl rfl⟩

/-- No comma closes a row. -/
theorem EndsRow.ne_comma (h : EndsRow rest) (more : List Char) : rest ≠ ',' :: more := by
  rintro rfl
  rcases h.eq_nil_or with hnil | ⟨c, _, heq, hc⟩
  · cases hnil
  · cases heq
    rcases hc with hc | hc <;> cases hc

/-- Behind a field there is a mark, if anything, and it is no quote. -/
theorem EndsField.eq_nil_or (h : EndsField rest) :
    rest = [] ∨ ∃ c more, rest = c :: more ∧ c ∈ marks ∧ c ≠ '"' := by
  rcases h with hrow | ⟨_, more, rfl, rfl⟩
  · rcases hrow.eq_nil_or with rfl | ⟨c, more, rfl, rfl | rfl⟩
    · exact .inl rfl
    · exact .inr ⟨'\r', more, rfl, by decide, by decide⟩
    · exact .inr ⟨'\n', more, rfl, by decide, by decide⟩
  · exact .inr ⟨',', more, rfl, by decide, by decide⟩

/-- No quote stands behind a field. -/
theorem EndsField.ne_quote (h : EndsField rest) (more : List Char) : rest ≠ '"' :: more := by
  rintro rfl
  rcases h.eq_nil_or with hnil | ⟨c, _, heq, -, hc⟩
  · cases hnil
  · cases heq
    exact hc rfl

variable {text : List Char}

/-- A field without marks is the longest stretch without marks. -/
theorem EndsField.takeWhile_append (h : EndsField rest) (htext : ∀ c ∈ text, c ∉ marks) :
    (text ++ rest).takeWhile (· ∉ marks) = text := by
  have hrest : rest.takeWhile (· ∉ marks) = [] := by
    rcases h.eq_nil_or with rfl | ⟨c, more, rfl, hc, -⟩
    · rfl
    · exact List.takeWhile_cons_of_neg (by simpa using hc)
  rw [List.takeWhile_append_of_pos (by simpa using htext), hrest, List.append_nil]

/-- Where a field without marks is written, there is no quote. -/
theorem EndsField.append_ne_quote (h : EndsField rest) (htext : ∀ c ∈ text, c ∉ marks)
    (more : List Char) : text ++ rest ≠ '"' :: more := by
  cases text with
  | nil => exact h.ne_quote more
  | cons c text =>
    intro heq
    obtain rfl : c = '"' := (List.cons.inj heq).1
    exact htext '"' List.mem_cons_self (by decide)

end Descent.Csv
