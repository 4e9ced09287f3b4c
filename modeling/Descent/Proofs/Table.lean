import Descent.Table
import Mathlib.Data.List.Forall2

/-! # Entries of tables

Where the entries of a table come from that was put together from others, and what can be said of
two tables with the same names.

* **`Table.Rel`** — tables with the same names, whose values are related. -/

/-- Of options that are related, both are empty, or both hold related values. -/
theorem Option.Rel.eq_or {α β : Type} {R : α → β → Prop} {option : Option α} {option' : Option β}
    (h : Option.Rel R option option') :
    (option = Option.none ∧ option' = Option.none) ∨ ∃ value value',
      option = Option.some value ∧ option' = Option.some value' ∧ R value value' := by
  cases h with
  | some h => exact .inr ⟨_, _, rfl, rfl, h⟩
  | none => exact .inl ⟨rfl, rfl⟩

/-- Options that are related in one way may be related in another. -/
theorem Option.Rel.imp {α β : Type} {R R' : α → β → Prop} (hR : ∀ a b, R a b → R' a b)
    {option : Option α} {option' : Option β} (h : Option.Rel R option option') :
    Option.Rel R' option option' := by
  cases h with
  | some h => exact .some (hR _ _ h)
  | none => exact .none

/-- Options that are related are so the other way round. -/
theorem Option.Rel.flip {α β : Type} {R : α → β → Prop} {R' : β → α → Prop}
    (hR : ∀ a b, R a b → R' b a) {option : Option α} {option' : Option β}
    (h : Option.Rel R option option') : Option.Rel R' option' option := by
  cases h with
  | some h => exact .some (hR _ _ h)
  | none => exact .none

/-- What is done with related values leads to what is related. -/
theorem Option.Rel.map {α β γ δ : Type} {R : α → β → Prop} {R' : γ → δ → Prop} {f : α → γ}
    {f' : β → δ} (hf : ∀ a b, R a b → R' (f a) (f' b)) {option : Option α} {option' : Option β}
    (h : Option.Rel R option option') : Option.Rel R' (option.map f) (option'.map f') := by
  cases h with
  | some h => exact .some (hf _ _ h)
  | none => exact .none

namespace Descent.Table

variable {α β : Type} {table entries : Table α} {entry : String × α} {name : String} {value : α}

/-- What a name stands for is an entry. -/
theorem mem_of_get? (h : table.get? name = some value) : (name, value) ∈ table := by
  induction table with
  | nil => cases h
  | cons first rest ih =>
    obtain ⟨key, old⟩ := first
    by_cases hk : key = name
    · simp only [get?, hk, if_true, Option.some.injEq] at h
      rw [hk, h]
      exact List.mem_cons_self
    · simp only [get?, hk, if_false] at h
      exact List.mem_cons_of_mem _ (ih h)

/-- A name with an entry stands for something. -/
theorem get?_of_mem (h : (name, value) ∈ table) : ∃ found, table.get? name = some found := by
  induction table with
  | nil => cases h
  | cons first rest ih =>
    obtain ⟨key, old⟩ := first
    by_cases hk : key = name
    · exact ⟨old, by rw [get?, if_pos hk]⟩
    · have hne : (name, value) ≠ (key, old) := fun e => hk (congrArg Prod.fst e).symm
      obtain ⟨found, hfound⟩ := ih ((List.mem_cons.mp h).resolve_left hne)
      exact ⟨found, by rw [get?, if_neg hk, hfound]⟩

/-- An entry of a table into which something was put is that, or was there before. -/
theorem mem_put (h : entry ∈ table.put name value) : entry = (name, value) ∨ entry ∈ table := by
  induction table with
  | nil =>
    simp only [put, List.mem_cons, List.not_mem_nil, or_false] at h
    exact .inl h
  | cons first rest ih =>
    obtain ⟨key, old⟩ := first
    by_cases hk : key = name
    · simp only [put, hk, if_true, List.mem_cons] at h
      exact h.imp_right (List.mem_cons_of_mem _)
    · simp only [put, hk, if_false, List.mem_cons] at h
      rcases h with rfl | h
      · exact .inr List.mem_cons_self
      · exact (ih h).imp_right (List.mem_cons_of_mem _)

/-- An entry of two tables put together is from the one or from the other. -/
theorem mem_putAll (h : entry ∈ table.putAll entries) : entry ∈ table ∨ entry ∈ entries := by
  induction entries generalizing table with
  | nil => exact .inl h
  | cons first rest ih =>
    rcases @ih (table.put first.1 first.2) h with hput | hrest
    · rcases mem_put hput with rfl | htable
      · exact .inr List.mem_cons_self
      · exact .inl htable
    · exact .inr (List.mem_cons_of_mem _ hrest)

/-- A name stands for something if it is among the names. -/
theorem get?_eq_none_iff : table.get? name = none ↔ name ∉ table.names := by
  constructor
  · intro hnone hmem
    obtain ⟨⟨_, value⟩, hentry, rfl⟩ := List.mem_map.mp hmem
    obtain ⟨found, hfound⟩ := get?_of_mem hentry
    rw [hnone] at hfound
    cases hfound
  · intro hmem
    refine Option.eq_none_iff_forall_ne_some.mpr fun value hvalue => hmem ?_
    exact List.mem_map.mpr ⟨_, mem_of_get? hvalue, rfl⟩

theorem exists_get?_of_mem_names (h : name ∈ table.names) :
    ∃ value, table.get? name = some value :=
  Option.ne_none_iff_exists'.mp fun hnone => get?_eq_none_iff.mp hnone h

/-- The names that another table adds come after those that were there, each at its first
appearance. -/
theorem names_putAll (table entries : Table α) : (table.putAll entries).names
    = table.names ++ (entries.names.removeAll table.names).eraseDups := by
  induction entries generalizing table with
  | nil => simp [putAll, names, List.removeAll]
  | cons entry rest ih =>
    obtain ⟨key, value⟩ := entry
    have hputAll : table.putAll ((key, value) :: rest) = (table.put key value).putAll rest := rfl
    have hnames : names ((key, value) :: rest) = key :: names rest := rfl
    rw [hputAll, ih, hnames]
    by_cases hmem : key ∈ table.names
    · rw [names_put_of_mem table value hmem]
      simp [List.removeAll, hmem]
    · -- a new name is taken out of all that comes later
      rw [names_put_of_notMem table value hmem]
      simp [List.removeAll, hmem, List.eraseDups_cons, List.filter_filter, beq_eq_decide,
        Bool.and_comm]

/-- What has a name in one of two tables has it in both put together. -/
theorem mem_names_putAll : name ∈ (table.putAll entries).names ↔
    name ∈ table.names ∨ name ∈ entries.names := by
  rw [names_putAll, List.mem_append, List.mem_eraseDups]
  by_cases hmem : name ∈ table.names <;> simp [List.removeAll, hmem]

/-- In a table in which the names of another are numbered, a name has the number of its first
entry. -/
theorem get?_numbered {β : Type} (number : Nat → β) {offset : Nat} {found : β}
    (h : get? ((table.names.zipIdx offset).map fun entry => (entry.1, number entry.2)) name
      = some found) :
    ∃ index value, found = number (offset + index) ∧ table[index]? = some (name, value) ∧
      table.get? name = some value := by
  induction table generalizing offset with
  | nil => cases h
  | cons first rest ih =>
    obtain ⟨key, value⟩ := first
    simp only [names, List.map_cons, List.zipIdx_cons, get?] at h
    by_cases hk : key = name
    · rw [if_pos hk, Option.some.injEq] at h
      refine ⟨0, value, h.symm, ?_, ?_⟩
      · rw [List.getElem?_cons_zero, hk]
      · rw [get?, if_pos hk]
    · rw [if_neg hk] at h
      obtain ⟨index, value', hfound, hindex, hget⟩ := ih h
      refine ⟨index + 1, value', ?_, ?_, ?_⟩
      · rw [hfound, Nat.add_assoc, Nat.add_comm 1 index]
      · rw [List.getElem?_cons_succ, hindex]
      · rw [get?, if_neg hk, hget]

/-- A new entry comes last. -/
theorem put_of_notMem (h : name ∉ table.names) : table.put name value = table ++ [(name, value)] := by
  induction table with
  | nil => rfl
  | cons first rest ih =>
    obtain ⟨key, old⟩ := first
    simp only [names, List.map_cons, List.mem_cons, not_or] at h
    rw [put, if_neg (Ne.symm h.1), ih h.2, List.cons_append]

/-- Entries with new names come behind those that were there. -/
theorem putAll_of_disjoint (hnodup : entries.names.Nodup)
    (hdisjoint : ∀ name ∈ entries.names, name ∉ table.names) :
    table.putAll entries = table ++ entries := by
  induction entries generalizing table with
  | nil => rw [putAll, List.foldl_nil, List.append_nil]
  | cons first rest ih =>
    obtain ⟨hfresh, hrest⟩ := List.nodup_cons.mp hnodup
    have hput : table.put first.1 first.2 = table ++ [(first.1, first.2)] :=
      put_of_notMem (hdisjoint first.1 List.mem_cons_self)
    have hlater : (table.put first.1 first.2).putAll rest = table.put first.1 first.2 ++ rest := by
      refine ih hrest fun name hname hmem => ?_
      rw [hput, names, List.map_append, List.mem_append] at hmem
      rcases hmem with hmem | hmem
      · exact hdisjoint name (List.mem_cons_of_mem _ hname) hmem
      · rw [List.map_singleton, List.mem_singleton] at hmem
        rw [hmem] at hname
        exact hfresh hname
    rw [putAll, List.foldl_cons]
    rw [putAll] at hlater
    rw [hlater, hput, List.append_assoc, List.singleton_append]

/-- No name stands twice in a table into which something was put. -/
theorem nodup_names_put (h : table.names.Nodup) (name : String) (value : α) :
    (table.put name value).names.Nodup := by
  by_cases hmem : name ∈ table.names
  · rw [names_put_of_mem table value hmem]
    exact h
  · rw [names_put_of_notMem table value hmem, List.nodup_append]
    refine ⟨h, List.pairwise_singleton _ _, fun other hother last hlast heq => hmem ?_⟩
    rw [← List.mem_singleton.mp hlast, ← heq]
    exact hother

/-- Nor does one in tables put together. -/
theorem nodup_names_putAll (h : table.names.Nodup) (entries : Table α) :
    (table.putAll entries).names.Nodup := by
  induction entries generalizing table with
  | nil => exact h
  | cons first rest ih => exact ih (nodup_names_put h first.1 first.2)

/-- Changing the values changes none of the names. -/
theorem names_map (f : α → β) (table : Table α) :
    names (table.map fun entry => (entry.1, f entry.2)) = table.names := by
  simp [names, Function.comp_def]

/-- Under each name, the value is changed. -/
theorem get?_map (f : α → β) (table : Table α) (name : String) :
    get? (table.map fun entry => (entry.1, f entry.2)) name = (table.get? name).map f := by
  induction table with
  | nil => rfl
  | cons first rest ih =>
    rw [List.map_cons, get?, get?, ih]
    split <;> rfl

/-- The values may be changed before or after something is put into a table. -/
theorem map_putAll (f : α → β) (table entries : Table α) :
    (table.putAll entries).map (fun entry => (entry.1, f entry.2))
      = putAll (table.map fun entry => (entry.1, f entry.2))
        (entries.map fun entry => (entry.1, f entry.2)) := by
  have hput : ∀ (table : Table α) (name : String) (value : α),
      (table.put name value).map (fun entry => (entry.1, f entry.2))
        = put (table.map fun entry => (entry.1, f entry.2)) name (f value) := by
    intro table name value
    induction table with
    | nil => rfl
    | cons first rest ih =>
      rw [List.map_cons, put, put]
      split
      · rfl
      · rw [List.map_cons, ih]
  induction entries generalizing table with
  | nil => rfl
  | cons first rest ih =>
    rw [putAll, List.foldl_cons, List.map_cons, putAll, List.foldl_cons, ← hput]
    exact ih _

/-- What was put into a table last comes first. -/
theorem get?_putAll (hnodup : entries.names.Nodup) (table : Table α) (name : String) :
    (table.putAll entries).get? name = (entries.get? name).or (table.get? name) := by
  induction entries generalizing table with
  | nil => rfl
  | cons first rest ih =>
    obtain ⟨key, value⟩ := first
    obtain ⟨hfresh, hrest⟩ := List.nodup_cons.mp hnodup
    have hstep : (table.putAll ((key, value) :: rest)).get? name
        = (get? rest name).or ((table.put key value).get? name) := ih hrest _
    rw [hstep, get?]
    by_cases hk : key = name
    · subst hk
      rw [get?_eq_none_iff.mpr hfresh, get?_put_self, if_pos rfl, Option.none_or, Option.some_or]
    · rw [get?_put_of_ne table value hk, if_neg hk]

/-! ## Tables with the same names -/

section Rel

/-- Tables with the same names in the same order, whose values are related. -/
def Rel {α β : Type} (R : α → β → Prop) : Table α → Table β → Prop :=
  List.Forall₂ fun entry entry' => entry'.1 = entry.1 ∧ R entry.2 entry'.2

variable {α β : Type} {R : α → β → Prop} {table entries : Table α} {table' entries' : Table β}

namespace Rel

/-- Values that are related in one way may be related in another. -/
theorem imp {R' : α → β → Prop} (hR : ∀ a b, R a b → R' a b) (h : Rel R table table') :
    Rel R' table table' :=
  List.Forall₂.imp (fun _ _ hentry => ⟨hentry.1, hR _ _ hentry.2⟩) h

/-- Tables whose values are related are so the other way round. -/
theorem flip {R' : β → α → Prop} (hR : ∀ a b, R a b → R' b a) (h : Rel R table table') :
    Rel R' table' table := by
  induction h with
  | nil => exact .nil
  | cons hentry _ ih => exact .cons ⟨hentry.1.symm, hR _ _ hentry.2⟩ ih

/-- The names are the same. -/
theorem names (h : Rel R table table') : table'.names = table.names := by
  induction h with
  | nil => rfl
  | cons hentry _ ih => exact congrArg₂ List.cons hentry.1 ih

/-- A name stands for nothing in both tables, or for values that are related. -/
theorem get? (h : Rel R table table') (name : String) :
    Option.Rel R (table.get? name) (table'.get? name) := by
  induction h with
  | nil => exact .none
  | @cons entry entry' rest rest' hentry _ ih =>
    obtain ⟨key, value⟩ := entry
    obtain ⟨key', value'⟩ := entry'
    obtain ⟨rfl, hvalue⟩ := hentry
    by_cases hk : key' = name
    · rw [Table.get?, Table.get?, if_pos hk, if_pos hk]
      exact .some hvalue
    · rw [Table.get?, Table.get?, if_neg hk, if_neg hk]
      exact ih

/-- Related values may be put under the same name. -/
theorem put (h : Rel R table table') (name : String) {value : α} {value' : β}
    (hvalue : R value value') : Rel R (table.put name value) (table'.put name value') := by
  induction h with
  | nil => exact .cons ⟨rfl, hvalue⟩ .nil
  | @cons entry entry' rest rest' hentry hrest ih =>
    obtain ⟨key, old⟩ := entry
    obtain ⟨key', old'⟩ := entry'
    obtain ⟨rfl, hold⟩ := hentry
    by_cases hk : key' = name
    · rw [Table.put, Table.put, if_pos hk, if_pos hk]
      exact .cons ⟨rfl, hvalue⟩ hrest
    · rw [Table.put, Table.put, if_neg hk, if_neg hk]
      exact .cons ⟨rfl, hold⟩ ih

/-- Related entries may be put one by one. -/
theorem putAll (h : Rel R table table') (hentries : Rel R entries entries') :
    Rel R (table.putAll entries) (table'.putAll entries') := by
  induction hentries generalizing table table' with
  | nil => exact h
  | @cons entry entry' rest rest' hentry _ ih =>
    have hput := h.put entry.1 hentry.2
    rw [Table.putAll, Table.putAll, List.foldl_cons, List.foldl_cons, hentry.1]
    exact ih hput

/-- Tables with the same names are related if the values at the same places are. -/
theorem of_zip (hnames : table'.map Prod.fst = table.map Prod.fst)
    (h : ∀ pair ∈ table.zip table', R pair.1.2 pair.2.2) : Rel R table table' := by
  induction table generalizing table' with
  | nil =>
    rw [List.map_eq_nil_iff.mp hnames]
    exact .nil
  | cons entry rest ih =>
    obtain _ | ⟨entry', rest'⟩ := table'
    · cases hnames
    · obtain ⟨hname, hrest⟩ := List.cons.inj hnames
      exact .cons ⟨hname, h _ List.mem_cons_self⟩
        (ih hrest fun pair hpair => h pair (List.mem_cons_of_mem _ hpair))

/-- An entry of one table has its like at the same place of the other. -/
theorem exists_getElem? (h : Rel R table table') {index : Nat} {name : String} {value : α}
    (hentry : table[index]? = some (name, value)) :
    ∃ value', table'[index]? = some (name, value') ∧ R value value' := by
  induction h generalizing index with
  | nil => cases hentry
  | @cons entry entry' rest rest' hfirst _ ih =>
    cases index with
    | zero =>
      cases hentry
      exact ⟨entry'.2, congrArg some (Prod.ext hfirst.1 rfl), hfirst.2⟩
    | succ index => exact ih hentry

end Rel

end Rel

end Descent.Table
