import TypeNameLint.Proofs.Data.Record

/-!
# Value — structured data in a configuration, and its dates as texts

A date is read as its text wherever it stands. The other values, the keys and the order of entries
stay as they are. This file defines:

* `Value.IsToml`: structured data without repeated keys and without missing values;
* `Value.entryWithDatesAsText`: an entry of a table in which dates are texts.

The main result is `getD_withDatesAsText_eq_ok_iff`.
-/

namespace TypeNameLint

/-- Structured data that a configuration can hold: no value is missing, and no table has a key
twice. -/
inductive Value.IsToml : Value → Prop
  | boolean (b : Bool) : IsToml (.boolean b)
  | integer (n : Int) : IsToml (.integer n)
  | float (x : Float) : IsToml (.float x)
  | text (s : String) : IsToml (.text s)
  | date (moment : String) : IsToml (.date moment)
  | list {items : List Value} (items_isToml : ∀ item ∈ items, item.IsToml) : IsToml (.list items)
  | table {entries : List (String × Value)} (nodup_keys : (entries.map Prod.fst).Nodup)
      (values_isToml : ∀ entry ∈ entries, entry.2.IsToml) : IsToml (.table entries)

namespace Value

variable {value : Value} {entries : List (String × Value)}

theorem isToml_list_iff {items : List Value} :
    (list items).IsToml ↔ ∀ item ∈ items, item.IsToml := by
  constructor
  · intro h
    cases h with
    | list hitems => exact hitems
  · exact .list

theorem isToml_table_iff :
    (table entries).IsToml ↔
      (entries.map Prod.fst).Nodup ∧ ∀ entry ∈ entries, entry.2.IsToml := by
  constructor
  · intro h
    cases h with
    | table hnodup hvalues => exact ⟨hnodup, hvalues⟩
  · rintro ⟨hnodup, hvalues⟩
    exact .table hnodup hvalues

theorem itemsWithDatesAsText_eq_map (items : List Value) :
    itemsWithDatesAsText items = items.map withDatesAsText := by
  induction items with
  | nil => rfl
  | cons item items ih => rw [itemsWithDatesAsText, ih, List.map_cons]

/-- An entry of a table in which dates are texts. -/
def entryWithDatesAsText (entry : String × Value) : String × Value :=
  (entry.1, entry.2.withDatesAsText)

theorem entriesWithDatesAsText_eq_map (entries : List (String × Value)) :
    entriesWithDatesAsText entries = entries.map entryWithDatesAsText := by
  induction entries with
  | nil => rfl
  | cons entry entries ih => rw [entriesWithDatesAsText, ih, List.map_cons, entryWithDatesAsText]

@[simp] theorem withDatesAsText_list (items : List Value) :
    (list items).withDatesAsText = list (items.map withDatesAsText) := by
  rw [withDatesAsText, itemsWithDatesAsText_eq_map]

@[simp] theorem withDatesAsText_table (entries : List (String × Value)) :
    (table entries).withDatesAsText = table (entries.map entryWithDatesAsText) := by
  rw [withDatesAsText, entriesWithDatesAsText_eq_map]

theorem map_fst_entryWithDatesAsText (entries : List (String × Value)) :
    (entries.map entryWithDatesAsText).map Prod.fst = entries.map Prod.fst := by
  rw [List.map_map]
  rfl

theorem withDatesAsText_ne_null (htoml : value.IsToml) : value.withDatesAsText ≠ .null := by
  cases htoml with
  | list => simp
  | table => simp
  | boolean | integer | float | text | date => exact fun h => Value.noConfusion h

theorem isToml_withDateAsTable (htoml : value.IsToml) : value.withDateAsTable.IsToml := by
  cases htoml with
  | date moment =>
    exact .table (List.nodup_singleton dateKey) (List.forall_mem_singleton.2 (.text moment))
  | boolean b => exact .boolean b
  | integer n => exact .integer n
  | float x => exact .float x
  | text s => exact .text s
  | list hitems => exact .list hitems
  | table hnodup hvalues => exact .table hnodup hvalues

/-- A field is looked up among the entries, with its dates as texts. -/
theorem getD_withDatesAsText_eq_ok_iff {α : Type} {name : String}
    {read : Value → Reading α} {default a : α} (hnodup : (entries.map Prod.fst).Nodup) :
    FieldValues.getD (entries.map entryWithDatesAsText) name read default = .ok a ↔
      (name ∉ entries.map Prod.fst ∧ default = a) ∨
        ∃ value, (name, value) ∈ entries ∧ read value.withDatesAsText = .ok a := by
  have hkeys := map_fst_entryWithDatesAsText entries
  rw [FieldValues.getD_eq_ok_iff, OrderedMap.lookup_eq_none_iff_not_mem, hkeys]
  refine or_congr Iff.rfl ?_
  simp only [OrderedMap.lookup_eq_some_iff_mem (hkeys ▸ hnodup), List.mem_map,
    entryWithDatesAsText, Prod.mk.injEq]
  constructor
  · rintro ⟨_, ⟨⟨_, value⟩, hmem, rfl, rfl⟩, hread⟩
    exact ⟨value, hmem, hread⟩
  · rintro ⟨value, hmem, hread⟩
    exact ⟨_, ⟨(name, value), hmem, rfl, rfl⟩, hread⟩

end Value
end TypeNameLint
