/-!
# Data.Value — structured data

Reports and configuration are read into the same form: scalars, lists, and tables that keep the
order of their entries and, where the text repeats a key, the repetition too. This file defines:

- `Value`: the form;
- `Value.same`: a test of equality;
- `Value.dateKey`, `Value.withDatesAsText`, `Value.withDateAsTable`: two readings of dates.
-/

namespace TypeNameLint

/-- Structured data. Dates occur in configuration only, and are kept in their normal form. -/
inductive Value where
  | null
  | boolean (value : Bool)
  | integer (value : Int)
  | float (value : Float)
  | text (value : String)
  | date (value : String)
  | list (items : List Value)
  | table (entries : List (String × Value))
  deriving Repr, Inhabited

namespace Value

/-! ## Equality -/

mutual

/-- Whether two values are equal. -/
def same : Value → Value → Bool
  | null, null => true
  | boolean b, boolean c => b = c
  | integer m, integer n => m = n
  | float x, float y => x = y
  | text s, text t => s = t
  | date s, date t => s = t
  | list items, list others => sameItems items others
  | table entries, table others => sameEntries entries others
  | _, _ => false

def sameItems : List Value → List Value → Bool
  | [], [] => true
  | item :: items, other :: others => item.same other && sameItems items others
  | _, _ => false

def sameEntries : List (String × Value) → List (String × Value) → Bool
  | [], [] => true
  | (key, value) :: entries, (name, other) :: others =>
    key = name && value.same other && sameEntries entries others
  | _, _ => false

end

mutual

theorem same_eq_true_iff (v w : Value) : v.same w = true ↔ v = w := by
  cases v <;> cases w <;> simp [same, sameItems_eq_true_iff, sameEntries_eq_true_iff]

theorem sameItems_eq_true_iff (items others : List Value) :
    sameItems items others = true ↔ items = others := by
  match items, others with
  | [], [] => simp [sameItems]
  | [], _ :: _ => simp [sameItems]
  | _ :: _, [] => simp [sameItems]
  | item :: items, other :: others =>
    simp [sameItems, same_eq_true_iff item other, sameItems_eq_true_iff items others]

theorem sameEntries_eq_true_iff (entries others : List (String × Value)) :
    sameEntries entries others = true ↔ entries = others := by
  match entries, others with
  | [], [] => simp [sameEntries]
  | [], _ :: _ => simp [sameEntries]
  | _ :: _, [] => simp [sameEntries]
  | (key, value) :: entries, (name, other) :: others =>
    simp [sameEntries, same_eq_true_iff value other, sameEntries_eq_true_iff entries others,
      and_assoc]

end

instance : DecidableEq Value := fun v w =>
  decidable_of_iff (v.same w = true) (same_eq_true_iff v w)

/-! ## Dates -/

/-- The key of the only entry of a table that stands for a date. A table of a document that begins
with this key is kept as a table; it is not taken for a date. -/
def dateKey : String := "$__toml_private_datetime"

mutual

def withDatesAsText : Value → Value
  | date moment => text moment
  | list items => list (itemsWithDatesAsText items)
  | table entries => table (entriesWithDatesAsText entries)
  | value => value

def itemsWithDatesAsText : List Value → List Value
  | [] => []
  | item :: items => item.withDatesAsText :: itemsWithDatesAsText items

def entriesWithDatesAsText : List (String × Value) → List (String × Value)
  | [] => []
  | (key, value) :: entries => (key, value.withDatesAsText) :: entriesWithDatesAsText entries

end

def withDateAsTable : Value → Value
  | date moment => table [(dateKey, text moment)]
  | value => value

end Value
end TypeNameLint
