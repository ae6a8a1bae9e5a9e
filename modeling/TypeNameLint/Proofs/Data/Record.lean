import TypeNameLint.Data.Record
import TypeNameLint.Proofs.Data.OrderedMap

/-!
# Record — a table with the fields of a record is taken as it is

The main result is `RecordShape.read_table`: if the keys of a table are different fields of a record
whose values pass their tests, and no needed field is missing, reading gives all entries in order.
By `RecordShape.read_table_eq_ok_iff` a closed record takes no other table of different keys.
-/

namespace TypeNameLint
namespace RecordShape

variable {shape : RecordShape} {entries seen : List (String × Value)}

/-- A record takes an entry: the key is a field, and the value passes the test of that field. -/
def Takes (shape : RecordShape) (entry : String × Value) : Prop :=
  ∃ field, (shape.fields.find? fun field => field.name = entry.1) = some field ∧
    field.check entry.2 = .ok ()

/-- A table has an entry for every field that is always needed. -/
def IsComplete (shape : RecordShape) (entries : List (String × Value)) : Prop :=
  ∀ field ∈ shape.fields, field.need = .always → field.name ∈ entries.map Prod.fst

theorem takes_of_read {α : Type} {key : String} {value : Value} {need : FieldNeed}
    {read : Value → Reading α} {a : α}
    (hfield : (shape.fields.find? fun field => field.name = key) = some (.of key need read))
    (hread : read value = .ok a) : shape.Takes (key, value) := by
  refine ⟨_, hfield, ?_⟩
  simp only [Field.of, hread]
  rfl

/-- An entry whose field is looked up and read is taken. -/
theorem takes_of_getD {α : Type} {key : String} {value : Value} {need : FieldNeed}
    {read : Value → Reading α} {default a : α} (hkeys : (entries.map Prod.fst).Nodup)
    (hfield : (shape.fields.find? fun field => field.name = key) = some (.of key need read))
    (hread : FieldValues.getD entries key read default = .ok a) (hmem : (key, value) ∈ entries) :
    shape.Takes (key, value) := by
  rw [FieldValues.getD, OrderedMap.lookup_eq_some_of_mem hkeys hmem] at hread
  exact takes_of_read hfield hread

/-- Entries are taken one after the other, those taken before stay in front. -/
theorem scan_of_takes (htakes : ∀ entry ∈ entries, shape.Takes entry)
    (hkeys : ((seen.reverse ++ entries).map Prod.fst).Nodup) :
    shape.scan seen entries = .ok (seen.reverse ++ entries) := by
  induction entries generalizing seen with
  | nil => simp [scan]
  | cons entry entries ih =>
    rcases entry with ⟨key, value⟩
    rcases htakes (key, value) (by simp) with ⟨field, hfield, hcheck⟩
    have hseen : seen.lookup key = none := by
      rw [OrderedMap.lookup_eq_none_iff_not_mem]
      intro hmem
      rw [List.map_append, List.nodup_append] at hkeys
      exact hkeys.2.2 key (by simpa using hmem) key (by simp) rfl
    have hrest := @ih ((key, value) :: seen)
      (fun other hother => htakes other (List.mem_cons_of_mem _ hother)) (by simpa using hkeys)
    simp [scan, hfield, hseen, hcheck, hrest]

/-- A closed record passes no entry that it does not take. -/
theorem takes_of_scan (hclosed : shape.isClosed = true) {values : FieldValues}
    (h : shape.scan seen entries = .ok values) :
    values = seen.reverse ++ entries ∧ ∀ entry ∈ entries, shape.Takes entry := by
  induction entries generalizing seen with
  | nil => simp_all [scan]
  | cons entry entries ih =>
    rcases entry with ⟨key, value⟩
    rw [scan] at h
    split at h
    · rw [if_pos hclosed] at h
      cases h
    · rename_i field hfield
      split at h
      · cases h
      · split at h
        · cases h
        · rename_i hcheck
          rcases ih h with ⟨rfl, htakes⟩
          exact ⟨by simp, List.forall_mem_cons.2 ⟨⟨field, hfield, hcheck⟩, htakes⟩⟩

/-- What a record takes are entries of the table. -/
theorem mem_of_scan {values : FieldValues} (h : shape.scan seen entries = .ok values) :
    ∀ entry ∈ values, entry ∈ seen ∨ entry ∈ entries := by
  induction entries generalizing seen with
  | nil =>
    obtain rfl := Except.ok.inj h
    exact fun entry hentry => Or.inl (List.mem_reverse.1 hentry)
  | cons entry entries ih =>
    rcases entry with ⟨key, value⟩
    intro other hother
    rw [scan] at h
    split at h
    · split at h
      · cases h
      · exact (ih h other hother).imp_right (List.mem_cons_of_mem _)
    · split at h
      · cases h
      · split at h
        · cases h
        · rcases ih h other hother with hseen | hrest
          · rcases List.mem_cons.1 hseen with rfl | hseen
            · exact Or.inr List.mem_cons_self
            · exact Or.inl hseen
          · exact Or.inr (List.mem_cons_of_mem _ hrest)

theorem mem_of_ofTable {values : FieldValues} (h : shape.ofTable entries = .ok values)
    {entry : String × Value} (hentry : entry ∈ values) : entry ∈ entries := by
  rw [ofTable] at h
  split at h
  · cases h
  · rename_i scanned hscan
    split at h
    · cases h
    · obtain rfl := Except.ok.inj h
      rcases mem_of_scan hscan entry hentry with hnone | hmem
      · cases hnone
      · exact hmem

/-- A complete table of different fields is taken as it is. -/
theorem read_table (htakes : ∀ entry ∈ entries, shape.Takes entry)
    (hkeys : (entries.map Prod.fst).Nodup) (hcomplete : shape.IsComplete entries) :
    shape.read (.table entries) = .ok entries := by
  have hscan : shape.scan [] entries = .ok entries := scan_of_takes htakes hkeys
  have hmissing : (shape.fields.find? fun field =>
      decide (field.need = .always) && (entries.lookup field.name).isNone) = none := by
    refine List.find?_eq_none.2 fun field hfield hmissing => ?_
    rw [Bool.and_eq_true, decide_eq_true_eq, Option.isNone_iff_eq_none,
      OrderedMap.lookup_eq_none_iff_not_mem] at hmissing
    exact hmissing.2 (hcomplete field hfield hmissing.1)
  simp [read, ofTable, hscan, hmissing]

/-- A table of different keys that a closed record accepts is taken as it is. -/
theorem read_table_eq_ok_iff (hclosed : shape.isClosed = true)
    (hkeys : (entries.map Prod.fst).Nodup) (hcomplete : shape.IsComplete entries)
    {values : FieldValues} :
    shape.read (.table entries) = .ok values ↔
      values = entries ∧ ∀ entry ∈ entries, shape.Takes entry := by
  constructor
  · intro h
    rw [read, ofTable] at h
    split at h
    · cases h
    · rename_i scanned hscan
      split at h
      · cases h
      · obtain rfl := Except.ok.inj h
        exact takes_of_scan hclosed hscan
  · rintro ⟨rfl, htakes⟩
    exact read_table htakes hkeys hcomplete

end RecordShape

namespace FieldValues

variable {α : Type} {values : FieldValues} {name : String} {read : Value → Reading α} {a : α}

theorem get_eq_ok_iff :
    values.get name read = .ok a ↔
      ∃ value, values.lookup name = some value ∧ read value = .ok a := by
  rw [get]
  cases values.lookup name <;> simp [misread]

theorem getD_eq_ok_iff {default : α} :
    values.getD name read default = .ok a ↔
      (values.lookup name = none ∧ default = a) ∨
        ∃ value, values.lookup name = some value ∧ read value = .ok a := by
  rw [getD]
  cases values.lookup name <;> simp

end FieldValues
end TypeNameLint
