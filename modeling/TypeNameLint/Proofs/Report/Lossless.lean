import TypeNameLint.CommandLine.Session
import TypeNameLint.Proofs.Data.Lists
import TypeNameLint.Proofs.Data.Record
import TypeNameLint.Proofs.Data.Steps
import TypeNameLint.Proofs.Json.RoundTrip

/-!
# Lossless — a report is read as it was written

Writing and reading a report are not mirror images of each other: a severity that is not fixed is
left out, parts that are absent are null, and a reader takes tables in other orders as well. What is
written is read without loss all the same, as long as the numbers are words. This file defines:

* `Location.FitsWords`, `Violation.FitsWords`, `LintResult.FitsWords`: all numbers are words.

The main result is `readJson_reported_iff`.
-/

namespace TypeNameLint

/-! ## Words -/

structure Location.FitsWords (l : Location) : Prop where
  line : l.line < wordSize
  column : l.column < wordSize
  offset : l.offset < wordSize
  length : l.length < wordSize

/-- The location of a violation and that of its replacement have words only. -/
structure Violation.FitsWords (v : Violation) : Prop where
  location : v.location.FitsWords
  fix : ∀ r, v.fix? = some r → r.location.FitsWords

structure LintResult.FitsWords (r : LintResult) : Prop where
  violations : ∀ v ∈ r.violations, v.FitsWords
  filesChecked : r.filesChecked < Location.wordSize
  fixesApplied : r.fixesApplied < Location.wordSize

/-! ## Simple shapes -/

theorem readCount_eq_ok_iff {value : Value} {n : Nat} :
    readCount value = .ok n ↔ value = .integer n ∧ n < Location.wordSize := by
  constructor
  · intro h
    unfold readCount at h
    split at h
    · split at h
      · rename_i k hk
        rcases Int.eq_ofNat_of_zero_le hk.1 with ⟨m, rfl⟩
        cases h
        exact ⟨rfl, Int.ofNat_lt.1 hk.2⟩
      · cases h
    · cases h
  · rintro ⟨rfl, hn⟩
    have hword : 0 ≤ (n : Int) ∧ (n : Int) < 0x10000000000000000 :=
      ⟨Int.natCast_nonneg n, Int.ofNat_lt.2 hn⟩
    rw [readCount, if_pos hword]
    rfl

theorem readCount_integer {n : Nat} (h : n < Location.wordSize) :
    readCount (.integer n) = .ok n :=
  readCount_eq_ok_iff.2 ⟨rfl, h⟩

/-- A part is read from what is written of it, or its absence from null. -/
theorem readOptional_optionalValue {α : Type} {read : Value → Reading α} {write : α → Value}
    {part : Option α} (hnull : ∀ a, write a ≠ .null)
    (h : ∀ a, part = some a → read (write a) = .ok a) :
    readOptional read (optionalValue write part) = .ok part := by
  cases part with
  | none => rfl
  | some a =>
    rw [optionalValue, readOptional]
    · rw [h a rfl]
      rfl
    · exact hnull a

theorem readOptional_eq_some {α : Type} {read : Value → Reading α} {value : Value} {a : α}
    (h : readOptional read value = .ok (some a)) : read value = .ok a := by
  unfold readOptional at h
  split at h
  · cases h
  · rcases map_eq_ok_iff.1 h with ⟨b, hread, hsame⟩
    rw [hread, Option.some.inj hsame]

/-! ## Records -/

namespace Location

variable {l : Location} {value : Value}

theorem ofValue_eq_ok_iff :
    ofValue value = .ok l ↔ ∃ fields, shape.read value = .ok fields ∧
      FieldValues.get fields "file" (readText "path string") = .ok l.file.text ∧
      FieldValues.get fields "line" readCount = .ok l.line ∧
      FieldValues.get fields "column" readCount = .ok l.column ∧
      FieldValues.get fields "offset" readCount = .ok l.offset ∧
      FieldValues.get fields "length" readCount = .ok l.length := by
  simp only [ofValue, bind_eq_ok_iff]
  constructor
  · rintro ⟨fields, hfields, file, hfile, line, hline, column, hcolumn, offset, hoffset, length,
      hlength, ⟨⟩⟩
    exact ⟨fields, hfields, hfile, hline, hcolumn, hoffset, hlength⟩
  · rintro ⟨fields, hfields, hfile, hline, hcolumn, hoffset, hlength⟩
    exact ⟨fields, hfields, _, hfile, _, hline, _, hcolumn, _, hoffset, _, hlength, rfl⟩

theorem fitsWords_of_ofValue (h : ofValue value = .ok l) : l.FitsWords := by
  rcases ofValue_eq_ok_iff.1 h with ⟨fields, -, -, hline, hcolumn, hoffset, hlength⟩
  have hword : ∀ {name : String} {n : Nat}, FieldValues.get fields name readCount = .ok n →
      n < wordSize := by
    intro name n hn
    rcases FieldValues.get_eq_ok_iff.1 hn with ⟨value, -, hvalue⟩
    exact (readCount_eq_ok_iff.1 hvalue).2
  exact ⟨hword hline, hword hcolumn, hword hoffset, hword hlength⟩

theorem ofValue_toValue (h : l.FitsWords) : ofValue l.toValue = .ok l := by
  have hline := readCount_integer h.line
  have hcolumn := readCount_integer h.column
  have hoffset := readCount_integer h.offset
  have hlength := readCount_integer h.length
  have hfields : shape.read l.toValue = .ok
      [("file", .text l.file.text), ("line", .integer l.line), ("column", .integer l.column),
       ("offset", .integer l.offset), ("length", .integer l.length)] := by
    refine RecordShape.read_table (fun entry hentry => ?_) (by simp)
      (by simp [RecordShape.IsComplete, shape, Field.of])
    simp only [List.mem_cons, List.not_mem_nil, or_false] at hentry
    rcases hentry with rfl | rfl | rfl | rfl | rfl
    · exact RecordShape.takes_of_read rfl rfl
    · exact RecordShape.takes_of_read rfl hline
    · exact RecordShape.takes_of_read rfl hcolumn
    · exact RecordShape.takes_of_read rfl hoffset
    · exact RecordShape.takes_of_read rfl hlength
  refine ofValue_eq_ok_iff.2 ⟨_, hfields, ?_, ?_, ?_, ?_, ?_⟩
  · exact FieldValues.get_eq_ok_iff.2 ⟨_, rfl, rfl⟩
  · exact FieldValues.get_eq_ok_iff.2 ⟨_, rfl, hline⟩
  · exact FieldValues.get_eq_ok_iff.2 ⟨_, rfl, hcolumn⟩
  · exact FieldValues.get_eq_ok_iff.2 ⟨_, rfl, hoffset⟩
  · exact FieldValues.get_eq_ok_iff.2 ⟨_, rfl, hlength⟩

end Location

namespace Replacement

variable {r : Replacement} {value : Value}

theorem ofValue_eq_ok_iff :
    ofValue value = .ok r ↔ ∃ fields, shape.read value = .ok fields ∧
      FieldValues.get fields "location" Location.ofValue = .ok r.location ∧
      FieldValues.get fields "new_text" (readText "a string") = .ok r.newText := by
  simp only [ofValue, bind_eq_ok_iff]
  constructor
  · rintro ⟨fields, hfields, location, hlocation, text, htext, ⟨⟩⟩
    exact ⟨fields, hfields, hlocation, htext⟩
  · rintro ⟨fields, hfields, hlocation, htext⟩
    exact ⟨fields, hfields, _, hlocation, _, htext, rfl⟩

theorem fitsWords_of_ofValue (h : ofValue value = .ok r) : r.location.FitsWords := by
  rcases ofValue_eq_ok_iff.1 h with ⟨fields, -, hlocation, -⟩
  rcases FieldValues.get_eq_ok_iff.1 hlocation with ⟨inner, -, hinner⟩
  exact Location.fitsWords_of_ofValue hinner

theorem ofValue_toValue (h : r.location.FitsWords) : ofValue r.toValue = .ok r := by
  have hlocation := Location.ofValue_toValue h
  have hfields : shape.read r.toValue = .ok
      [("location", r.location.toValue), ("new_text", .text r.newText)] := by
    refine RecordShape.read_table (fun entry hentry => ?_) (by simp)
      (by simp [RecordShape.IsComplete, shape, Field.of])
    simp only [List.mem_cons, List.not_mem_nil, or_false] at hentry
    rcases hentry with rfl | rfl
    · exact RecordShape.takes_of_read rfl hlocation
    · exact RecordShape.takes_of_read rfl rfl
  refine ofValue_eq_ok_iff.2 ⟨_, hfields, ?_, ?_⟩
  · exact FieldValues.get_eq_ok_iff.2 ⟨_, rfl, hlocation⟩
  · exact FieldValues.get_eq_ok_iff.2 ⟨_, rfl, rfl⟩

end Replacement

namespace Suggestion

variable {s : Suggestion} {value : Value}

theorem ofValue_eq_ok_iff :
    ofValue value = .ok s ↔ ∃ fields, shape.read value = .ok fields ∧
      FieldValues.get fields "message" (readText "a string") = .ok s.message ∧
      FieldValues.getD fields "replacement" (readOptional Replacement.ofValue) none =
        .ok s.replacement := by
  simp only [ofValue, bind_eq_ok_iff]
  constructor
  · rintro ⟨fields, hfields, message, hmessage, replacement, hreplacement, ⟨⟩⟩
    exact ⟨fields, hfields, hmessage, hreplacement⟩
  · rintro ⟨fields, hfields, hmessage, hreplacement⟩
    exact ⟨fields, hfields, _, hmessage, _, hreplacement, rfl⟩

theorem fitsWords_of_ofValue (h : ofValue value = .ok s) :
    ∀ r, s.replacement = some r → r.location.FitsWords := by
  rcases ofValue_eq_ok_iff.1 h with ⟨fields, -, -, hreplacement⟩
  intro r hr
  rw [hr] at hreplacement
  rcases FieldValues.getD_eq_ok_iff.1 hreplacement with ⟨-, hnone⟩ | ⟨inner, -, hinner⟩
  · cases hnone
  · exact Replacement.fitsWords_of_ofValue (readOptional_eq_some hinner)

theorem ofValue_toValue (h : ∀ r, s.replacement = some r → r.location.FitsWords) :
    ofValue s.toValue = .ok s := by
  have hreplacement : readOptional Replacement.ofValue
      (optionalValue Replacement.toValue s.replacement) = .ok s.replacement :=
    readOptional_optionalValue (fun _ => nofun) fun r hr => Replacement.ofValue_toValue (h r hr)
  have hfields : shape.read s.toValue = .ok
      [("message", .text s.message),
       ("replacement", optionalValue Replacement.toValue s.replacement)] := by
    refine RecordShape.read_table (fun entry hentry => ?_) (by simp)
      (by simp [RecordShape.IsComplete, shape, Field.of])
    simp only [List.mem_cons, List.not_mem_nil, or_false] at hentry
    rcases hentry with rfl | rfl
    · exact RecordShape.takes_of_read rfl rfl
    · exact RecordShape.takes_of_read rfl hreplacement
  refine ofValue_eq_ok_iff.2 ⟨_, hfields, ?_, ?_⟩
  · exact FieldValues.get_eq_ok_iff.2 ⟨_, rfl, rfl⟩
  · exact FieldValues.getD_eq_ok_iff.2 (Or.inr ⟨_, rfl, hreplacement⟩)

end Suggestion

theorem Severity.ofValue_toValue (severity : Severity) :
    Severity.ofValue severity.toValue = .ok severity := by
  simp [toValue, ofValue, ofText]

namespace Violation

variable {v : Violation} {value : Value}

theorem ofValue_eq_ok_iff :
    ofValue value = .ok v ↔ ∃ fields, shape.read value = .ok fields ∧
      FieldValues.get fields "code" (readText "a string") = .ok v.code ∧
      FieldValues.get fields "rule" (readText "a string") = .ok v.rule ∧
      FieldValues.get fields "severity" Severity.ofValue = .ok v.severity ∧
      FieldValues.get fields "location" Location.ofValue = .ok v.location ∧
      FieldValues.get fields "message" (readText "a string") = .ok v.message ∧
      FieldValues.getD fields "suggestion" (readOptional Suggestion.ofValue) none =
        .ok v.suggestion ∧
      FieldValues.getD fields "fixed_severity" readBoolean false = .ok v.fixedSeverity := by
  simp only [ofValue, bind_eq_ok_iff]
  constructor
  · rintro ⟨fields, hfields, code, hcode, rule, hrule, severity, hseverity, location, hlocation,
      message, hmessage, suggestion, hsuggestion, fixed, hfixed, ⟨⟩⟩
    exact ⟨fields, hfields, hcode, hrule, hseverity, hlocation, hmessage, hsuggestion, hfixed⟩
  · rintro ⟨fields, hfields, hcode, hrule, hseverity, hlocation, hmessage, hsuggestion, hfixed⟩
    exact ⟨fields, hfields, _, hcode, _, hrule, _, hseverity, _, hlocation, _, hmessage, _,
      hsuggestion, _, hfixed, rfl⟩

theorem fitsWords_of_ofValue (h : ofValue value = .ok v) : v.FitsWords := by
  rcases ofValue_eq_ok_iff.1 h with ⟨fields, -, -, -, -, hlocation, -, hsuggestion, -⟩
  rcases FieldValues.get_eq_ok_iff.1 hlocation with ⟨inner, -, hinner⟩
  refine ⟨Location.fitsWords_of_ofValue hinner, fun r hr => ?_⟩
  rcases Option.bind_eq_some_iff.1 hr with ⟨s, hs, hreplacement⟩
  rw [hs] at hsuggestion
  rcases FieldValues.getD_eq_ok_iff.1 hsuggestion with ⟨-, hnone⟩ | ⟨part, -, hpart⟩
  · cases hnone
  · exact Suggestion.fitsWords_of_ofValue (readOptional_eq_some hpart) r hreplacement

/-- What is written of a violation, apart from a fixed severity. -/
def writtenFields (v : Violation) : List (String × Value) :=
  [("code", .text v.code), ("rule", .text v.rule), ("severity", v.severity.toValue),
   ("location", v.location.toValue), ("message", .text v.message),
   ("suggestion", optionalValue Suggestion.toValue v.suggestion)]

theorem ofValue_toValue (h : v.FitsWords) : ofValue v.toValue = .ok v := by
  have hseverity := v.severity.ofValue_toValue
  have hlocation := Location.ofValue_toValue h.location
  have hsuggestion : readOptional Suggestion.ofValue
      (optionalValue Suggestion.toValue v.suggestion) = .ok v.suggestion := by
    refine readOptional_optionalValue (fun _ => nofun) fun s hs => Suggestion.ofValue_toValue ?_
    exact fun r hr => h.fix r (by rw [fix?, hs]; exact hr)
  have hwritten : ∀ entry ∈ v.writtenFields, shape.Takes entry := by
    intro entry hentry
    simp only [writtenFields, List.mem_cons, List.not_mem_nil, or_false] at hentry
    rcases hentry with rfl | rfl | rfl | rfl | rfl | rfl
    · exact RecordShape.takes_of_read rfl rfl
    · exact RecordShape.takes_of_read rfl rfl
    · exact RecordShape.takes_of_read rfl hseverity
    · exact RecordShape.takes_of_read rfl hlocation
    · exact RecordShape.takes_of_read rfl rfl
    · exact RecordShape.takes_of_read rfl hsuggestion
  -- The last field is written only if it is not as by default.
  have hfields : ∃ last, shape.read v.toValue = .ok (v.writtenFields ++ last) ∧
      FieldValues.getD (v.writtenFields ++ last) "fixed_severity" readBoolean false =
        .ok v.fixedSeverity := by
    cases hfixed : v.fixedSeverity with
    | false =>
      refine ⟨[], ?_, FieldValues.getD_eq_ok_iff.2 (Or.inl ⟨rfl, rfl⟩)⟩
      rw [toValue, hfixed]
      exact RecordShape.read_table hwritten (by simp)
        (by simp [RecordShape.IsComplete, shape, Field.of])
    | true =>
      refine ⟨[("fixed_severity", .boolean true)], ?_,
        FieldValues.getD_eq_ok_iff.2 (Or.inr ⟨_, rfl, rfl⟩)⟩
      rw [toValue, hfixed]
      refine RecordShape.read_table ?_ (by simp)
        (by simp [RecordShape.IsComplete, shape, Field.of])
      intro entry hentry
      rcases List.mem_append.1 hentry with hentry | hentry
      · exact hwritten entry hentry
      · rw [List.mem_singleton.1 hentry]
        exact RecordShape.takes_of_read rfl rfl
  rcases hfields with ⟨last, hread, hfixed⟩
  refine ofValue_eq_ok_iff.2 ⟨_, hread, ?_, ?_, ?_, ?_, ?_, ?_, hfixed⟩
  · exact FieldValues.get_eq_ok_iff.2 ⟨_, rfl, rfl⟩
  · exact FieldValues.get_eq_ok_iff.2 ⟨_, rfl, rfl⟩
  · exact FieldValues.get_eq_ok_iff.2 ⟨_, rfl, hseverity⟩
  · exact FieldValues.get_eq_ok_iff.2 ⟨_, rfl, hlocation⟩
  · exact FieldValues.get_eq_ok_iff.2 ⟨_, rfl, rfl⟩
  · exact FieldValues.getD_eq_ok_iff.2 (Or.inr ⟨_, rfl, hsuggestion⟩)

end Violation

namespace LintResult

variable {r : LintResult} {value : Value}

theorem ofValue_eq_ok_iff :
    ofValue value = .ok r ↔ ∃ fields, shape.read value = .ok fields ∧
      FieldValues.get fields "violations" (readList Violation.ofValue) = .ok r.violations ∧
      FieldValues.get fields "files_checked" readCount = .ok r.filesChecked ∧
      FieldValues.getD fields "fixes_applied" readCount 0 = .ok r.fixesApplied := by
  simp only [ofValue, bind_eq_ok_iff]
  constructor
  · rintro ⟨fields, hfields, violations, hviolations, checked, hchecked, applied, happlied, ⟨⟩⟩
    exact ⟨fields, hfields, hviolations, hchecked, happlied⟩
  · rintro ⟨fields, hfields, hviolations, hchecked, happlied⟩
    exact ⟨fields, hfields, _, hviolations, _, hchecked, _, happlied, rfl⟩

theorem fitsWords_of_readList {violations : List Violation}
    (h : readList Violation.ofValue value = .ok violations) : ∀ v ∈ violations, v.FitsWords := by
  intro v hv
  unfold readList at h
  split at h
  · rcases exists_of_mem_of_forall₂ (mapM_eq_ok_iff.1 h).flip v hv with ⟨item, -, hitem⟩
    exact Violation.fitsWords_of_ofValue hitem
  · cases h

/-- A reader gives words only. -/
theorem fitsWords_of_ofValue (h : ofValue value = .ok r) : r.FitsWords := by
  rcases ofValue_eq_ok_iff.1 h with ⟨fields, -, hviolations, hchecked, happlied⟩
  rcases FieldValues.get_eq_ok_iff.1 hviolations with ⟨list, -, hlist⟩
  rcases FieldValues.get_eq_ok_iff.1 hchecked with ⟨count, -, hcount⟩
  refine ⟨fitsWords_of_readList hlist, (readCount_eq_ok_iff.1 hcount).2, ?_⟩
  rcases FieldValues.getD_eq_ok_iff.1 happlied with ⟨-, hzero⟩ | ⟨applied, -, hread⟩
  · rw [← hzero]
    decide
  · exact (readCount_eq_ok_iff.1 hread).2

theorem ofValue_toValue (h : r.FitsWords) : ofValue r.toValue = .ok r := by
  have hviolations : readList Violation.ofValue (.list (r.violations.map Violation.toValue)) =
      .ok r.violations := by
    refine mapM_eq_ok_iff.2 (List.forall₂_map_left_iff.2 (List.forall₂_same.2 fun v hv => ?_))
    exact Violation.ofValue_toValue (h.violations v hv)
  have hchecked := readCount_integer h.filesChecked
  have happlied := readCount_integer h.fixesApplied
  have hfields : shape.read r.toValue = .ok
      [("violations", .list (r.violations.map Violation.toValue)),
       ("files_checked", .integer r.filesChecked), ("fixes_applied", .integer r.fixesApplied)] := by
    refine RecordShape.read_table (fun entry hentry => ?_) (by simp)
      (by simp [RecordShape.IsComplete, shape, Field.of])
    simp only [List.mem_cons, List.not_mem_nil, or_false] at hentry
    rcases hentry with rfl | rfl | rfl
    · exact RecordShape.takes_of_read rfl hviolations
    · exact RecordShape.takes_of_read rfl hchecked
    · exact RecordShape.takes_of_read rfl happlied
  refine ofValue_eq_ok_iff.2 ⟨_, hfields, ?_, ?_, ?_⟩
  · exact FieldValues.get_eq_ok_iff.2 ⟨_, rfl, hviolations⟩
  · exact FieldValues.get_eq_ok_iff.2 ⟨_, rfl, hchecked⟩
  · exact FieldValues.getD_eq_ok_iff.2 (Or.inr ⟨_, rfl, happlied⟩)

end LintResult

/-! ## Texts -/

theorem fits_integer {n : Nat} (h : n < Location.wordSize) (depth : Nat) :
    Value.Fits depth (.integer n) := by
  refine Value.Fits.integer depth ⟨by omega, ?_⟩
  exact Int.ofNat_le.2 (Nat.le_of_lt_succ h)

theorem fits_optionalValue {α : Type} {write : α → Value} {part : Option α} {depth : Nat}
    (h : ∀ a, part = some a → (write a).Fits depth) : (optionalValue write part).Fits depth := by
  cases part with
  | none => exact Value.Fits.null depth
  | some a => exact h a rfl

theorem Location.fits_toValue {l : Location} (h : l.FitsWords) (depth : Nat) :
    l.toValue.Fits (depth + 1) := by
  refine Value.Fits.table fun entry hentry => ?_
  simp only [List.mem_cons, List.not_mem_nil, or_false] at hentry
  rcases hentry with rfl | rfl | rfl | rfl | rfl
  · exact Value.Fits.text depth _
  · exact fits_integer h.line depth
  · exact fits_integer h.column depth
  · exact fits_integer h.offset depth
  · exact fits_integer h.length depth

theorem Replacement.fits_toValue {r : Replacement} (h : r.location.FitsWords) (depth : Nat) :
    r.toValue.Fits (depth + 2) := by
  refine Value.Fits.table fun entry hentry => ?_
  simp only [List.mem_cons, List.not_mem_nil, or_false] at hentry
  rcases hentry with rfl | rfl
  · exact Location.fits_toValue h depth
  · exact Value.Fits.text _ _

theorem Suggestion.fits_toValue {s : Suggestion}
    (h : ∀ r, s.replacement = some r → r.location.FitsWords) (depth : Nat) :
    s.toValue.Fits (depth + 3) := by
  refine Value.Fits.table fun entry hentry => ?_
  simp only [List.mem_cons, List.not_mem_nil, or_false] at hentry
  rcases hentry with rfl | rfl
  · exact Value.Fits.text _ _
  · exact fits_optionalValue fun r hr => Replacement.fits_toValue (h r hr) depth

theorem Violation.fits_toValue {v : Violation} (h : v.FitsWords) (depth : Nat) :
    v.toValue.Fits (depth + 4) := by
  refine Value.Fits.table fun entry hentry => ?_
  rcases List.mem_append.1 hentry with hentry | hentry
  · simp only [List.mem_cons, List.not_mem_nil, or_false] at hentry
    rcases hentry with rfl | rfl | rfl | rfl | rfl | rfl
    · exact Value.Fits.text _ _
    · exact Value.Fits.text _ _
    · exact Value.Fits.text _ _
    · exact Location.fits_toValue h.location (depth + 2)
    · exact Value.Fits.text _ _
    · refine fits_optionalValue fun s hs => Suggestion.fits_toValue (fun r hr => ?_) depth
      exact h.fix r (by rw [fix?, hs]; exact hr)
  · split at hentry
    · rw [List.mem_singleton.1 hentry]
      exact Value.Fits.boolean _ _
    · cases hentry

theorem LintResult.fits_toValue {r : LintResult} (h : r.FitsWords) (depth : Nat) :
    r.toValue.Fits (depth + 6) := by
  refine Value.Fits.table fun entry hentry => ?_
  simp only [List.mem_cons, List.not_mem_nil, or_false] at hentry
  rcases hentry with rfl | rfl | rfl
  · refine Value.Fits.list fun item hitem => ?_
    rcases List.mem_map.1 hitem with ⟨v, hv, rfl⟩
    exact Violation.fits_toValue (h.violations v hv) depth
  · exact fits_integer h.filesChecked _
  · exact fits_integer h.fixesApplied _

/-- What a check prints of a result in JSON is read as this result, whatever texts are in it,
exactly if the numbers in it are words of 64 bits. -/
theorem readJson_reported_iff (analysis : Analysis) (store : FileStore) (r : LintResult) :
    readJson LintResult.ofValue (CommandLine.reported analysis .json r store).output = .ok r ↔
      r.FitsWords := by
  have houtput : (CommandLine.reported analysis .json r store).output =
      Json.write r.toValue ++ "\n" := rfl
  constructor
  · intro h
    unfold readJson at h
    split at h
    · cases h
    · rename_i value _
      cases hvalue : LintResult.ofValue value with
      | error fault =>
        rw [hvalue] at h
        cases h
      | ok found =>
        rw [hvalue] at h
        cases h
        exact LintResult.fitsWords_of_ofValue hvalue
  · intro h
    have hread : Json.read? (Json.write r.toValue ++ "\n") = some r.toValue :=
      Json.read?_write (LintResult.fits_toValue h 121) rfl
    rw [houtput, readJson, hread]
    simp only [LintResult.ofValue_toValue h]
    rfl

end TypeNameLint
