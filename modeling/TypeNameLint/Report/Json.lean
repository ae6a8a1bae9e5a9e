import TypeNameLint.Data.Record
import TypeNameLint.Json.Printer
import TypeNameLint.Json.Reader
import TypeNameLint.Report.Summary

/-!
# Report.Json — violations and results as structured data

- `Location.toValue`, `Replacement.toValue`, `Suggestion.toValue`, `Violation.toValue`,
  `LintResult.toValue`: the written forms;
- `Location.ofValue`, …, `LintResult.ofValue`: the readers;
- `JsonFault`, `readJson`: a report from JSON text.
-/

namespace TypeNameLint

/-! ## Parts that can be absent -/

/-- A part, or null in its place. -/
def optionalValue {α : Type} (write : α → Value) : Option α → Value
  | none => .null
  | some part => write part

/-! ## Severities -/

namespace Severity

def names : List String := all.map name

def ofText (s : String) : Reading Severity :=
  match ofName? s with
  | some severity => .ok severity
  | none => misread (.unknownVariant s names)

/-- The severity as its name. -/
def toValue (severity : Severity) : Value := .text severity.name

/-- A severity is its name, or a table with the name as the only key and nothing below it. -/
def ofValue : Value → Reading Severity
  | .text s => ofText s
  | .table ((key, value) :: entries) =>
    match ofText key, value, entries with
    | .error fault, _, _ => .error fault
    | .ok severity, .null, [] => .ok severity
    | .ok _, .null, _ :: _ => misread .noChoice
    | .ok _, value, _ => misread (.wrongType value "unit")
  | _ => misread .noChoice

end Severity

/-! ## Locations -/

namespace Location

/-- A location as a table. -/
def toValue (l : Location) : Value :=
  .table
    [("file", .text l.file.text), ("line", .integer l.line), ("column", .integer l.column),
     ("offset", .integer l.offset), ("length", .integer l.length)]

def shape : RecordShape where
  name := "struct Location"
  fields :=
    [.of "file" .always (readText "path string"), .of "line" .always readCount,
     .of "column" .always readCount, .of "offset" .always readCount,
     .of "length" .always readCount]
  isClosed := false

def ofValue (value : Value) : Reading Location := do
  let fields ← shape.read value
  return {
    file := ⟨← fields.get "file" (readText "path string")⟩
    line := ← fields.get "line" readCount
    column := ← fields.get "column" readCount
    offset := ← fields.get "offset" readCount
    length := ← fields.get "length" readCount }

end Location

/-! ## Suggestions -/

namespace Replacement

/-- A replacement as a table. -/
def toValue (r : Replacement) : Value :=
  .table [("location", r.location.toValue), ("new_text", .text r.newText)]

def shape : RecordShape where
  name := "struct Replacement"
  fields := [.of "location" .always Location.ofValue, .of "new_text" .always (readText "a string")]
  isClosed := false

def ofValue (value : Value) : Reading Replacement := do
  let fields ← shape.read value
  return {
    location := ← fields.get "location" Location.ofValue
    newText := ← fields.get "new_text" (readText "a string") }

end Replacement

namespace Suggestion

/-- A suggestion as a table. -/
def toValue (s : Suggestion) : Value :=
  .table
    [("message", .text s.message), ("replacement", optionalValue Replacement.toValue s.replacement)]

def shape : RecordShape where
  name := "struct Suggestion"
  fields :=
    [.of "message" .always (readText "a string"),
     .of "replacement" .optional (readOptional Replacement.ofValue)]
  isClosed := false

def ofValue (value : Value) : Reading Suggestion := do
  let fields ← shape.read value
  return {
    message := ← fields.get "message" (readText "a string")
    replacement := ← fields.getD "replacement" (readOptional Replacement.ofValue) none }

end Suggestion

/-! ## Violations -/

namespace Violation

/-- A violation as a table. That its severity is not fixed goes without saying. -/
def toValue (v : Violation) : Value :=
  .table
    ([("code", .text v.code), ("rule", .text v.rule), ("severity", v.severity.toValue),
      ("location", v.location.toValue), ("message", .text v.message),
      ("suggestion", optionalValue Suggestion.toValue v.suggestion)] ++
      if v.fixedSeverity then [("fixed_severity", .boolean true)] else [])

def shape : RecordShape where
  name := "struct Violation"
  fields :=
    [.of "code" .always (readText "a string"), .of "rule" .always (readText "a string"),
     .of "severity" .always Severity.ofValue, .of "location" .always Location.ofValue,
     .of "message" .always (readText "a string"),
     .of "suggestion" .optional (readOptional Suggestion.ofValue),
     .of "fixed_severity" .defaulted readBoolean]
  isClosed := false

def ofValue (value : Value) : Reading Violation := do
  let fields ← shape.read value
  return {
    code := ← fields.get "code" (readText "a string")
    rule := ← fields.get "rule" (readText "a string")
    severity := ← fields.get "severity" Severity.ofValue
    location := ← fields.get "location" Location.ofValue
    message := ← fields.get "message" (readText "a string")
    suggestion := ← fields.getD "suggestion" (readOptional Suggestion.ofValue) none
    fixedSeverity := ← fields.getD "fixed_severity" readBoolean false }

end Violation

/-! ## Results -/

namespace LintResult

/-- A result as a table. -/
def toValue (r : LintResult) : Value :=
  .table
    [("violations", .list (r.violations.map Violation.toValue)),
     ("files_checked", .integer r.filesChecked), ("fixes_applied", .integer r.fixesApplied)]

def shape : RecordShape where
  name := "struct LintResult"
  fields :=
    [.of "violations" .always (readList Violation.ofValue), .of "files_checked" .always readCount,
     .of "fixes_applied" .defaulted readCount]
  isClosed := false

def ofValue (value : Value) : Reading LintResult := do
  let fields ← shape.read value
  return {
    violations := ← fields.get "violations" (readList Violation.ofValue)
    filesChecked := ← fields.get "files_checked" readCount
    fixesApplied := ← fields.getD "fixes_applied" readCount 0 }

def toJson (r : LintResult) : String :=
  Json.write r.toValue

end LintResult

/-! ## Reports from text -/

/-- Why JSON text could not be read: it is none, or it spells a value of another shape. -/
inductive JsonFault where
  | malformed
  | misshapen (fault : Fault)
  deriving Repr

def readJson {α : Type} (read : Value → Reading α) (text : String) : Except JsonFault α :=
  match Json.read? text with
  | none => .error .malformed
  | some value => (read value).mapError .misshapen

end TypeNameLint
