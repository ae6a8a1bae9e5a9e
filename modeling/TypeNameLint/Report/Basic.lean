import TypeNameLint.Path

/-!
# Report.Basic — violations and their parts

- `Severity`: how serious a violation is;
- `Location`: the file, the line and column, and the byte span of a violation;
- `Replacement`, `Suggestion`: how a violation can be mended;
- `Violation`: one reported problem, with the paths in it.
-/

namespace TypeNameLint

/-! ## Severities -/

/-- How serious a violation is. Only errors make a run fail. -/
inductive Severity where
  | info
  | warning
  | error
  deriving DecidableEq, Repr

namespace Severity

def name : Severity → String
  | info => "info"
  | warning => "warning"
  | error => "error"

def all : List Severity :=
  [info, warning, error]

def ofName? (s : String) : Option Severity :=
  all.find? fun severity => severity.name = s

/-- Every severity is found under its name. -/
@[simp] theorem ofName?_name (severity : Severity) : ofName? severity.name = some severity := by
  cases severity <;> decide

end Severity

/-! ## Locations -/

/-- Where a violation sits: a file, a line and a byte column counted from one, and the byte span
that a fix would replace. -/
structure Location where
  file : Path
  line : Nat
  column : Nat
  offset : Nat
  length : Nat
  deriving DecidableEq, Repr

namespace Location

/-- Offsets and lengths are 64-bit words, so an end beyond the largest word wraps around. -/
def wordSize : Nat := 0x10000000000000000

/-- The byte offset just after the span. -/
def stop (l : Location) : Nat :=
  (l.offset + l.length) % wordSize

end Location

/-! ## Suggestions -/

/-- Text to write over the span of a location. -/
structure Replacement where
  location : Location
  newText : String
  deriving DecidableEq, Repr

/-- Help for a violation, with the replacement that mends it, if there is one. -/
structure Suggestion where
  message : String
  replacement : Option Replacement
  deriving DecidableEq, Repr

/-! ## Violations -/

/-- One reported problem. A fixed severity stays as reported, whatever the configuration says. -/
structure Violation where
  code : String
  rule : String
  severity : Severity
  location : Location
  message : String
  suggestion : Option Suggestion
  fixedSeverity : Bool
  deriving DecidableEq, Repr

namespace Violation

def fix? (v : Violation) : Option Replacement :=
  v.suggestion.bind Suggestion.replacement

/-- The paths in a violation: its own, and that of its replacement. -/
def paths (v : Violation) : List Path :=
  v.location.file :: (v.fix?.map fun replacement => replacement.location.file).toList

end Violation
end TypeNameLint
