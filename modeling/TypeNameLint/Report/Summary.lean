import TypeNameLint.Report.Basic

/-!
# Report.Summary — the result of a run and its counts

- `LintResult`: the violations of a run, the number of checked files and of applied fixes;
- `LintResult.count`, `LintResult.hasErrors`, `LintResult.fixable`: what the summary line says;
- `LintResult.paths`: the paths that are written with a result.
-/

namespace TypeNameLint

/-- Everything that a run produced. -/
structure LintResult where
  violations : List Violation
  filesChecked : Nat
  fixesApplied : Nat
  deriving DecidableEq, Repr

namespace LintResult

def empty : LintResult := ⟨[], 0, 0⟩

def count (r : LintResult) (severity : Severity) : Nat :=
  r.violations.countP fun v => v.severity = severity

def hasErrors (r : LintResult) : Bool :=
  r.violations.any fun v => v.severity = .error

def fixable (r : LintResult) : Nat :=
  r.violations.countP fun v => v.fix?.isSome

/-- The paths in a result. -/
def paths (r : LintResult) : List Path :=
  r.violations.flatMap Violation.paths

def push (r : LintResult) (v : Violation) : LintResult :=
  { r with violations := r.violations ++ [v] }

end LintResult
end TypeNameLint
