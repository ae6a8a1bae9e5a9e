import TypeNameLint.Analysis.File

/-!
# Analysis.Run — a run over all source files

Files are taken in the order of their paths, and fixed texts are written back as they are reached,
so a run that stops leaves the files before that point fixed. This file defines:

- `Analysis.visit`: one file;
- `Analysis.visitAll`: all files, with the result so far and the store;
- `inOrder`: violations in the order of reports;
- `Analysis.run`: the result of a run, and the files it leaves.
-/

namespace TypeNameLint

/-! ## Order -/

/-- Violations are ordered by file, line and column. -/
def Location.compare (a b : Location) : Ordering :=
  ((a.file.compare b.file).then (Ord.compare a.line b.line)).then (Ord.compare a.column b.column)

/-- The violations in the order of reports; those at one place keep theirs. -/
def inOrder (violations : List Violation) : List Violation :=
  violations.mergeSort fun a b => (a.location.compare b.location).isLE

namespace Analysis

/-! ## One file -/

/-- What came of a visit to a file: the draft, or nothing if it has no tree, and the store. -/
structure Visit where
  draft : Option Draft
  store : FileStore

/-- A visit to a source file. A text that came out as it was is not written. -/
def visit (analysis : Analysis) (base : Path) (store : FileStore) (source : Source) :
    Except FileFault Visit :=
  match store.read [] source.path with
  | .error fault => .error fault
  | .ok text =>
    let shown := Path.reportedFrom base source.path
    match examine analysis.fixes (analysis.lint shown source.language) text with
    | none => .ok ⟨none, store⟩
    | some draft =>
      if draft.text = text then .ok ⟨some draft, store⟩
      else (store.write [] source.path draft.text).map fun store => ⟨some draft, store⟩

/-! ## All files -/

def addDraft (result : LintResult) (draft : Draft) : LintResult where
  violations := result.violations ++ draft.violations
  filesChecked := result.filesChecked + 1
  fixesApplied := result.fixesApplied + draft.fixes

/-- What came of a run, and the files it leaves. -/
structure Outcome where
  result : Except AnalysisFault LintResult
  store : FileStore

def visitAll (analysis : Analysis) (base : Path) (result : LintResult) (store : FileStore) :
    List Source → Outcome
  | [] => ⟨.ok result, store⟩
  | source :: sources =>
    match analysis.visit base store source with
    | .error fault => ⟨.error (.file fault), store⟩
    | .ok ⟨none, store⟩ =>
      if analysis.failsWithoutTree then ⟨.error (.noTree source.path source.language.id), store⟩
      else analysis.visitAll base result store sources
    | .ok ⟨some draft, store⟩ => analysis.visitAll base (addDraft result draft) store sources

/-- The result with its violations in order. -/
def sorted (result : LintResult) : LintResult :=
  { result with violations := inOrder result.violations }

/-- The result of a run, and the files it leaves. -/
def run (analysis : Analysis) (store : FileStore) : Outcome :=
  match analysis.sources store with
  | .error fault => ⟨.error (.walk fault), store⟩
  | .ok sources =>
    let outcome := analysis.visitAll (analysis.base store) .empty store sources
    { outcome with result := outcome.result.map sorted }

end Analysis
end TypeNameLint
