import TypeNameLint.Analysis.Basic
import TypeNameLint.Edit

/-!
# Analysis.File — linting and fixing one text

- `Analysis.lint`: the violations in a text, at the severities that the configuration sets;
- `Analysis.repair`: the text after rounds of fixes, until a round finds nothing to apply;
- `Analysis.examine`: what a run reports of a text, and the text it leaves.
-/

namespace TypeNameLint
namespace Analysis

/-! ## Linting -/

/-- The violation at the severity that is configured for its rule, unless its severity is fixed. -/
def withConfigured (severity : Option Severity) (v : Violation) : Violation :=
  match severity with
  | some severity => if v.fixedSeverity then v else { v with severity }
  | none => v

def applyRule (analysis : Analysis) (file : SourceFile) (tree : Tree) (rule : Rule) :
    List Violation :=
  if analysis.config.isEnabled rule.name then
    (rule.check file tree).map (withConfigured (analysis.config.severity? rule.name))
  else []

/-- The violations that all rules find in a parsed file, rule by rule. -/
def applyRules (analysis : Analysis) (file : SourceFile) (tree : Tree) : List Violation :=
  analysis.rules.flatMap (analysis.applyRule file tree)

/-- The violations in a text, unless its language has no tree for it. -/
def lint (analysis : Analysis) (shown : Path) (language : Language) (text : String) :
    Option (List Violation) :=
  (language.parse text).map fun tree => analysis.applyRules ⟨shown, text⟩ tree

/-! ## Fixing -/

/-- A text between two rounds: its violations, and the number of fixes that led to it. -/
structure Draft where
  text : String
  violations : List Violation
  fixes : Nat
  deriving Repr

def maxRounds : Nat := 10

/-- The outcome of applying all fixes of a draft. -/
def Draft.outcome (draft : Draft) : Edit.Outcome :=
  Edit.apply draft.text (draft.violations.filterMap Violation.fix?)

/-- The draft after at most `rounds` rounds, unless a text on the way has no tree. A round without
fixes, or with none that fits, ends them. -/
def repair (lint : String → Option (List Violation)) : Nat → Draft → Option Draft
  | 0, draft => some draft
  | rounds + 1, draft =>
    if draft.outcome.applied = 0 then some draft
    else
      match lint draft.outcome.output with
      | none => none
      | some violations =>
        repair lint rounds ⟨draft.outcome.output, violations, draft.fixes + draft.outcome.applied⟩

/-- What is left of a text and found in it. -/
def examine (fixes : Bool) (lint : String → Option (List Violation)) (text : String) :
    Option Draft :=
  match lint text with
  | none => none
  | some violations =>
    let draft : Draft := ⟨text, violations, 0⟩
    if fixes then repair lint maxRounds draft else some draft

end Analysis
end TypeNameLint
