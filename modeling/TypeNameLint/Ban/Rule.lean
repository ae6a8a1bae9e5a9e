import TypeNameLint.Ban.Table
import TypeNameLint.Directive
import TypeNameLint.Rule
import TypeNameLint.Tree.TypeUse

/-!
# Ban.Rule — the rule that bans type names

Every use of a type is looked up by its text without blanks. A banned use is reported unless its
line is exempt; where reasons are required, an exemption without one is reported instead. This file
defines:

- `BanRule`: the table and the severity;
- `BanRule.checkUse`, `BanRule.check`: the violations at one use and in a file;
- `BanRule.toRule`: the rule as the analyzer takes it.
-/

namespace TypeNameLint

/-- The rule that bans the names of a table. -/
structure BanRule where
  table : BanTable
  severity : Severity
  deriving Repr

namespace BanRule

def code : String := "TB001"

def name : String := "ban-types"

def ofOptions (options : BanOptions) : BanRule :=
  ⟨.ofOptions options, .error⟩

def default : BanRule := ofOptions .default

/-- Directives have to give a reason where violations are errors. -/
def needsReason (rule : BanRule) : Bool :=
  rule.severity = .error

/-! ## Violations -/

/-- The report of a banned name, with a replacement over its span if the ban gives one. -/
def ban (rule : BanRule) (key : String) (spec : BanSpec) (location : Location) : Violation where
  code := code
  rule := name
  severity := rule.severity
  location := location
  message := banMessage key spec
  suggestion := spec.fixWith?.map fun fix =>
    ⟨s!"Replace `{key}` with `{fix}`", some ⟨location, fix⟩⟩
  fixedSeverity := false

/-- The report of an exemption that gives no reason. Its severity does not depend on the rule. -/
def missingReason (location : Location) : Violation where
  code := code
  rule := name
  severity := .warning
  location := location
  message := s!"Allow directive for '{name}' is missing required reason"
  suggestion := some ⟨"Add reason=\"...\" to explain why this exception is necessary", none⟩
  fixedSeverity := true

/-- The report of a banned name on a line of the given exemption. -/
def verdict (rule : BanRule) (key : String) (spec : BanSpec) (location : Location) :
    Exemption → Option Violation
  | .denied => some (rule.ban key spec location)
  | .allowed none => if rule.needsReason then some (missingReason location) else none
  | .allowed (some _) => none

/-- The violation at a use of a type. Literals with members are never banned. -/
def checkUse (rule : BanRule) (file : SourceFile) (use : TypeUse) : Option Violation :=
  if use.memberCount > 0 then none
  else
    let source := file.content.toList
    let key := Text.squeeze (nodeText source use.node.label)
    match rule.table.get? key with
    | none => none
    | some spec =>
      let location := locationOf file.path source use.node.label
      rule.verdict key spec location (exemption file.content location.line name)

/-- The violations in a file, in document order. -/
def check (rule : BanRule) (file : SourceFile) (tree : Tree) : List Violation :=
  if rule.table.isEmpty then [] else (typeUses tree).filterMap (rule.checkUse file)

/-- The rule as the analyzer takes it. -/
def toRule (rule : BanRule) : Rule where
  name := name
  code := code
  description := "Bans specific types from being used"
  severity := rule.severity
  fixable := true
  needsReason := rule.needsReason
  check := rule.check

end BanRule
end TypeNameLint
