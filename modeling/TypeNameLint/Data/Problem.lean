import TypeNameLint.Data.Value
import TypeNameLint.Decimal.Layout
import TypeNameLint.Text.Quoted

/-!
# Data.Problem — why a value does not have the expected shape

- `Problem`: the causes;
- `Problem.message`: the text of a cause, in the number style of the format;
- `Fault`: a cause together with the keys that lead to it.
-/

namespace TypeNameLint

/-- Why a value does not have the expected shape. -/
inductive Problem where
  | wrongType (found : Value) (expected : String)
  | wrongValue (found : Value) (expected : String)
  | wrongLength (found : Nat) (expected : String)
  | unknownField (name : String) (known : List String)
  | unknownVariant (name : String) (known : List String)
  | missingField (name : String)
  | repeatedField (name : String)
  | noVariant (type : String)
  | surplusItems
  | noChoice
  | noTextOrTable
  | noEntry
  | manyEntries
  | nonemptyTable
  | noTable (found : String)
  deriving DecidableEq, Repr

namespace Problem

def describe (numbers : NumberStyle) : Value → String
  | .null => "null"
  | .boolean value => s!"boolean `{value}`"
  | .integer value => s!"integer `{value}`"
  | .float value => s!"floating point `{numbers.render value}`"
  | .text value => s!"string {Text.quoted value}"
  | .date _ => "map"
  | .list _ => "sequence"
  | .table _ => "map"

/-- What a message says about the names that would have been right. -/
def oneOf : List String → String
  | [] => "there are no fields"
  | [name] => s!"expected `{name}`"
  | [first, second] => s!"expected `{first}` or `{second}`"
  | names => "expected one of " ++ ", ".intercalate (names.map fun name => s!"`{name}`")

def message (numbers : NumberStyle) : Problem → String
  | wrongType found expected => s!"invalid type: {describe numbers found}, expected {expected}"
  | wrongValue found expected => s!"invalid value: {describe numbers found}, expected {expected}"
  | wrongLength found expected => s!"invalid length {found}, expected {expected}"
  | unknownField name known => s!"unknown field `{name}`, {oneOf known}"
  | unknownVariant name known => s!"unknown variant `{name}`, {oneOf known}"
  | missingField name => s!"missing field `{name}`"
  | repeatedField name => s!"duplicate field `{name}`"
  | noVariant type => s!"data did not match any variant of untagged enum {type}"
  | surplusItems => "trailing characters"
  | noChoice => "expected value"
  | noTextOrTable => "wanted string or table"
  | noEntry => "wanted exactly 1 element, found 0 elements"
  | manyEntries => "wanted exactly 1 element, more than 1 element"
  | nonemptyTable => "expected empty table"
  | noTable found => s!"expected table, found {found}"

end Problem

/-- A cause, and the keys that lead to the value at fault, from the outermost. -/
structure Fault where
  keys : List String
  problem : Problem
  deriving DecidableEq, Repr

namespace Fault

def ofProblem (problem : Problem) : Fault := ⟨[], problem⟩

def below (key : String) (fault : Fault) : Fault := ⟨key :: fault.keys, fault.problem⟩

def message (numbers : NumberStyle) (fault : Fault) : String :=
  fault.problem.message numbers

/-- The text of the cause, and the way to the value at fault on a line of its own. -/
def messageWithKeys (numbers : NumberStyle) (fault : Fault) : String :=
  if fault.keys.isEmpty then fault.message numbers
  else
    let place := ".".intercalate fault.keys
    s!"{fault.message numbers}\nin `{place}`"

end Fault
end TypeNameLint
