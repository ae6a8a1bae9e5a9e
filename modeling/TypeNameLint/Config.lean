import TypeNameLint.Ban.Options
import TypeNameLint.Ban.Rule
import TypeNameLint.Report.Json
import TypeNameLint.Toml.Document

/-!
# Config — the configuration file

A configuration says where sources are and which of them are left out, and for every rule whether
it is on, at which severity, and with which options. This file defines:

- `Discovery`, `RuleSettings`, `Config`: the sections;
- `Config.parse`: the configuration that a text spells;
- `Config.isEnabled`, `Config.severity?`: what it says about a rule;
- `Config.banRule`: the rule with its options and severity.
-/

namespace TypeNameLint

/-! ## Sections -/

/-- Where sources are looked for: the root, the patterns of paths that are left out, and whether
`.gitignore` files count. -/
structure Discovery where
  root : Path
  exclude : List String
  respectsGitignore : Bool
  deriving DecidableEq, Repr

namespace Discovery

/-- The patterns of paths that are left out when nothing is configured. -/
def defaultExclude : List String := ["**/node_modules/**", "**/dist/**"]

def default : Discovery := ⟨⟨"."⟩, defaultExclude, true⟩

end Discovery

/-- What is configured for a rule: whether it is on, its severity, and all else in order. -/
structure RuleSettings where
  enabled : Option Bool
  severity : Option Severity
  options : List (String × Value)
  deriving DecidableEq, Repr

/-- A configuration, with the settings of rules by their names. -/
structure Config where
  discovery : Discovery
  rules : List (String × RuleSettings)
  deriving DecidableEq, Repr

/-! ## Reading -/

namespace Severity

def typeName : Value → String
  | .null => "null"
  | .boolean _ => "boolean"
  | .integer _ => "integer"
  | .float _ => "float"
  | .text _ => "string"
  | .date _ => "datetime"
  | .list _ => "array"
  | .table _ => "table"

/-- A configured severity is its name, or a table with the name as the only key and an empty table
below it. -/
def ofConfigured : Value → Reading Severity
  | .text s => ofText s
  | .table [] => misread .noEntry
  | .table [(key, value)] =>
    match ofText key, value with
    | .error fault, _ => .error fault
    | .ok severity, .table [] => .ok severity
    | .ok _, .table _ => misread .nonemptyTable
    | .ok _, value => misread (.noTable (typeName value))
  | .table _ => misread .manyEntries
  | _ => misread .noTextOrTable

end Severity

namespace Discovery

def shape : RecordShape where
  name := "struct AnalyzerConfig"
  fields :=
    [.of "root" .defaulted (readText "path string"),
     .of "exclude" .defaulted (readList (readText "a string")),
     .of "respect_gitignore" .defaulted readBoolean]
  isClosed := false

def fieldsOf (value : Value) : Reading FieldValues :=
  match value.withDateAsTable with
  -- Items behind the last field are dropped here without a fault.
  | .list items => (shape.ofItems 0 shape.fields items).map Prod.fst
  | value => shape.read value

def ofValue (value : Value) : Reading Discovery := do
  let fields ← fieldsOf value
  return {
    root := ⟨← fields.getD "root" (readText "path string") default.root.text⟩
    exclude := ← fields.getD "exclude" (readList (readText "a string")) default.exclude
    respectsGitignore :=
      ← fields.getD "respect_gitignore" readBoolean default.respectsGitignore }

end Discovery

namespace RuleSettings

def default : RuleSettings := ⟨none, none, []⟩

/-- The settings after one more entry of the section. -/
def addEntry (settings : RuleSettings) (entry : String × Value) : Reading RuleSettings :=
  if entry.1 = "enabled" then
    (readBoolean entry.2).map fun enabled => { settings with enabled := some enabled }
  else if entry.1 = "severity" then
    (Severity.ofConfigured entry.2).map fun severity => { settings with severity := some severity }
  else .ok { settings with options := settings.options ++ [entry] }

def ofValue (value : Value) : Reading RuleSettings :=
  match value.withDateAsTable with
  | .table entries => entries.foldlM addEntry default
  | value => misread (.wrongType value "struct RuleConfig")

end RuleSettings

namespace Config

def readRules (value : Value) : Reading (List (String × RuleSettings)) :=
  match value.withDateAsTable with
  | .table entries =>
    entries.mapM fun (name, value) => (RuleSettings.ofValue value).map fun settings =>
      (name, settings)
  | value => misread (.wrongType value "a map")

def shape : RecordShape where
  name := "struct Config"
  fields := [.of "analyzer" .defaulted Discovery.ofValue, .of "rules" .defaulted readRules]
  isClosed := false

def ofEntries (entries : List (String × Value)) : Reading Config := do
  let fields ← shape.ofTable entries
  return {
    discovery := ← fields.getD "analyzer" Discovery.ofValue .default
    rules := ← fields.getD "rules" readRules [] }

def default : Config := ⟨.default, []⟩

end Config

/-- Why a configuration could not be read: its text is no document, or the document has another
shape. -/
inductive ConfigFault where
  | malformed
  | misshapen (fault : Fault)
  deriving DecidableEq, Repr

namespace Config

def parse (text : String) : Except ConfigFault Config :=
  match Toml.read? text with
  | none => .error .malformed
  | some entries => (ofEntries entries).mapError .misshapen

/-! ## Rules -/

/-- The settings of a rule, if it has a section. -/
def rule? (config : Config) (name : String) : Option RuleSettings :=
  config.rules.lookup name

/-- Whether a rule is on, as it is unless its section says otherwise. -/
def isEnabled (config : Config) (name : String) : Bool :=
  ((config.rule? name).bind RuleSettings.enabled).getD true

def severity? (config : Config) (name : String) : Option Severity :=
  (config.rule? name).bind RuleSettings.severity

def banOptions (config : Config) : Reading BanOptions :=
  match config.rule? BanRule.name with
  | some settings => BanOptions.ofConfigured settings.options
  | none => .ok .default

/-- The rule that bans type names, with its configured options and severity. -/
def banRule (config : Config) : Reading BanRule :=
  config.banOptions.map fun options =>
    let rule := BanRule.ofOptions options
    { rule with severity := (config.severity? BanRule.name).getD rule.severity }

def optionsMessage (fault : Fault) : String :=
  "invalid [rules.ban-types] options: " ++ fault.messageWithKeys configNumbers

end Config
end TypeNameLint
