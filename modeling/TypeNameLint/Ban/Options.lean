import TypeNameLint.Ban.Table
import TypeNameLint.Data.Record

/-!
# Ban.Options — reading the options of the rule

The options are a record with the fields `types` and `extend_defaults`. A value below `types` is a
truth value, a message, or a record with a message and a replacement; whatever fits none of these
forms is refused with one and the same message. This file defines:

- `BanRecord.ofValue?`, `BanSetting.ofValue?`: the forms of a value;
- `BanOptions.ofValue`: the options that structured data spells;
- `BanOptions.ofConfigured`: the options in a configuration, where dates stand for their text.
-/

namespace TypeNameLint

/-! ## Settings -/

namespace BanRecord

def textOrNull? : Value → Option (Option String)
  | .null => some none
  | .text s => some (some s)
  | _ => none

def fixNames : List String := ["fixWith", "fix_with"]

/-- The values of the entries under some names, if the names occur at most once. -/
def single? (names : List String) (entries : List (String × Value)) : Option (Option String) :=
  match entries.filter fun entry => names.contains entry.1 with
  | [] => some none
  | [entry] => textOrNull? entry.2
  | _ => none

/-- The record that a table or a list of at most two texts spells. -/
def ofValue? : Value → Option BanRecord
  | .table entries =>
    if entries.all fun entry => ("message" :: fixNames).contains entry.1 then do
      let message ← single? ["message"] entries
      let fixWith ← single? fixNames entries
      return ⟨message, fixWith⟩
    else none
  | .list [] => some ⟨none, none⟩
  | .list [message] => (textOrNull? message).map fun message => ⟨message, none⟩
  | .list [message, fixWith] => do
    let message ← textOrNull? message
    let fixWith ← textOrNull? fixWith
    return ⟨message, fixWith⟩
  | _ => none

end BanRecord

namespace BanSetting

def ofValue? : Value → Option BanSetting
  | .boolean banned => some (.flag banned)
  | .text s => some (.message s)
  | value => (BanRecord.ofValue? value).map .record

def ofValue (value : Value) : Reading (Option BanSetting) :=
  match value with
  | .null => .ok none
  | value =>
    match ofValue? value with
    | some setting => .ok (some setting)
    | none => misread (.noVariant "BanSetting")

end BanSetting

/-! ## Options -/

/-- The settings of type names that the entries of a table spell. A repeated key keeps its place
and takes the later value. -/
def banSettingsOfEntries : BanSettings → List (String × Value) → Reading BanSettings
  | settings, [] => .ok settings
  | settings, (key, value) :: entries =>
    match BanSetting.ofValue value with
    | .error fault => .error (fault.below key)
    | .ok setting => banSettingsOfEntries (settings.insert key setting) entries

def readBanSettings : Value → Reading BanSettings
  | .table entries => banSettingsOfEntries .empty entries
  | value => misread (.wrongType value "a map")

namespace BanOptions

def shape : RecordShape where
  name := "struct BanTypesOptions"
  fields := [.of "types" .defaulted readBanSettings, .of "extend_defaults" .defaulted readBoolean]
  isClosed := true

def ofValue (value : Value) : Reading BanOptions := do
  let fields ← shape.read value
  return {
    types := ← fields.getD "types" readBanSettings .empty
    extendDefaults := ← fields.getD "extend_defaults" readBoolean true }

/-- The options in a configuration, where dates stand for their text. -/
def ofConfigured (options : List (String × Value)) : Reading BanOptions :=
  ofValue (Value.table options).withDatesAsText

end BanOptions
end TypeNameLint
