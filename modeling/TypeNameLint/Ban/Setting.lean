import TypeNameLint.Ban.Spec
import TypeNameLint.Data.OrderedMap

/-!
# Ban.Setting — what a configuration says about a type name

- `BanRecord`, `BanSetting`: the forms a value can take;
- `BanRecord.merge`: a record laid over another one;
- `specOf?`: the ban that a setting means, if it means one.
-/

namespace TypeNameLint

/-- A message and a replacement, each of which can be left open. -/
structure BanRecord where
  message : Option String
  fixWith : Option String
  deriving DecidableEq, Repr

/-- A configured value: banned or not, a message, or a record. -/
inductive BanSetting where
  | flag (banned : Bool)
  | message (text : String)
  | record (fields : BanRecord)
  deriving DecidableEq, Repr

/-- The settings of type names in order. A name without a value is banned without a message. -/
abbrev BanSettings := OrderedMap (Option BanSetting)

/-- The record with the fields that `upper` sets taken from `upper`. -/
def BanRecord.merge (base upper : BanRecord) : BanRecord where
  message := upper.message <|> base.message
  fixWith := upper.fixWith <|> base.fixWith

/-- The ban that a setting means; `none` is for a name that is not banned. -/
def specOf? : Option BanSetting → Option BanSpec
  | none => some .bare
  | some (.flag true) => some .bare
  | some (.flag false) => none
  | some (.message text) => some (.message text)
  | some (.record fields) => some (.record (fields.message.getD "") fields.fixWith)

end TypeNameLint
