import TypeNameLint.Ban.Builtin
import TypeNameLint.Text.Blank

/-!
# Ban.Table — the table of banned names

Names are looked up without blanks, so the table holds squeezed keys. This file defines:

- `BanOptions`, `BanOptions.merged`: configured settings laid over the built-in ones;
- `BanTable`, `BanTable.build`, `BanTable.ofSettings`: the table of a list of bans or settings;
- `BanTable.get?`: the ban of a squeezed name.
-/

namespace TypeNameLint

/-! ## Settings in effect -/

/-- The options of the rule: the configured names, and whether the built-in ones count too. -/
structure BanOptions where
  types : BanSettings
  extendDefaults : Bool
  deriving Repr

namespace BanOptions

def default : BanOptions := ⟨.empty, true⟩

/-- A setting laid over what is set for the name already: a record over a record leaves open fields
as they are, anything else replaces. -/
def layOver (base : Option (Option BanSetting)) (upper : Option BanSetting) : Option BanSetting :=
  match base, upper with
  | some (some (.record old)), some (.record new) => some (.record (old.merge new))
  | _, upper => upper

/-- One configured setting laid over the settings so far. Of several configured keys with the same
squeezed form the later one replaces the earlier ones outright. -/
def addSetting (state : List String × BanSettings) (entry : String × Option BanSetting) :
    List String × BanSettings :=
  let key := Text.squeeze entry.1
  let (seen, merged) := state
  if seen.contains key then (seen, merged.insert key entry.2)
  else (key :: seen, merged.insert key (layOver (merged.get? key) entry.2))

def base (options : BanOptions) : BanSettings :=
  if options.extendDefaults then
    .ofList (builtinSettings.toList.map fun entry => (Text.squeeze entry.1, entry.2))
  else .empty

def merged (options : BanOptions) : BanSettings :=
  (options.types.toList.foldl addSetting ([], options.base)).2

end BanOptions

/-! ## The table -/

/-- The banned names with their bans, under squeezed keys. -/
structure BanTable where
  entries : OrderedMap BanSpec
  deriving DecidableEq, Repr

namespace BanTable

/-- The table of a list of bans. A later ban of the same squeezed name takes the place of an
earlier one. -/
def build (bans : List (String × BanSpec)) : BanTable :=
  ⟨.ofList (bans.map fun ban => (Text.squeeze ban.1, ban.2))⟩

/-- The table of settings, without the names that are not banned. -/
def ofSettings (settings : BanSettings) : BanTable :=
  build (settings.toList.filterMap fun entry => (specOf? entry.2).map fun spec => (entry.1, spec))

def ofOptions (options : BanOptions) : BanTable :=
  ofSettings options.merged

def get? (table : BanTable) (key : String) : Option BanSpec :=
  table.entries.get? key

/-- The bans in order. -/
def toList (table : BanTable) : List (String × BanSpec) :=
  table.entries.toList

def size (table : BanTable) : Nat :=
  table.entries.size

def isEmpty (table : BanTable) : Bool :=
  table.entries.isEmpty

end BanTable
end TypeNameLint
