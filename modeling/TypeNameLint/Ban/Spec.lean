/-!
# Ban.Spec — how a banned type name is reported

- `BanSpec`: a ban without a text of its own, with a message, or with a message and a fix;
- `BanSpec.messageSuffix`, `BanSpec.fixWith?`: what it adds to a report;
- `banMessage`: the message for a banned name.
-/

namespace TypeNameLint

/-- How a banned name is reported. -/
inductive BanSpec where
  | bare
  | message (text : String)
  | record (message : String) (fixWith : Option String)
  deriving DecidableEq, Repr

namespace BanSpec

/-- What follows the general part of the message, with a space in front. An empty message of a
record adds nothing. -/
def messageSuffix : BanSpec → String
  | bare => ""
  | message text => " " ++ text
  | record text _ => if text.isEmpty then "" else " " ++ text

/-- The replacement for a banned name. An empty one does not count. -/
def fixWith? : BanSpec → Option String
  | record _ (some fix) => if fix.isEmpty then none else some fix
  | _ => none

end BanSpec

def banMessage (name : String) (spec : BanSpec) : String :=
  s!"Don't use '{name}' as a type." ++ spec.messageSuffix

end TypeNameLint
