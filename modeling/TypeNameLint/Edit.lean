import TypeNameLint.Report.Basic
import TypeNameLint.Text.Bytes

/-!
# Edit — applying replacements to a source text

Replacements are taken from the earliest span on. One that starts at or before the end of the last
span taken is left out, and so is one whose span does not fit the source; a later round can retry
it. This file defines:

- `inOrder`: the replacements by offset and end;
- `select`: the replacements that are applied;
- `assemble`: the source with the selected spans overwritten;
- `apply`: the outcome, with counts.
-/

namespace TypeNameLint
namespace Edit

/-- What came of a batch of replacements. -/
structure Outcome where
  output : String
  applied : Nat
  skipped : Nat
  deriving DecidableEq, Repr

/-! ## Order and selection -/

/-- Replacements are ordered by the start of their spans, then by the end. -/
def precedes (r s : Replacement) : Bool :=
  r.location.offset < s.location.offset ||
    (r.location.offset = s.location.offset && r.location.stop ≤ s.location.stop)

/-- The replacements in order; those of one span keep theirs. -/
def inOrder (replacements : List Replacement) : List Replacement :=
  replacements.mergeSort precedes

/-- Whether a span lies inside the source with both ends between characters. -/
def fits (source : List Char) (r : Replacement) : Bool :=
  (Text.slice? source r.location.offset r.location.stop).isSome

/-- Whether a span starts at or before the end of the last one taken. -/
def overlaps (lastEnd : Option Nat) (r : Replacement) : Bool :=
  lastEnd.any fun stop => r.location.offset ≤ stop

/-- The replacements that are applied, of a list in order. -/
def select (source : List Char) : Option Nat → List Replacement → List Replacement
  | _, [] => []
  | lastEnd, r :: rest =>
    if overlaps lastEnd r || !fits source r then select source lastEnd rest
    else r :: select source (some r.location.stop) rest

/-! ## The new text -/

/-- The source from byte `cursor` on, with the spans of the selected replacements overwritten. -/
def assemble (source : List Char) : Nat → List Replacement → List Char
  | cursor, [] => (Text.slice? source cursor (Text.byteLength source)).getD []
  | cursor, r :: rest =>
    (Text.slice? source cursor r.location.offset).getD [] ++ r.newText.toList ++
      assemble source r.location.stop rest

/-- The source after the replacements, with the number of those applied and left out. -/
def apply (source : String) (replacements : List Replacement) : Outcome :=
  let chars := source.toList
  let selected := select chars none (inOrder replacements)
  { output := String.ofList (assemble chars 0 selected)
    applied := selected.length
    skipped := replacements.length - selected.length }

end Edit
end TypeNameLint
