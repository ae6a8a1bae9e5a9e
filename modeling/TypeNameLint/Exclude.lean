import TypeNameLint.Glob
import TypeNameLint.Path
import TypeNameLint.Text.Bytes
import TypeNameLint.Text.Search

/-!
# Exclude — patterns of paths that are left out

A pattern excludes the paths that it matches, absolute or relative to the root. If nothing but `**`
makes it a pattern, it also excludes every absolute path that contains what is left without `**`, so
`**/dist/**` leaves out all directories of that name, above the root too. This file defines:

- `Exclude`, `Exclude.parse`: a pattern and the fragment left of it;
- `Exclude.covers`: the test of a path.
-/

namespace TypeNameLint

/-- A pattern of excluded paths, and the text that excludes the paths it occurs in. -/
structure Exclude where
  glob : Glob
  fragment : Option (List Char)
  deriving Repr

namespace Exclude

/-- Whether a text has no special characters and is longer than one byte. -/
def isFragment (cs : List Char) : Bool :=
  1 < Text.byteLength cs && !cs.any fun c => ['*', '?', '['].contains c

/-- The fragment of a pattern. -/
def fragment? (pattern : String) : Option (List Char) :=
  let rest := Text.removePairs '*' '*' pattern.toList
  if isFragment rest then some rest else none

def parse (pattern : String) : Except GlobFault Exclude :=
  (Glob.parse pattern).map fun glob => ⟨glob, fragment? pattern⟩

/-- Whether a path is excluded, given as an absolute one and as one relative to the root. -/
def coversTexts (exclude : Exclude) (absolute relative : String) : Bool :=
  exclude.glob.isMatch absolute || exclude.glob.isMatch relative ||
    exclude.fragment.any fun fragment => Text.contains fragment absolute.toList

def covers (exclude : Exclude) (root path : Path) : Bool :=
  exclude.coversTexts path.text (Path.text ((path.relativeTo? root).getD path))

end Exclude
end TypeNameLint
