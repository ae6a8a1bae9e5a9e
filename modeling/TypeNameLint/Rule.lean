import TypeNameLint.Report.Basic
import TypeNameLint.Tree.Basic

/-!
# Rule — what a rule and a language are

- `SourceFile`: the file a rule looks at, under the path that reports show;
- `Rule`: a check of one parsed file, with the data that listings show;
- `Language`: a parser and the file extensions it is for.
-/

namespace TypeNameLint

/-- A file as a rule sees it: the path relative to the project, and the text that was parsed. -/
structure SourceFile where
  path : Path
  content : String
  deriving Repr

/-- A check that is run once for every parsed file. -/
structure Rule where
  /-- The name in configuration and directives. -/
  name : String
  /-- The short code in reports. -/
  code : String
  /-- The summary in listings. -/
  description : String
  /-- The severity of violations before configuration has its say. -/
  severity : Severity
  /-- Whether some violations carry a replacement. -/
  fixable : Bool
  /-- Whether directives have to give a reason. -/
  needsReason : Bool
  /-- The violations in a file. -/
  check : SourceFile → Tree → List Violation

/-- A language: an identifier, file extensions without their dots, and a parser, which can fail to
produce a tree. -/
structure Language where
  id : String
  extensions : List String
  parse : String → Option Tree

namespace Language

/-- TypeScript without JSX, with a parser for it. -/
def typeScript (parse : String → Option Tree) : Language :=
  ⟨"typescript", ["ts", "mts", "cts"], parse⟩

def typeScriptJsx (parse : String → Option Tree) : Language :=
  ⟨"tsx", ["tsx"], parse⟩

end Language

/-- The path of a file relative to a base directory, or the path itself if it is elsewhere. -/
def Path.reportedFrom (base path : Path) : Path :=
  (path.relativeTo? base).getD path

end TypeNameLint
