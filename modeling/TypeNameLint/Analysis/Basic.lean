import TypeNameLint.Config
import TypeNameLint.Exclude
import TypeNameLint.Ignore.Scope

/-!
# Analysis.Basic — what is analyzed, and the files that belong to it

- `Request`: what a run is asked for;
- `Analysis`, `Analysis.ofRequest`: a run with its root and its patterns settled;
- `AnalysisFault`: why a run stops;
- `Analysis.sources`: the source files of a run, in the order of their paths;
- `Analysis.base`: the directory that reported paths start from.
-/

namespace TypeNameLint

/-! ## Runs -/

/-- What a run is asked for. Without a root the configured one counts. -/
structure Request where
  root : Option Path
  rules : List Rule
  languages : List Language
  exclude : List String
  config : Config
  failsWithoutTree : Bool
  fixes : Bool

/-- A run: its absolute root, the rules, the languages, the patterns of excluded paths, whether a
file without a tree ends the run, and whether files are fixed. -/
structure Analysis where
  root : Path
  rules : List Rule
  languages : List Language
  exclude : List Exclude
  config : Config
  failsWithoutTree : Bool
  fixes : Bool

/-! ## Faults -/

/-- Why the files of a run cannot be listed: the root is not there, or ignore files above it have
lines that are no patterns. -/
inductive WalkFault where
  | root (path : Path) (fault : FileFault)
  | lines (dropped : List Ignore.Scope.DroppedLine)
  deriving Repr

namespace WalkFault

def message : WalkFault → String
  | root path fault => s!"{path.text}: IO error for operation on {path.text}: {fault.message}"
  | lines dropped => "\n".intercalate (dropped.map fun line => line.message)

end WalkFault

/-- Why a run stops. -/
inductive AnalysisFault where
  | file (fault : FileFault)
  | walk (fault : WalkFault)
  | noTree (path : Path) (language : String)
  | pattern (fault : GlobFault)
  deriving Repr

namespace AnalysisFault

def message : AnalysisFault → String
  | file fault => s!"IO error: {fault.message}"
  | walk fault => s!"Walk error: {fault.message}"
  | noTree path language => s!"Parse error in {path.text}: {language} parser produced no tree"
  | pattern fault => s!"Invalid glob pattern: {fault.message}"

end AnalysisFault

namespace Analysis

/-! ## Settling -/

/-- A run with its root made absolute and its patterns read, those of the request first. -/
def ofRequest (cwd : Path) (request : Request) : Except AnalysisFault Analysis := do
  let discovery := request.config.discovery
  let exclude ←
    ((request.exclude ++ discovery.exclude).mapM Exclude.parse).mapError AnalysisFault.pattern
  return {
    root := cwd.join (request.root.getD discovery.root)
    rules := request.rules
    languages := request.languages
    exclude
    config := request.config
    failsWithoutTree := request.failsWithoutTree
    fixes := request.fixes }

/-! ## Files -/

/-- The language of a path, the first one with its extension. -/
def languageFor? (analysis : Analysis) (path : Path) : Option Language := do
  let extension ← path.extension?
  analysis.languages.find? fun language => language.extensions.contains extension

def isExcluded (analysis : Analysis) (path : Path) : Bool :=
  analysis.exclude.any fun exclude => exclude.covers analysis.root path

/-- The paths that a walk from the root passes: all visible files below a directory, or the root
itself if that is a file. -/
def walk (analysis : Analysis) (store : FileStore) : Except WalkFault (List Path) :=
  match store.find [] analysis.root, store.resolve [] analysis.root with
  | .error fault, _ => .error (.root analysis.root fault)
  | _, .error fault => .error (.root analysis.root fault)
  | .ok (.file _), _ => .ok [analysis.root]
  | .ok .directory, .ok names =>
    let scope : Ignore.Scope :=
      ⟨store, names, analysis.config.discovery.respectsGitignore⟩
    match scope.droppedAbove with
    | [] => .ok (scope.visibleFiles.map fun below =>
        below.foldl (fun path name => path.join ⟨name⟩) analysis.root)
    | dropped => .error (.lines dropped)

/-- A source file: where it is and its language. -/
structure Source where
  path : Path
  language : Language

/-- The source file at a path, if it has a language and is not excluded. -/
def source? (analysis : Analysis) (path : Path) : Option Source :=
  match analysis.languageFor? path with
  | none => none
  | some language => if analysis.isExcluded path then none else some ⟨path, language⟩

/-- The source files of a run, in the order of their paths. -/
def sources (analysis : Analysis) (store : FileStore) : Except WalkFault (List Source) :=
  (analysis.walk store).map fun paths =>
    (paths.filterMap analysis.source?).mergeSort fun a b => (a.path.compare b.path).isLE

/-- The directory that reported paths start from: the root, or its parent if it is a file. -/
def base (analysis : Analysis) (store : FileStore) : Path :=
  if store.isFile [] analysis.root then analysis.root.parent?.getD analysis.root
  else analysis.root

end Analysis
end TypeNameLint
