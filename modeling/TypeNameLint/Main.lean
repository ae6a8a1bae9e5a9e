import TypeNameLint.CommandLine.Catalogue

/-!
# Main — the program

The program copies the files that a command can look at into a store, runs the command on the store,
and writes back what the command has changed. The environment names the catalogue of trees in
`TYPEBAN_TREES`, and perhaps the directory of the user's configuration in `TYPEBAN_CONFIG_DIR`.
-/

namespace TypeNameLint
namespace Main

open CommandLine

/-! ## Names on the disk -/

def namesOf (path : String) : Names :=
  (path.splitOn "/").filter fun name => !name.isEmpty

def textOf (names : Names) : String :=
  "/" ++ "/".intercalate names

/-- The names of files that say something about their directory. -/
def sideNames : List String :=
  configNames ++ [".ignore", ".gitignore"]

/-- Whether a file matters below the path of a command: it is a source, or it says something about
its directory. -/
def matters (name : String) : Bool :=
  let languages := Parsers.languages ⟨fun _ => none, fun _ => none⟩
  sideNames.contains name ||
    (Path.extension? ⟨name⟩).any fun extension =>
      languages.any fun language => language.extensions.contains extension

/-! ## From the disk -/

/-- The store with a file of the disk, if it can be read. -/
def addFile (store : FileStore) (names : Names) : IO FileStore := do
  try
    let data ← IO.FS.readBinFile (textOf names)
    return store.put names (.ofBytes data.toList)
  catch _ => return store

/-- The store with what a directory says about everything below it. -/
def addSides (store : FileStore) (directory : Names) : IO FileStore := do
  let here ← IO.currentDir
  let isTop ← (here / textOf (directory ++ [".git"])).pathExists
  let store := if isTop then store.makeDirectory (directory ++ [".git"]) else store
  let sides := sideNames.map fun name => directory ++ [name]
  (sides ++ [Ignore.Scope.excludeFile directory]).foldlM addFile store

/-- The store with all that matters in a directory and below it. Links to directories are not
followed. -/
partial def addBelow (store : FileStore) (directory : Names) : IO FileStore := do
  let here ← IO.currentDir
  let entries ←
    try (here / textOf directory).readDir
    catch _ => pure #[]
  let add := fun (store : FileStore) (name : String) (path : Names) => do
    match (← (here / textOf path).symlinkMetadata).type with
    | .dir => addBelow store path
    | _ => if matters name then addFile store path else return store
  let store ← addSides (store.makeDirectory directory) directory
  entries.foldlM (fun store entry => add store entry.fileName (directory ++ [entry.fileName])) store

/-- The store with the directories and the file along a path, and with what the directories say. -/
def addAlong (store : FileStore) (names : Names) : List (List Char) → IO FileStore
  | [] => return store
  | piece :: pieces => do
    let here ← IO.currentDir
    let names :=
      match piece with
      | [] => names
      | ['.'] => names
      | ['.', '.'] => names.dropLast
      | piece => names ++ [String.ofList piece]
    if ← (here / textOf names).isDir then
      addAlong (← addSides (store.makeDirectory names) names) names pieces
    else addFile store names

/-- The store with a path as seen from the current directory. -/
def addPath (cwd : Names) (store : FileStore) (path : Path) : IO FileStore :=
  addAlong store (if path.isAbsolute then [] else cwd) path.pieces

/-- The store with the path of a command and all that matters below it. -/
def addTarget (cwd : Names) (store : FileStore) (path : Path) : IO FileStore := do
  let store ← addPath cwd store path
  match store.resolve cwd path with
  | .error _ => return store
  | .ok names => if store.isDirectory names then addBelow store names else return store

/-! ## The surroundings -/

def environment : IO Environment := do
  let directory ← IO.getEnv "TYPEBAN_CONFIG_DIR"
  let home ← IO.getEnv "HOME"
  return {
    cwd := namesOf (← IO.currentDir).toString
    configDirectory := directory.map Path.mk
    home := home.map Path.mk }

def catalogue : IO Catalogue := do
  match ← IO.getEnv "TYPEBAN_TREES" with
  | none => return []
  | some path =>
    try return (Catalogue.read? (← IO.FS.readFile path)).getD []
    catch _ => return []

def gather (env : Environment) (arguments : List String) : IO FileStore := do
  let invocation := Invocation.parse arguments
  let named := (invocation.bind Invocation.named?).toList
  let start ← addAlong .empty [] ("" :: env.cwd |>.map String.toList)
  let store ← (named ++ (globalCandidate? env).toList).foldlM (addPath env.cwd) start
  ((invocation.bind Invocation.target?).toList).foldlM (addTarget env.cwd) store

/-! ## To the disk -/

def writeChanges (before after : FileStore) : IO Unit :=
  for (names, content) in after.files do
    if before.file? names ≠ some content then
      match content with
      | .text s => IO.FS.writeFile (textOf names) s
      | .bytes data => IO.FS.writeBinFile (textOf names) ⟨data.toArray⟩

/-- Runs a command line, and returns its status. -/
def run (arguments : List String) : IO UInt32 := do
  let env ← environment
  let store ← gather env arguments
  let outcome := CommandLine.run (← catalogue).parsers env store arguments
  writeChanges store outcome.store
  IO.print outcome.output
  for line in outcome.errorLine.toList do
    IO.eprintln line
  return outcome.status.toUInt32

end Main
end TypeNameLint

/-- Checks sources for banned type names, lists these names, or writes a configuration file. -/
def main (arguments : List String) : IO UInt32 :=
  TypeNameLint.Main.run arguments
