import TypeNameLint.Path

/-!
# FileStore — a tree of files and directories

A store holds files under the names that lead to them from the root. A directory exists if it was
made or if something is below it. Paths are looked up from a current directory, step by step: every
step but the last has to lead to a directory. There are no links, neither symbolic nor hard ones, so
each file has one place and is changed under the names of that place alone. Names are texts; a name
whose bytes are no UTF-8 has the text that it is displayed as in its place. This file defines:

- `Content`: the bytes of a file, which are text or not;
- `FileFault`: why a look-up fails;
- `FileStore`, `FileStore.entry?`: what names lead to;
- `FileStore.resolve`, `FileStore.read`, `FileStore.write`: files by their paths;
- `FileStore.spells`: the paths that can be written as text;
- `FileStore.below`: everything under a directory.
-/

namespace TypeNameLint

/-! ## Content -/

/-- The bytes of a file: the encoding of a text, or something else. -/
inductive Content where
  | text (s : String)
  | bytes (data : List UInt8)
  deriving DecidableEq, Repr

namespace Content

def ofBytes (data : List UInt8) : Content :=
  match String.fromUTF8? ⟨data.toArray⟩ with
  | some s => text s
  | none => bytes data

end Content

/-- Why a path does not lead to the text of a file. -/
inductive FileFault where
  | notFound
  | notDirectory
  | isDirectory
  | notText
  deriving DecidableEq, Repr

namespace FileFault

def message : FileFault → String
  | notFound => "No such file or directory (os error 2)"
  | notDirectory => "Not a directory (os error 20)"
  | isDirectory => "Is a directory (os error 21)"
  | notText => "stream did not contain valid UTF-8"

end FileFault

/-! ## Stores -/

/-- The names that lead from the root to a file or directory. -/
abbrev Names := List String

/-- Files under their names, the directories that exist even when empty, and the names that are not
UTF-8, each by the text that it is displayed as. There are no symbolic or hard links. -/
structure FileStore where
  files : List (Names × Content)
  directories : List Names
  foreign : List String
  deriving DecidableEq, Repr

/-- What names lead to. -/
inductive FileEntry where
  | file (content : Content)
  | directory
  deriving DecidableEq, Repr

namespace FileStore

/-- The store with nothing but the root. -/
def empty : FileStore := ⟨[], [], []⟩

def file? (store : FileStore) (names : Names) : Option Content :=
  store.files.lookup names

def isDirectory (store : FileStore) (names : Names) : Bool :=
  names.isEmpty || (store.directories.any fun other => names.isPrefixOf other) ||
    store.files.any fun file => names.isPrefixOf file.1 && names ≠ file.1

def entry? (store : FileStore) (names : Names) : Option FileEntry :=
  match store.file? names with
  | some content => some (.file content)
  | none => if store.isDirectory names then some .directory else none

def put (store : FileStore) (names : Names) (content : Content) : FileStore :=
  if (store.file? names).isSome then
    -- The file keeps its place in the store.
    { store with
      files := store.files.map fun file => if file.1 = names then (names, content) else file }
  else { store with files := store.files ++ [(names, content)] }

def makeDirectory (store : FileStore) (names : Names) : FileStore :=
  { store with directories := store.directories ++ [names] }

/-! ## Paths -/

/-- One step of a look-up, from names that have to lead to a directory. -/
def step (store : FileStore) (names : Names) (piece : List Char) : Except FileFault Names :=
  match store.entry? names with
  | none => .error .notFound
  -- Even an empty piece, that is a trailing slash, needs a directory in front.
  | some (.file _) => .error .notDirectory
  | some .directory =>
    match piece with
    | [] => .ok names
    | ['.'] => .ok names
    | ['.', '.'] => .ok names.dropLast
    | piece => .ok (names ++ [String.ofList piece])

/-- The names that a path leads to from a current directory; the last of them may be new. -/
def resolve (store : FileStore) (cwd : Names) (path : Path) : Except FileFault Names :=
  if path.text.isEmpty then .error .notFound
  else path.pieces.foldlM store.step (if path.isAbsolute then [] else cwd)

def find (store : FileStore) (cwd : Names) (path : Path) : Except FileFault FileEntry :=
  match store.resolve cwd path with
  | .error fault => .error fault
  | .ok names =>
    match store.entry? names with
    | some entry => .ok entry
    | none => .error .notFound

def isFile (store : FileStore) (cwd : Names) (path : Path) : Bool :=
  match store.find cwd path with
  | .ok (.file _) => true
  | _ => false

def has (store : FileStore) (cwd : Names) (path : Path) : Bool :=
  (store.find cwd path).isOk

def read (store : FileStore) (cwd : Names) (path : Path) : Except FileFault String :=
  match store.find cwd path with
  | .error fault => .error fault
  | .ok .directory => .error .isDirectory
  | .ok (.file (.bytes _)) => .error .notText
  | .ok (.file (.text s)) => .ok s

/-- The store with a text written to a file, which may be new if its directory is there. -/
def write (store : FileStore) (cwd : Names) (path : Path) (text : String) :
    Except FileFault FileStore :=
  match store.resolve cwd path with
  | .error fault => .error fault
  | .ok names =>
    if store.isDirectory names then .error .isDirectory
    else .ok (store.put names (.text text))

/-- Whether a path can be written as text: no name in it is foreign. -/
def spells (store : FileStore) (path : Path) : Bool :=
  path.pieces.all fun piece => !store.foreign.contains (String.ofList piece)

/-! ## Directories -/

/-- The names that lead from a directory to each file below it, in the order of the store. -/
def below (store : FileStore) (directory : Names) : List Names :=
  store.files.filterMap fun file =>
    if directory.isPrefixOf file.1 then some (file.1.drop directory.length) else none

end FileStore
end TypeNameLint
