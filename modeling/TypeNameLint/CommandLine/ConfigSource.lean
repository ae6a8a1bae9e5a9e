import TypeNameLint.Config
import TypeNameLint.FileStore

/-!
# CommandLine.ConfigSource — where the configuration comes from

The file named on the command line comes first, then the nearest one in the checked directory or
above it, then the one of the user. This file defines:

- `Environment`: what a command finds around it;
- `ConfigSource`: the places;
- `candidates`, `projectConfig?`, `globalConfig?`, `ConfigSource.resolve`: the choice of a place;
- `ConfigSource.load`: the configuration in a place.
-/

namespace TypeNameLint
namespace CommandLine

/-- What a command finds around it: the current directory, the directory named for the
configuration of the user, and the home directory. -/
structure Environment where
  cwd : Names
  configDirectory : Option Path
  home : Option Path
  deriving Repr

namespace Environment

def cwdPath (env : Environment) : Path :=
  ⟨"/" ++ "/".intercalate env.cwd⟩

end Environment

/-- Where a configuration comes from. -/
inductive ConfigSource where
  | explicit (path : Path)
  | project (path : Path)
  | global (path : Path)
  | builtin
  deriving DecidableEq, Repr

/-- The names of configuration files, in the order in which they count. -/
def configNames : List String := ["typeban.toml", ".typeban.toml"]

def candidates (directory : Path) : List Path :=
  configNames.map fun name => directory.join ⟨name⟩

/-- The directories that are searched for the configuration of a path: the path itself, or its
parent if it is a file, and all directories above. -/
def searched (store : FileStore) (env : Environment) (target : Path) : List Path :=
  let target := target.absolute env.cwdPath
  if store.isFile env.cwd target then (target.parent?.map Path.ancestors).getD []
  else target.ancestors

/-- The nearest configuration file for a path. -/
def projectConfig? (store : FileStore) (env : Environment) (target : Path) : Option Path :=
  (searched store env target).findSome? fun directory =>
    (candidates directory).find? fun path => store.isFile env.cwd path

def globalCandidate? (env : Environment) : Option Path :=
  match env.configDirectory with
  | some directory => some (directory.join ⟨"config.toml"⟩)
  | none => env.home.map fun home => (home.join ⟨".typeban"⟩).join ⟨"config.toml"⟩

def globalConfig? (store : FileStore) (env : Environment) : Option Path :=
  (globalCandidate? env).filter fun path => store.isFile env.cwd path

namespace ConfigSource

def resolve (store : FileStore) (env : Environment) (target : Path) (named : Option Path) :
    ConfigSource :=
  match named with
  | some path => explicit path
  | none =>
    match projectConfig? store env target with
    | some path => project path
    | none =>
      match globalConfig? store env with
      | some path => global path
      | none => builtin

def path? : ConfigSource → Option Path
  | explicit path => some path
  | project path => some path
  | global path => some path
  | builtin => none

/-- The configuration in a place, or the file that cannot be read as one. -/
def load (store : FileStore) (env : Environment) (source : ConfigSource) : Except Path Config :=
  match source.path? with
  | none => .ok .default
  | some path =>
    match store.read env.cwd path with
    | .error _ => .error path
    | .ok text => (Config.parse text).mapError fun _ => path

end ConfigSource
end CommandLine
end TypeNameLint
