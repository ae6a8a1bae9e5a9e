import TypeNameLint.Ignore.Rules

/-!
# Ignore.Scope — which files are visible from a root

The ignore files of a directory count for everything below it, so those of the directories above a
root count too. Files named `.ignore` come first, the nearest of them before the others; then files
named `.gitignore`, and last the exclude files of repositories. The latter two count only inside a
repository, and not beyond its top. A path that no rule is about is visible unless its name starts
with a dot, and nothing below an invisible directory is visible.

Two sources of rules are left out: the ignore file that a user has for all repositories, which would
come after the exclude files, and the exclude file behind a `.git` that is a file, as a worktree has
one. Such a `.git` marks the top of a repository without exclude rules. This file defines:

- `Scope`: a store, a root in it, and whether `.gitignore` files count;
- `Layer`, `Scope.layers`: the ignore files that count for a path, from the nearest;
- `Scope.verdict`, `Scope.isVisible`: the test of one path;
- `Scope.visibleFiles`: the files below the root;
- `Scope.droppedAbove`: the lines dropped from ignore files above the root.
-/

namespace TypeNameLint
namespace Ignore

/-- A store, the directory that is walked, and whether `.gitignore` files count. -/
structure Scope where
  store : FileStore
  root : Names
  respectsGitignore : Bool
  deriving Repr

/-- The ignore files of a directory, and whether it is the top of a repository. -/
structure Layer where
  directory : Names
  ownRules : Rules
  gitRules : Rules
  excludeRules : Rules
  isTop : Bool
  deriving Repr

namespace Scope

/-! ## Ignore files -/

/-- The rules of a file, none if there is no such file. -/
def rulesOf (scope : Scope) (names : Names) : Rules :=
  match scope.store.file? names with
  | some content => .ofContent content
  | none => .none

def repository (directory : Names) : Names := directory ++ [".git"]

def excludeFile (directory : Names) : Names := repository directory ++ ["info", "exclude"]

/-- Whether a directory is the top of a repository. Above the root that matters only if
`.gitignore` files count. -/
def isTop (scope : Scope) (directory : Names) : Bool :=
  (scope.respectsGitignore || scope.root.isPrefixOf directory) &&
    (scope.store.entry? (repository directory)).isSome

def layer (scope : Scope) (directory : Names) : Layer where
  directory := directory
  ownRules := scope.rulesOf (directory ++ [".ignore"])
  gitRules := if scope.respectsGitignore then scope.rulesOf (directory ++ [".gitignore"]) else .none
  excludeRules := scope.rulesOf (excludeFile directory)
  isTop := scope.isTop directory

/-- The beginnings of a list, from the empty one to the one that lacks the last element. -/
def properPrefixes (names : Names) : List Names :=
  (List.range names.length).map names.take

/-- The layers that count for a path, from the nearest. -/
def layers (scope : Scope) (names : Names) : List Layer :=
  (properPrefixes names).reverse.map scope.layer

/-! ## One path -/

/-- The layers up to the first top of a repository, if there is one. -/
def inRepository (layers : List Layer) : List Layer :=
  let before := layers.takeWhile fun layer => !layer.isTop
  -- Without a top there is no repository, and the layer of the top still belongs to one.
  if before.length < layers.length then layers.take (before.length + 1) else []

/-- The first verdict that is not silent. -/
def firstVerdict (layers : List Layer) (rules : Layer → Rules) (isDirectory : Bool)
    (names : Names) : Verdict :=
  (layers.map fun layer =>
    (rules layer).verdict isDirectory (names.drop layer.directory.length)).foldr Verdict.orElse
      .silent

/-- What the ignore files say about a path. -/
def verdict (scope : Scope) (isDirectory : Bool) (names : Names) : Verdict :=
  let layers := scope.layers names
  let inside := inRepository layers
  ((firstVerdict layers Layer.ownRules isDirectory names).orElse
    (firstVerdict inside Layer.gitRules isDirectory names)).orElse
      (firstVerdict inside Layer.excludeRules isDirectory names)

/-- Whether the last name starts with a dot. -/
def isHidden (names : Names) : Bool :=
  (names.getLast?.bind fun name => name.toList.head?) = some '.'

/-- Whether a path is visible, apart from what is said about the directories above it. -/
def isVisible (scope : Scope) (isDirectory : Bool) (names : Names) : Bool :=
  match scope.verdict isDirectory names with
  | .ignored => false
  | .seen => true
  | .silent => !isHidden names

/-! ## Files -/

/-- Whether a file is visible from the root, given by the names that lead to it from there. -/
def isReached (scope : Scope) (below : Names) : Bool :=
  -- The root itself is walked whatever the rules say of it.
  ((properPrefixes below).drop 1).all
      (fun directory => scope.isVisible true (scope.root ++ directory))
    && scope.isVisible false (scope.root ++ below)

/-- The files that are visible from the root, each by the names that lead to it from there. -/
def visibleFiles (scope : Scope) : List Names :=
  (scope.store.below scope.root).filter scope.isReached

/-! ## Dropped lines -/

/-- A dropped line, and the file it is in. -/
structure DroppedLine where
  file : Names
  fault : LineFault
  deriving Repr

/-- The dropped lines of a file, none if its only fault is a line that is no text. -/
def droppedOf (scope : Scope) (file : Names) : List DroppedLine :=
  match (scope.rulesOf file).faults with
  | [⟨_, none⟩] => []
  | faults => faults.map fun fault => ⟨file, fault⟩

def droppedIn (scope : Scope) (directory : Names) : List DroppedLine :=
  scope.droppedOf (directory ++ [".ignore"]) ++
    (if scope.respectsGitignore then scope.droppedOf (directory ++ [".gitignore"]) else []) ++
    scope.droppedOf (excludeFile directory)

/-- The dropped lines of the ignore files above the root, from the uppermost directory. -/
def droppedAbove (scope : Scope) : List DroppedLine :=
  (properPrefixes scope.root).flatMap scope.droppedIn

def DroppedLine.message (dropped : DroppedLine) : String :=
  let path := "/" ++ "/".intercalate dropped.file
  let reason :=
    match dropped.fault.pattern with
    | some (text, fault) => s!"error parsing glob '{text}': {fault.message}"
    | none => FileFault.notText.message
  s!"{path}: line {dropped.fault.number}: {reason}"

end Scope
end Ignore
end TypeNameLint
