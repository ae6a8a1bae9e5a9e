import TypeNameLint.Proofs.CommandLine.Nearest

/-!
# Precedence — which of several configurations is chosen

A path on the command line is taken as it is. Without one the directories of the checked path come
next, from the nearest, then the configuration of the user, and the built-in one is left. The order
is stated for every store and every environment, for places without a file and for directories with
the name of a file too. This file defines:

* `IsFileAt`, `StartsAt`: where files are, and where the search starts;
* `ConfigAt`, `NearestAt`: the configuration file of a directory, and the nearest one;
* `UserConfigAt`: the configuration file of the user;
* `Chosen`: the source that comes first.

The main result is `resolve_eq_iff_chosen`.
-/

namespace TypeNameLint
namespace CommandLine

variable {store : FileStore} {env : Environment} {target directory path : Path}
variable {directories : List Path} {named : Option Path} {source : ConfigSource}

/-! ## Files -/

/-- A path that leads to a file, which is no directory. -/
def IsFileAt (store : FileStore) (env : Environment) (path : Path) : Prop :=
  ∃ names, store.LeadsToFile env.cwd path names

theorem isFile_eq_true_iff_isFileAt : store.isFile env.cwd path = true ↔ IsFileAt store env path :=
  FileStore.isFile_eq_true_iff

theorem isFile_eq_false_iff : store.isFile env.cwd path = false ↔ ¬ IsFileAt store env path := by
  rw [← isFile_eq_true_iff_isFileAt, Bool.not_eq_true]

/-- The path where a search for a path starts: its parent if it is a file, or else itself. -/
inductive StartsAt (store : FileStore) (env : Environment) (path : Path) : Path → Prop where
  | file {above : Path} :
      IsFileAt store env path → path.parent? = some above → StartsAt store env path above
  | directory : ¬ IsFileAt store env path → StartsAt store env path path

/-- The search visits the directories from its start up to the root, and no others. -/
theorem exists_start_searched (store : FileStore) (env : Environment) (target : Path) :
    ∃ start, StartsAt store env (target.absolute env.cwdPath) start ∧ start.isAbsolute = true ∧
      start.Ascends (searched store env target) := by
  have habsolute := (Path.steps_absolute (isAbsolute_cwdPath env) target).1
  cases hfile : store.isFile env.cwd (target.absolute env.cwdPath) with
  | false =>
    rw [searched_of_not_isFile hfile]
    exact ⟨_, .directory (isFile_eq_false_iff.1 hfile), habsolute, Path.ascends_ancestors habsolute⟩
  | true =>
    rcases isFile_eq_true_iff_isFileAt.1 hfile with ⟨names, hleads⟩
    rcases FileStore.exists_parent_of_leadsToFile habsolute hleads with ⟨above, habove⟩
    have haboveAbsolute := (Path.steps_of_parent? habsolute habove).1
    rw [searched_of_isFile hfile habove]
    exact ⟨above, .file ⟨names, hleads⟩ habove, haboveAbsolute,
      Path.ascends_ancestors haboveAbsolute⟩

/-! ## The configuration of a project -/

/-- The configuration file of a directory: the plain one, or else the hidden one. -/
inductive ConfigAt (store : FileStore) (env : Environment) (directory : Path) : Path → Prop where
  | plain : IsFileAt store env (directory.join ⟨"typeban.toml"⟩) →
      ConfigAt store env directory (directory.join ⟨"typeban.toml"⟩)
  | hidden : ¬ IsFileAt store env (directory.join ⟨"typeban.toml"⟩) →
      IsFileAt store env (directory.join ⟨".typeban.toml"⟩) →
        ConfigAt store env directory (directory.join ⟨".typeban.toml"⟩)

/-- Directories without a configuration file. -/
def NoneHasConfig (store : FileStore) (env : Environment) (directories : List Path) : Prop :=
  ∀ directory ∈ directories, ∀ path, ¬ ConfigAt store env directory path

/-- The configuration file of the first directory that has any. -/
def NearestAt (store : FileStore) (env : Environment) (directories : List Path) (path : Path) :
    Prop :=
  ∃ nearer directory further, directories = nearer ++ directory :: further ∧
    ConfigAt store env directory path ∧ NoneHasConfig store env nearer

theorem find?_candidates_eq_some_iff :
    ((candidates directory).find? fun path => store.isFile env.cwd path) = some path ↔
      ConfigAt store env directory path := by
  have hcandidates : candidates directory =
      [directory.join ⟨"typeban.toml"⟩, directory.join ⟨".typeban.toml"⟩] := rfl
  rw [hcandidates]
  constructor
  · intro h
    cases hplain : store.isFile env.cwd (directory.join ⟨"typeban.toml"⟩) with
    | true =>
      rw [List.find?_cons_of_pos hplain] at h
      cases h
      exact .plain (isFile_eq_true_iff_isFileAt.1 hplain)
    | false =>
      rw [List.find?_cons_of_neg (by simp [hplain])] at h
      have hhidden := List.find?_some h
      obtain rfl := List.mem_singleton.1 (List.mem_of_find?_eq_some h)
      exact .hidden (isFile_eq_false_iff.1 hplain) (isFile_eq_true_iff_isFileAt.1 hhidden)
  · intro h
    cases h with
    | plain hplain => exact List.find?_cons_of_pos (isFile_eq_true_iff_isFileAt.2 hplain)
    | hidden hplain hhidden =>
      rw [List.find?_cons_of_neg (by simp [isFile_eq_false_iff.2 hplain])]
      exact List.find?_cons_of_pos (isFile_eq_true_iff_isFileAt.2 hhidden)

theorem find?_candidates_eq_none_iff :
    ((candidates directory).find? fun path => store.isFile env.cwd path) = none ↔
      ∀ path, ¬ ConfigAt store env directory path := by
  simp only [Option.eq_none_iff_forall_ne_some, ne_eq, find?_candidates_eq_some_iff]

theorem projectConfig?_eq_some_iff_nearestAt :
    projectConfig? store env target = some path ↔
      NearestAt store env (searched store env target) path := by
  simp only [projectConfig?, List.findSome?_eq_some_iff, find?_candidates_eq_some_iff,
    find?_candidates_eq_none_iff]
  rfl

theorem projectConfig?_eq_none_iff :
    projectConfig? store env target = none ↔
      NoneHasConfig store env (searched store env target) := by
  simp only [projectConfig?, List.findSome?_eq_none_iff, find?_candidates_eq_none_iff]
  rfl

/-! ## The configuration of the user -/

/-- The configuration file of the user. A directory that is named for it hides the one below the
home directory, whether it has a file or not. -/
inductive UserConfigAt (store : FileStore) (env : Environment) : Path → Prop where
  | named {directory : Path} : env.configDirectory = some directory →
      IsFileAt store env (directory.join ⟨"config.toml"⟩) →
        UserConfigAt store env (directory.join ⟨"config.toml"⟩)
  | home {home : Path} : env.configDirectory = none → env.home = some home →
      IsFileAt store env ((home.join ⟨".typeban"⟩).join ⟨"config.toml"⟩) →
        UserConfigAt store env ((home.join ⟨".typeban"⟩).join ⟨"config.toml"⟩)

theorem globalConfig?_eq_some_iff :
    globalConfig? store env = some path ↔ UserConfigAt store env path := by
  rw [globalConfig?, Option.filter_eq_some_iff, isFile_eq_true_iff_isFileAt, globalCandidate?]
  constructor
  · rintro ⟨hcandidate, hfile⟩
    split at hcandidate
    · rename_i directory hnamed
      cases hcandidate
      exact .named hnamed hfile
    · rename_i hunset
      rcases Option.map_eq_some_iff.1 hcandidate with ⟨home, hhome, rfl⟩
      exact .home hunset hhome hfile
  · intro h
    cases h with
    | named hnamed hfile =>
      rw [hnamed]
      exact ⟨rfl, hfile⟩
    | home hunset hhome hfile =>
      rw [hunset, hhome]
      exact ⟨rfl, hfile⟩

theorem globalConfig?_eq_none_iff :
    globalConfig? store env = none ↔ ∀ path, ¬ UserConfigAt store env path := by
  simp only [Option.eq_none_iff_forall_ne_some, ne_eq, globalConfig?_eq_some_iff]

/-! ## The choice -/

/-- The source that comes first for the directories of a path and a path on the command line. -/
inductive Chosen (store : FileStore) (env : Environment) (directories : List Path) :
    Option Path → ConfigSource → Prop where
  | explicit {path : Path} : Chosen store env directories (some path) (.explicit path)
  | project {path : Path} :
      NearestAt store env directories path → Chosen store env directories none (.project path)
  | global {path : Path} : NoneHasConfig store env directories → UserConfigAt store env path →
      Chosen store env directories none (.global path)
  | builtin : NoneHasConfig store env directories → (∀ path, ¬ UserConfigAt store env path) →
      Chosen store env directories none .builtin

theorem chosen_resolve (store : FileStore) (env : Environment) (target : Path)
    (named : Option Path) :
    Chosen store env (searched store env target) named
      (ConfigSource.resolve store env target named) := by
  cases named with
  | some path => exact .explicit
  | none =>
    rw [ConfigSource.resolve]
    cases hproject : projectConfig? store env target with
    | some path => exact .project (projectConfig?_eq_some_iff_nearestAt.1 hproject)
    | none =>
      have hnone := projectConfig?_eq_none_iff.1 hproject
      cases hglobal : globalConfig? store env with
      | some path => exact .global hnone (globalConfig?_eq_some_iff.1 hglobal)
      | none => exact .builtin hnone (globalConfig?_eq_none_iff.1 hglobal)

theorem resolve_eq_of_chosen (h : Chosen store env (searched store env target) named source) :
    ConfigSource.resolve store env target named = source := by
  cases h with
  | explicit => rfl
  | project hnearest =>
    rw [ConfigSource.resolve, projectConfig?_eq_some_iff_nearestAt.2 hnearest]
  | global hnone huser =>
    rw [ConfigSource.resolve, projectConfig?_eq_none_iff.2 hnone,
      globalConfig?_eq_some_iff.2 huser]
  | builtin hnone huser =>
    rw [ConfigSource.resolve, projectConfig?_eq_none_iff.2 hnone,
      globalConfig?_eq_none_iff.2 huser]

/-- The configuration for a path is the one on the command line, which is not looked for, or else
the nearest one in the directories from the path up to the root, or else the one of the user, or
else the built-in one. -/
theorem resolve_eq_iff_chosen (store : FileStore) (env : Environment) (target : Path) :
    ∃ start directories, StartsAt store env (target.absolute env.cwdPath) start ∧
      start.Ascends directories ∧ (∀ directory ∈ directories, directory.isAbsolute = true) ∧
      directories.map Path.steps = start.steps.inits.reverse ∧
      ∀ named source, ConfigSource.resolve store env target named = source ↔
        Chosen store env directories named source := by
  rcases exists_start_searched store env target with ⟨start, hstart, habsolute, hascends⟩
  rcases hascends.map_steps habsolute with ⟨hall, hsteps⟩
  refine ⟨start, _, hstart, hascends, hall, hsteps, fun named source => ?_⟩
  constructor
  · rintro rfl
    exact chosen_resolve store env target named
  · exact resolve_eq_of_chosen

/-- A hidden configuration comes before a plain one that is farther away, and a directory with the
name of a configuration is none. -/
example :
    ConfigSource.resolve
      ⟨[(["p", "typeban.toml"], .text ""), (["p", "w", ".typeban.toml"], .text ""),
        (["p", "w", "src", "typeban.toml", "a.ts"], .text "")], [], []⟩
      ⟨["p", "w"], none, none⟩ ⟨"src/typeban.toml/a.ts"⟩ none = .project ⟨"/p/w/.typeban.toml"⟩ :=
  rfl

/-- A directory that is named for the configuration of the user hides the one at home. -/
example :
    ConfigSource.resolve ⟨[(["h", ".typeban", "config.toml"], .text "")], [["c"]], []⟩
      ⟨[], some ⟨"/c"⟩, some ⟨"/h"⟩⟩ ⟨"."⟩ none = .builtin :=
  rfl

end CommandLine
end TypeNameLint
