import TypeNameLint.CommandLine.ConfigSource
import TypeNameLint.Proofs.FileStore.Passage
import Mathlib.Data.List.Find

/-!
# Nearest — which configuration file of a project counts

The search for a configuration goes back over the path as it is spelled: it visits the directories
that the path passes, from the last one to the root. If no step leads to a parent, these are the
directory that the path denotes and those above it. Otherwise a directory beside them is among
them, and its configuration may count. This file defines:

* `Environment.spelled`: the steps of a path from the root, as they are spelled;
* `Denotes`: the directory of a path;
* `Passes`, `Searches`: the steps that the search goes back over;
* `configIn?`, `IsNearest`: the configuration file that counts among those of some directories.

The main results are `exists_searches` and `project_of_resolve`.
-/

namespace TypeNameLint
namespace CommandLine

open TypeNameLint.Path (Component)
open FileStore (move upwards trail)

variable {store : FileStore} {env : Environment} {target path : Path} {directory place : Names}
variable {passed : List Component} {name : String}

/-! ## The current directory -/

theorem isAbsolute_cwdPath (env : Environment) : env.cwdPath.isAbsolute = true := by
  rw [Path.isAbsolute, decide_eq_true_eq, Environment.cwdPath, String.toList_append]
  rfl

/-- The path of the current directory joins its names to the root. -/
theorem cwdPath_eq_descend (hcwd : ∀ name ∈ env.cwd, IsName name) :
    env.cwdPath = Path.descend ⟨"/"⟩ env.cwd := by
  have hroot : (⟨"/"⟩ : Path).text ≠ "" := by decide
  have hopened : (⟨"/"⟩ : Path).opened.text.toList = ['/'] := by decide
  by_cases hempty : env.cwd = []
  · rw [Environment.cwdPath, hempty]
    rfl
  · have htext : env.cwdPath.text.toList = (Path.descend ⟨"/"⟩ env.cwd).text.toList := by
      rw [Path.text_descend hroot hcwd hempty, hopened, Text.joinWith_eq_intercalate,
        Environment.cwdPath, String.toList_append, String.toList_intercalate]
      rfl
    exact congrArg Path.mk (String.toList_inj.1 htext)

theorem steps_cwdPath (hcwd : ∀ name ∈ env.cwd, IsName name) :
    env.cwdPath.steps = env.cwd.map .name := by
  have hroot : (⟨"/"⟩ : Path).text ≠ "" := by decide
  rw [← Path.components_tail_of_isAbsolute (isAbsolute_cwdPath env), cwdPath_eq_descend hcwd,
    Path.components_descend hroot hcwd]
  rfl

/-- The steps of a path from the root, as they are spelled. -/
def Environment.spelled (env : Environment) (target : Path) : List Component :=
  (if target.isAbsolute then [] else env.cwd.map .name) ++ target.steps

theorem spelled_absolute (hcwd : ∀ name ∈ env.cwd, IsName name) (target : Path) :
    (target.absolute env.cwdPath).isAbsolute = true ∧
      (target.absolute env.cwdPath).steps = env.spelled target := by
  rw [Environment.spelled, ← steps_cwdPath hcwd]
  exact Path.steps_absolute (isAbsolute_cwdPath env) target

/-- Only the steps of a path itself can lead to a parent. -/
theorem exists_names_of_spelled (h : .parent ∉ target.components) :
    ∃ names : Names, env.spelled target = names.map .name := by
  rcases Path.exists_names_of_steps h with ⟨names, hsteps⟩
  refine ⟨(if target.isAbsolute then [] else env.cwd) ++ names, ?_⟩
  rw [Environment.spelled, hsteps, List.map_append]
  split <;> rfl

/-! ## What a path denotes -/

/-- The directory that a path denotes, or the one with the file that it denotes. -/
inductive Denotes (store : FileStore) (env : Environment) (target : Path) : Names → Prop where
  | directory {directory : Names} :
      store.resolve env.cwd target = .ok directory →
        store.entry? directory = some .directory → Denotes store env target directory
  | file {directory : Names} {name : String} :
      store.LeadsToFile env.cwd target (directory ++ [name]) → Denotes store env target directory

/-- Steps that lead to the directory of a path: all that are spelled, or all but the name of the
file. -/
structure Passes (store : FileStore) (env : Environment) (target : Path) (directory : Names)
    (passed : List Component) : Prop where
  leads : store.LeadsThrough [] passed directory
  denotes : Denotes store env target directory
  spelled : passed = env.spelled target ∨ ∃ name, env.spelled target = passed ++ [.name name]

/-- A path denotes one directory. -/
theorem Denotes.eq {other : Names} (h : Denotes store env target directory)
    (h' : Denotes store env target other) : other = directory := by
  cases h with
  | directory hresolve hentry =>
    cases h' with
    | directory hresolve' => exact Except.ok.inj (hresolve'.symm.trans hresolve)
    | file hfile =>
      have hsame := Except.ok.inj (hfile.1.symm.trans hresolve)
      exact absurd (hsame ▸ hentry) (FileStore.entry?_ne_directory hfile.2)
  | file hfile =>
    cases h' with
    | directory hresolve hentry =>
      have hsame := Except.ok.inj (hfile.1.symm.trans hresolve)
      exact absurd (hsame ▸ hentry) (FileStore.entry?_ne_directory hfile.2)
    | file hfile' =>
      exact (List.append_inj' (Except.ok.inj (hfile'.1.symm.trans hfile.1)) rfl).1

/-- A way that starts where a path starts can be told from the root. -/
theorem leadsThrough_spelled {steps : List Component} (hwf : store.WellFormed)
    (h : store.LeadsThrough (if target.isAbsolute then [] else env.cwd) steps directory) :
    store.LeadsThrough [] ((if target.isAbsolute then [] else env.cwd.map .name) ++ steps)
      directory := by
  refine FileStore.leadsThrough_append_iff.2 ⟨_, ?_, h⟩
  have hstart := h.entry?_eq
  split
  · rename_i habsolute
    rw [if_pos habsolute] at hstart
    exact ⟨rfl, hstart⟩
  · rename_i hrelative
    rw [if_neg hrelative] at hstart
    exact hwf.leadsThrough_names hstart

/-! ## The search -/

/-- The directories of the search have the steps that are passed, and fewer and fewer of them. -/
structure Searches (store : FileStore) (env : Environment) (target : Path) (directory : Names)
    (passed : List Component) : Prop extends Passes store env target directory passed where
  absolute : ∀ q ∈ searched store env target, q.isAbsolute = true
  steps_eq : (searched store env target).map Path.steps = passed.inits.reverse

theorem searched_of_isFile {above : Path}
    (hfile : store.isFile env.cwd (target.absolute env.cwdPath) = true)
    (habove : (target.absolute env.cwdPath).parent? = some above) :
    searched store env target = above.ancestors := by
  rw [searched, hfile, habove]
  rfl

theorem searched_of_not_isFile
    (hnofile : store.isFile env.cwd (target.absolute env.cwdPath) = false) :
    searched store env target = (target.absolute env.cwdPath).ancestors := by
  rw [searched, hnofile]
  rfl

theorem searches_of_directory (hwf : store.WellFormed) (hcwd : ∀ name ∈ env.cwd, IsName name)
    (hresolve : store.resolve env.cwd target = .ok directory)
    (hentry : store.entry? directory = some .directory) :
    Searches store env target directory (env.spelled target) := by
  rcases spelled_absolute hcwd target with ⟨habsolute, hsteps⟩
  have hpassed : store.LeadsThrough [] (env.spelled target) directory :=
    leadsThrough_spelled hwf
      ((FileStore.resolve_iff_leadsThrough (FileStore.text_ne_empty_of_resolve hresolve)).1
        ⟨hresolve, hentry⟩)
  have hdirectory : store.resolve env.cwd (target.absolute env.cwdPath) = .ok directory ∧
      store.entry? directory = some .directory := by
    rw [FileStore.resolve_iff_leadsThrough (Path.text_ne_empty_of_isAbsolute habsolute),
      if_pos habsolute, hsteps]
    exact hpassed
  have hnofile : store.isFile env.cwd (target.absolute env.cwdPath) = false := by
    rw [FileStore.isFile, FileStore.find_eq_ok_iff.2 ⟨directory, hdirectory⟩]
  have hsearched := searched_of_not_isFile hnofile
  rcases Path.map_steps_ancestors habsolute with ⟨hall, hmap⟩
  exact {
    leads := hpassed
    denotes := .directory hresolve hentry
    spelled := Or.inl rfl
    absolute := by rwa [hsearched]
    steps_eq := by rw [hsearched, hmap, hsteps] }

theorem searches_of_file (hwf : store.WellFormed) (hcwd : ∀ name ∈ env.cwd, IsName name)
    {names : Names} (hfile : store.LeadsToFile env.cwd target names) :
    ∃ directory passed, Searches store env target directory passed := by
  rcases hwf.exists_name_of_leadsToFile hfile with
    ⟨directory, name, front, rfl, hsteps, hslash, hthrough⟩
  have hname : IsName name := hwf.isName hfile.2 name (by simp)
  rcases Path.absolute_of_concat (isAbsolute_cwdPath env) hsteps hslash with
    ⟨q, hq, hfront, hjoined⟩
  rw [steps_cwdPath hcwd] at hfront
  have hpassed : store.LeadsThrough [] q.steps directory :=
    hfront ▸ leadsThrough_spelled hwf hthrough
  have hspelled : env.spelled target = q.steps ++ [.name name] := by
    rw [Environment.spelled, hsteps, hfront, List.append_assoc]
  have hisFile : store.isFile env.cwd (q.join ⟨name⟩) = true :=
    FileStore.isFile_eq_true_iff.2 ⟨directory ++ [name],
      (FileStore.leadsToFile_join_iff hq hname).2 ⟨directory, hpassed, rfl, hfile.2⟩⟩
  -- The parent of the file is searched first, under the steps that are left.
  have hlast : (q.join ⟨name⟩).steps = q.steps ++ [.name name] := by
    rw [Path.steps_join (Path.text_ne_empty_of_isAbsolute hq) hname.no_slash,
      Path.ofPiece?_of_isName hname]
    rfl
  rcases Path.parent?_of_isAbsolute (Path.isAbsolute_join_of_isAbsolute hq ⟨name⟩) with
    ⟨hnil, -⟩ | ⟨above, habove, habsolute, -, hdropped⟩
  · rw [hlast] at hnil
    simp at hnil
  · rw [hlast, List.dropLast_concat] at hdropped
    have hsearched : searched store env target = above.ancestors := by
      refine searched_of_isFile ?_ ?_
      · rw [hjoined]
        exact hisFile
      · rw [hjoined]
        exact habove
    rcases Path.map_steps_ancestors habsolute with ⟨hall, hmap⟩
    exact ⟨directory, q.steps, {
      leads := hpassed
      denotes := .file hfile
      spelled := Or.inr ⟨name, hspelled⟩
      absolute := by rwa [hsearched]
      steps_eq := by rw [hsearched, hmap, hdropped] }⟩

/-- The directories of the search are those that the path passes on the way to its directory. -/
theorem exists_searches (hwf : store.WellFormed) (hcwd : ∀ name ∈ env.cwd, IsName name)
    (hexists : store.has env.cwd target = true) :
    ∃ directory passed, Searches store env target directory passed := by
  have hfound : ∃ entry, store.find env.cwd target = .ok entry := by
    rw [FileStore.has] at hexists
    cases hfind : store.find env.cwd target with
    | error fault =>
      rw [hfind] at hexists
      cases hexists
    | ok entry => exact ⟨entry, rfl⟩
  rcases hfound with ⟨entry, hfind⟩
  rcases FileStore.find_eq_ok_iff.1 hfind with ⟨names, hresolve, hentry⟩
  cases entry with
  | directory => exact ⟨names, _, searches_of_directory hwf hcwd hresolve hentry⟩
  | file content =>
    have hfile := FileStore.entry?_eq_file_iff.1 hentry
    exact searches_of_file hwf hcwd ⟨hresolve, by simp [hfile]⟩

/-! ## The file that counts -/

/-- The name of the configuration file that counts in a directory. -/
def configIn? (store : FileStore) (directory : Names) : Option String :=
  configNames.find? fun name => (store.file? (directory ++ [name])).isSome

theorem configIn?_eq_none_iff :
    configIn? store directory = none ↔
      ∀ name ∈ configNames, store.file? (directory ++ [name]) = none := by
  simp [configIn?]

theorem isName_of_mem_configNames : ∀ name ∈ configNames, IsName name := by
  decide

theorem isSome_file?_of_configIn? (h : configIn? store directory = some name) :
    IsName name ∧ (store.file? (directory ++ [name])).isSome := by
  rw [configIn?] at h
  have hfile := List.find?_some h
  exact ⟨isName_of_mem_configNames name (List.mem_of_find?_eq_some h), hfile⟩

/-- The configuration file that counts for directories in their order: it counts in one of them,
and the nearer ones have none. -/
def IsNearest (store : FileStore) (directories : List Names) (place : Names) : Prop :=
  ∃ nearer directory further name, directories = nearer ++ directory :: further ∧
    place = directory ++ [name] ∧ configIn? store directory = some name ∧
    ∀ other ∈ nearer, ∀ name ∈ configNames, store.file? (other ++ [name]) = none

/-- The candidates in a directory are files exactly if the directory holds them. -/
theorem find?_candidates {q : Path} (hq : q.isAbsolute = true)
    (h : store.LeadsThrough [] q.steps directory) :
    ((candidates q).find? fun path => store.isFile env.cwd path) =
      (configIn? store directory).map fun name => q.join ⟨name⟩ := by
  rw [candidates, List.find?_map, configIn?]
  congr 1
  refine List.find?_congr fun name hname => ?_
  rw [Function.comp_apply, Bool.eq_iff_iff, FileStore.isFile_eq_true_iff]
  simp only [FileStore.leadsToFile_join_iff hq (isName_of_mem_configNames name hname)]
  constructor
  · rintro ⟨names, other, hother, rfl, hfile⟩
    rwa [h.eq_foldl, ← hother.eq_foldl]
  · intro hfile
    exact ⟨directory ++ [name], directory, h, rfl, hfile⟩

/-- Where a searched directory is, as its steps are spelled. -/
def placeOf (q : Path) : Names :=
  q.steps.foldl move []

theorem Searches.leadsThrough (h : Searches store env target directory passed) {q : Path}
    (hq : q ∈ searched store env target) : store.LeadsThrough [] q.steps (placeOf q) := by
  have hfront : q.steps ∈ passed.inits.reverse := h.steps_eq ▸ List.mem_map_of_mem hq
  exact h.leads.of_prefix (by simpa using hfront)

theorem Searches.trail_eq (h : Searches store env target directory passed) :
    trail passed = (searched store env target).map placeOf := by
  rw [trail, ← h.steps_eq, List.map_map]
  rfl

/-- The file that counts in a searched directory is reached over the candidate there. -/
theorem Searches.leadsToFile (h : Searches store env target directory passed) {q : Path}
    (hq : q ∈ searched store env target) (hconfig : configIn? store (placeOf q) = some name) :
    store.LeadsToFile env.cwd (q.join ⟨name⟩) (placeOf q ++ [name]) := by
  rcases isSome_file?_of_configIn? hconfig with ⟨hname, hfile⟩
  exact (FileStore.leadsToFile_join_iff (h.absolute q hq) hname).2
    ⟨placeOf q, h.leadsThrough hq, rfl, hfile⟩

/-- The search comes to an end at the first directory with a configuration file. -/
theorem Searches.projectConfig?_eq_some_iff (h : Searches store env target directory passed) :
    projectConfig? store env target = some path ↔
      ∃ nearer q further name, searched store env target = nearer ++ q :: further ∧
        path = q.join ⟨name⟩ ∧ configIn? store (placeOf q) = some name ∧
        ∀ other ∈ nearer, configIn? store (placeOf other) = none := by
  have hfind : ∀ q ∈ searched store env target,
      ((candidates q).find? fun path => store.isFile env.cwd path) =
        (configIn? store (placeOf q)).map fun name => q.join ⟨name⟩ :=
    fun q hq => find?_candidates (h.absolute q hq) (h.leadsThrough hq)
  rw [projectConfig?, List.findSome?_eq_some_iff]
  constructor
  · rintro ⟨nearer, q, further, hsplit, hfound, hnearer⟩
    rw [hfind q (by simp [hsplit]), Option.map_eq_some_iff] at hfound
    rcases hfound with ⟨name, hname, rfl⟩
    refine ⟨nearer, q, further, name, hsplit, rfl, hname, ?_⟩
    intro other hother
    have hnone := hnearer other hother
    rwa [hfind other (by simp [hsplit, hother]), Option.map_eq_none_iff] at hnone
  · rintro ⟨nearer, q, further, name, hsplit, rfl, hname, hnearer⟩
    refine ⟨nearer, q, further, hsplit, ?_, ?_⟩
    · rw [hfind q (by simp [hsplit]), hname, Option.map_some]
    · intro other hother
      rw [hfind other (by simp [hsplit, hother]), hnearer other hother, Option.map_none]

/-- What the search finds is the nearest file, and it finds the nearest file. -/
theorem Searches.isNearest_iff (h : Searches store env target directory passed) :
    IsNearest store (trail passed) place ↔
      ∃ path, projectConfig? store env target = some path ∧
        store.LeadsToFile env.cwd path place := by
  simp only [h.projectConfig?_eq_some_iff]
  constructor
  · rintro ⟨nearer, last, further, name, hsplit, rfl, hconfig, hnearer⟩
    rw [h.trail_eq, List.map_eq_append_iff] at hsplit
    rcases hsplit with ⟨before, rest, hsearched, rfl, hrest⟩
    rcases List.map_eq_cons_iff.1 hrest with ⟨q, after, rfl, rfl, -⟩
    refine ⟨q.join ⟨name⟩, ⟨before, q, after, name, hsearched, rfl, hconfig, ?_⟩,
      h.leadsToFile (by simp [hsearched]) hconfig⟩
    intro other hother
    exact configIn?_eq_none_iff.2 (hnearer _ (List.mem_map_of_mem hother))
  · rintro ⟨path, ⟨nearer, q, further, name, hsplit, rfl, hconfig, hnearer⟩, hleads⟩
    have hplace : place = placeOf q ++ [name] :=
      Except.ok.inj (hleads.1.symm.trans (h.leadsToFile (by simp [hsplit]) hconfig).1)
    refine ⟨nearer.map placeOf, placeOf q, further.map placeOf, name, ?_, hplace, hconfig, ?_⟩
    · rw [h.trail_eq, hsplit, List.map_append, List.map_cons]
    · intro other hother
      rcases List.mem_map.1 hother with ⟨q', hq', rfl⟩
      exact configIn?_eq_none_iff.1 (hnearer q' hq')

theorem Searches.exists_leadsToFile (h : Searches store env target directory passed)
    (hfound : projectConfig? store env target = some path) :
    ∃ place, store.LeadsToFile env.cwd path place := by
  rcases h.projectConfig?_eq_some_iff.1 hfound with
    ⟨nearer, q, further, name, hsplit, rfl, hconfig, -⟩
  exact ⟨_, h.leadsToFile (by simp [hsplit]) hconfig⟩

/-- Without a step to a parent the directories that are passed are those above the last one. -/
theorem Passes.trail_eq_upwards (h : Passes store env target directory passed)
    (hparent : .parent ∉ target.components) : trail passed = upwards directory := by
  have hall : ∃ names : Names, env.spelled target = names.map .name :=
    exists_names_of_spelled hparent
  rcases hall with ⟨names, hspelled⟩
  have hnames : ∃ names : Names, passed = names.map .name := by
    rcases h.spelled with hall | ⟨name, hlast⟩
    · exact ⟨names, hall.trans hspelled⟩
    · rw [hspelled] at hlast
      rcases List.map_eq_append_iff.1 hlast with ⟨front, back, -, hfront, -⟩
      exact ⟨front, hfront.symm⟩
  rcases hnames with ⟨names, rfl⟩
  rw [h.leads.eq_foldl, FileStore.foldl_move_names, List.nil_append, FileStore.trail_names]

theorem resolve_eq_project_iff {named : Option Path} :
    ConfigSource.resolve store env target named = .project path ↔
      named = none ∧ projectConfig? store env target = some path := by
  cases named with
  | some other => simp [ConfigSource.resolve]
  | none =>
    simp only [ConfigSource.resolve, true_and]
    cases projectConfig? store env target with
    | some found => simp
    | none => cases globalConfig? store env <;> simp

/-- A configuration of a project is the nearest one in the directories that the path passes, as it
is spelled, and if there is any, the nearest one is chosen. If no step of the path leads to a
parent, these are the directory that the path denotes, or that of the file that it denotes, and the
directories above it. -/
theorem project_of_resolve (store : FileStore) (env : Environment) (target : Path)
    (hwf : store.WellFormed) (hcwd : ∀ name ∈ env.cwd, IsName name)
    (hexists : store.has env.cwd target = true) :
    ∃ directory passed, Passes store env target directory passed ∧
      (∀ named path, ConfigSource.resolve store env target named = .project path →
        ∃ place, store.LeadsToFile env.cwd path place ∧ IsNearest store (trail passed) place) ∧
      (∀ place, IsNearest store (trail passed) place →
        ∃ path, ConfigSource.resolve store env target none = .project path ∧
          store.LeadsToFile env.cwd path place) ∧
      (.parent ∉ target.components → trail passed = upwards directory) := by
  rcases exists_searches hwf hcwd hexists with ⟨directory, passed, hsearches⟩
  refine ⟨directory, passed, hsearches.toPasses, ?_, ?_, hsearches.trail_eq_upwards⟩
  · intro named path hresolve
    have hfound := (resolve_eq_project_iff.1 hresolve).2
    rcases hsearches.exists_leadsToFile hfound with ⟨place, hleads⟩
    exact ⟨place, hleads, hsearches.isNearest_iff.2 ⟨path, hfound, hleads⟩⟩
  · intro place hnearest
    rcases hsearches.isNearest_iff.1 hnearest with ⟨path, hfound, hleads⟩
    exact ⟨path, resolve_eq_project_iff.2 ⟨rfl, hfound⟩, hleads⟩

/-! ## Two packages side by side -/

/-- A project with a configuration, and two packages in it, one of them with its own. -/
def siblingStore : FileStore :=
  ⟨[(["p", "typeban.toml"], .text ""), (["p", "w", "a", "typeban.toml"], .text ""),
    (["p", "w", "b", "x.ts"], .text "")], [], []⟩

/-- A command in the directory with the packages. -/
def amongPackages : Environment := ⟨["p", "w"], none, none⟩

/-- The package without a configuration of its own has that of the project. -/
theorem project_siblingStore :
    siblingStore.WellFormed ∧ (∀ name ∈ amongPackages.cwd, IsName name) ∧
      siblingStore.has amongPackages.cwd ⟨"./b/x.ts"⟩ = true ∧
      ∃ path, ConfigSource.resolve siblingStore amongPackages ⟨"./b/x.ts"⟩ none = .project path ∧
        siblingStore.LeadsToFile amongPackages.cwd path ["p", "typeban.toml"] := by
  have hwf : siblingStore.WellFormed := by decide
  have hcwd : ∀ name ∈ amongPackages.cwd, IsName name := by decide
  have hexists : siblingStore.has amongPackages.cwd ⟨"./b/x.ts"⟩ = true := rfl
  rcases project_of_resolve siblingStore amongPackages ⟨"./b/x.ts"⟩ hwf hcwd hexists with
    ⟨directory, passed, hpasses, -, hchosen, hupwards⟩
  have hdenotes : Denotes siblingStore amongPackages ⟨"./b/x.ts"⟩ ["p", "w", "b"] :=
    .file (show siblingStore.LeadsToFile amongPackages.cwd ⟨"./b/x.ts"⟩
      (["p", "w", "b"] ++ ["x.ts"]) from ⟨rfl, rfl⟩)
  obtain rfl : directory = ["p", "w", "b"] := hdenotes.eq hpasses.denotes
  refine ⟨hwf, hcwd, hexists, hchosen _ ?_⟩
  rw [hupwards (by decide)]
  exact ⟨[["p", "w", "b"], ["p", "w"]], ["p"], [[]], "typeban.toml", by decide, rfl, rfl,
    by decide⟩

/-- A path that goes through the other package gets the configuration of that one, which is neither
in the directory that the path denotes nor above it. -/
theorem project_beside_target :
    siblingStore.WellFormed ∧ siblingStore.has amongPackages.cwd ⟨"a/../b"⟩ = true ∧
      ConfigSource.resolve siblingStore amongPackages ⟨"a/../b"⟩ none =
        .project ⟨"/p/w/a/typeban.toml"⟩ ∧
      siblingStore.LeadsToFile amongPackages.cwd ⟨"/p/w/a/typeban.toml"⟩
        ["p", "w", "a", "typeban.toml"] ∧
      Denotes siblingStore amongPackages ⟨"a/../b"⟩ ["p", "w", "b"] ∧
      ∀ directory, Denotes siblingStore amongPackages ⟨"a/../b"⟩ directory →
        ["p", "w", "a"] ∉ upwards directory ∧
          IsNearest siblingStore (upwards directory) ["p", "typeban.toml"] := by
  have hdenotes : Denotes siblingStore amongPackages ⟨"a/../b"⟩ ["p", "w", "b"] :=
    .directory rfl rfl
  refine ⟨by decide, rfl, rfl, ⟨rfl, rfl⟩, hdenotes, ?_⟩
  intro directory hdirectory
  rw [hdenotes.eq hdirectory]
  exact ⟨by decide, [["p", "w", "b"], ["p", "w"]], ["p"], [[]], "typeban.toml", by decide, rfl, rfl,
    by decide⟩

end CommandLine
end TypeNameLint
