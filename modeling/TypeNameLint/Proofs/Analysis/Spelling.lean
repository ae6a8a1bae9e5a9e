import TypeNameLint.Proofs.Analysis.Requests
import TypeNameLint.Proofs.Exclude.Locality

/-!
# Spelling — what a run finds does not depend on how its root is written

A root can be written in many ways: relative to the current directory, with a slash or with `/.` at
its end. Paths with the same components lead to the same directory, and the walk below it is the
same. Only the test of excluded paths sees the text of the root. This file defines:

* `Analysis.found`: the source files of a run, by their paths from the root.

The main result is `found_eq_of_components_eq`.
-/

namespace TypeNameLint

namespace Path

theorem compareComponents_append (front : List Component) (as bs : List Component) :
    compareComponents (front ++ as) (front ++ bs) = compareComponents as bs := by
  induction front with
  | nil => rfl
  | cons a front ih =>
    have hself : a.compare a = .eq := Component.instLawfulEqCmpComponent.compare_self
    rw [List.cons_append, List.cons_append, compareComponents, hself, ih]
    rfl

end Path

namespace Analysis

variable {analysis other : Analysis} {store : FileStore} {names below : Names}

/-- A source file as it is found: its path from the root, and its language. -/
def foundAs (analysis : Analysis) (source : Source) : Path × Language :=
  (analysis.root.reportedFrom source.path, source.language)

/-- The source files of a run as they are found, in the order of their paths. -/
def found (analysis : Analysis) (store : FileStore) : Except WalkFault (List (Path × Language)) :=
  (analysis.sources store).map fun sources => sources.map analysis.foundAs

/-- What is found at names below the root. -/
def foundAt? (analysis : Analysis) (below : Names) : Option (Path × Language) :=
  (analysis.source? (analysis.root.descend below)).map analysis.foundAs

/-- The files below a root are in the order of their paths from there. -/
theorem found_of_directory (hwf : store.WellFormed)
    (hresolve : store.resolve [] analysis.root = .ok names)
    (hentry : store.entry? names = some .directory)
    (hdropped : (analysis.scope store names).droppedAbove = []) :
    analysis.found store = .ok (((analysis.scope store names).visibleFiles.filterMap
      analysis.foundAt?).mergeSort fun a b => (a.1.compare b.1).isLE) := by
  have hroot := FileStore.text_ne_empty_of_resolve hresolve
  let sources := ((analysis.scope store names).visibleFiles.map analysis.root.descend).filterMap
    analysis.source?
  have hcomponents : ∀ source ∈ sources, source.path.components =
      analysis.root.components ++ (analysis.foundAs source).1.components := by
    intro source hsource
    rcases List.mem_filterMap.1 hsource with ⟨path, hpath, hsome⟩
    rcases List.mem_map.1 hpath with ⟨below, hbelow, rfl⟩
    have hnames := (leadsToFile_of_visible hwf hresolve hbelow).2
    have hdescend := Path.components_descend hroot hnames
    rw [foundAs, (source?_eq_some hsome).1, Path.components_reportedFrom hroot hdescend, hdescend]
  have hsorted : (sources.mergeSort fun a b => (a.path.compare b.path).isLE).map analysis.foundAs =
      (sources.map analysis.foundAs).mergeSort fun a b => (a.1.compare b.1).isLE := by
    refine List.map_mergeSort fun a ha b hb => ?_
    simp only [Path.compare, hcomponents a ha, hcomponents b hb, Path.compareComponents_append]
  rw [found, sources_of_walks (Walks.directory hresolve hentry hdropped)]
  refine congrArg Except.ok (hsorted.trans ?_)
  rw [List.map_filterMap, List.filterMap_map]
  rfl

theorem found_of_dropped (hresolve : store.resolve [] analysis.root = .ok names)
    (hentry : store.entry? names = some .directory)
    (hdropped : (analysis.scope store names).droppedAbove ≠ []) :
    analysis.found store = .error (.lines (analysis.scope store names).droppedAbove) := by
  have hfind := FileStore.find_eq_ok_iff.2 ⟨names, hresolve, hentry⟩
  rcases List.exists_cons_of_ne_nil hdropped with ⟨line, lines, hlines⟩
  have hlines' : Ignore.Scope.droppedAbove
      ⟨store, names, analysis.config.discovery.respectsGitignore⟩ = line :: lines := hlines
  rw [hlines, found, sources, walk, hfind, hresolve]
  simp only [hlines']
  rfl

/-! ## Roots of one directory -/

/-- Two runs below one directory find the same if they agree on the names below it. -/
theorem found_eq_of_foundAt?_eq (hwf : store.WellFormed) (hroot : analysis.root.isAbsolute = true)
    (hroot' : other.root.isAbsolute = true)
    (hsame : analysis.root.components = other.root.components)
    (hconfig : analysis.config = other.config)
    (hdirectory : store.find [] analysis.root = .ok .directory)
    (hfound : ∀ below, (∀ name ∈ below, IsName name) → below ≠ [] →
      analysis.foundAt? below = other.foundAt? below) :
    analysis.found store = other.found store := by
  rcases FileStore.find_eq_ok_iff.1 hdirectory with ⟨names, hresolve, hentry⟩
  have hleads := (FileStore.resolve_directory_iff hroot).1 ⟨hresolve, hentry⟩
  rw [hsame] at hleads
  have hresolve' : store.resolve [] other.root = .ok names :=
    ((FileStore.resolve_directory_iff hroot').2 hleads).1
  have hscope : analysis.scope store names = other.scope store names := by
    rw [scope, scope, hconfig]
  by_cases hdropped : (analysis.scope store names).droppedAbove = []
  · rw [found_of_directory hwf hresolve hentry hdropped,
      found_of_directory hwf hresolve' hentry (hscope ▸ hdropped), ← hscope]
    congr 2
    refine List.filterMap_congr fun below hbelow => ?_
    rcases leadsToFile_of_visible hwf hresolve hbelow with ⟨hleads, hnames⟩
    refine hfound below hnames ?_
    -- The root is no file.
    rintro rfl
    have hfile := hleads.2
    rw [List.append_nil] at hfile
    exact FileStore.entry?_ne_directory hfile hentry
  · rw [found_of_dropped hresolve hentry hdropped,
      found_of_dropped hresolve' hentry (hscope ▸ hdropped), ← hscope]

theorem foundAt?_eq (hroot : analysis.root.text ≠ "") (hroot' : other.root.text ≠ "")
    (hlanguages : analysis.languages = other.languages) (hexclude : analysis.exclude = other.exclude)
    (hnames : ∀ name ∈ below, IsName name) (hne : below ≠ [])
    (hcovers : ∀ exclude ∈ analysis.exclude,
      exclude.covers analysis.root (analysis.root.descend below) =
        exclude.covers other.root (other.root.descend below)) :
    analysis.foundAt? below = other.foundAt? below := by
  have hreported : analysis.root.reportedFrom (analysis.root.descend below) =
      other.root.reportedFrom (other.root.descend below) := by
    rw [Path.reportedFrom_descend hroot hnames hne, Path.reportedFrom_descend hroot' hnames hne]
  have hextension : (analysis.root.descend below).extension? =
      (other.root.descend below).extension? := by
    rcases List.eq_nil_or_concat below with hnil | ⟨above, last, hconcat⟩
    · exact absurd hnil hne
    · rw [List.concat_eq_append] at hconcat
      subst hconcat
      rw [Path.extension?_descend hroot hnames, Path.extension?_descend hroot' hnames]
  have hlanguage : analysis.languageFor? (analysis.root.descend below) =
      other.languageFor? (other.root.descend below) := by
    rw [languageFor?, languageFor?, hextension, hlanguages]
  have hexcluded : analysis.isExcluded (analysis.root.descend below) =
      other.isExcluded (other.root.descend below) := by
    rw [isExcluded, isExcluded, ← hexclude]
    rw [Bool.eq_iff_iff, List.any_eq_true, List.any_eq_true]
    exact exists_congr fun exclude => and_congr_right fun hexclude => by
      rw [hcovers exclude hexclude]
  rw [foundAt?, foundAt?, source?, source?, hlanguage, hexcluded]
  cases other.languageFor? (other.root.descend below) with
  | none => rfl
  | some language =>
    dsimp only
    split
    · rfl
    · simp [foundAs, hreported]

/-- A root that is spelled in two ways, each from its own current directory, but with the same
components, leads to the same files if the spellings differ by no more than a slash at the end, or
if all patterns are local. -/
theorem found_eq_of_components_eq (store : FileStore) (request : Request)
    (cwd cwd' root root' : Path) (analysis other : Analysis) (hwf : store.WellFormed)
    (hcwd : cwd.isAbsolute = true) (hcwd' : cwd'.isAbsolute = true)
    (hanalysis : ofRequest cwd { request with root := some root } = .ok analysis)
    (hother : ofRequest cwd' { request with root := some root' } = .ok other)
    (hdirectory : store.find [] analysis.root = .ok .directory)
    (hsame : analysis.root.components = other.root.components) :
    (analysis.root.opened = other.root.opened → analysis.found store = other.found store) ∧
    ((∀ pattern ∈ patterns request, Exclude.IsLocal pattern) →
      analysis.found store = other.found store) := by
  rcases ofRequest_eq_ok_iff.1 hanalysis with ⟨excludes, hexcludes, rfl⟩
  rcases ofRequest_eq_ok_iff.1 hother with ⟨others, hothers, rfl⟩
  have heq : excludes = others :=
    Except.ok.inj ((mapM_eq_ok_iff.2 hexcludes).symm.trans (mapM_eq_ok_iff.2 hothers))
  subst heq
  have hroot := Path.isAbsolute_join_of_isAbsolute hcwd root
  have hroot' := Path.isAbsolute_join_of_isAbsolute hcwd' root'
  have htext := Path.text_ne_empty_of_isAbsolute hroot
  have htext' := Path.text_ne_empty_of_isAbsolute hroot'
  constructor
  · intro hopened
    refine found_eq_of_foundAt?_eq hwf hroot hroot' hsame rfl hdirectory ?_
    intro below hnames hne
    exact foundAt?_eq htext htext' rfl rfl hnames hne fun _ _ =>
      Exclude.covers_descend_eq_of_opened_eq htext htext' hopened hnames hne
  · intro hlocal
    refine found_eq_of_foundAt?_eq hwf hroot hroot' hsame rfl hdirectory ?_
    intro below hnames hne
    refine foundAt?_eq htext htext' rfl rfl hnames hne ?_
    intro exclude hexclude
    rcases exists_of_mem_of_forall₂ hexcludes.flip exclude hexclude with ⟨pattern, hpattern, hparse⟩
    exact Exclude.covers_descend_eq (hlocal pattern hpattern) hparse hroot hroot' hsame hnames hne

/-- A parser without trees, which is enough to find files. -/
def treeless : Language := .typeScript fun _ => none

/-- A search for files, with patterns besides the default ones. -/
def search (exclude : List String) : Request where
  root := none
  rules := []
  languages := [treeless]
  exclude
  config := .default
  failsWithoutTree := false
  fixes := false

def searchedStore : FileStore := ⟨[(["w", "a.ts"], .text "")], [], []⟩

def searched (root : Path) (exclude : List Exclude) : Analysis :=
  ⟨root, [], [treeless], exclude, .default, false, false⟩

theorem wellFormed_searchedStore : searchedStore.WellFormed := by
  decide +kernel

/-- The only file is found unless it is excluded. -/
theorem found_searchedStore {root : Path} {exclude : List Exclude}
    (hresolve : searchedStore.resolve [] root = .ok ["w"]) :
    (searched root exclude).found searchedStore =
      .ok ((searched root exclude).foundAt? ["a.ts"]).toList := by
  let scope : Ignore.Scope := ⟨searchedStore, ["w"], true⟩
  have hvisible : scope.visibleFiles = [["a.ts"]] := by decide +kernel
  have hdropped : scope.droppedAbove.isEmpty = true := by decide +kernel
  have hfound := @found_of_directory (searched root exclude) searchedStore ["w"]
    wellFormed_searchedStore hresolve (by decide +kernel) (List.isEmpty_iff.1 hdropped)
  have hscope : (searched root exclude).scope searchedStore ["w"] = scope := rfl
  rw [hfound, hscope, hvisible]
  cases hat : (searched root exclude).foundAt? ["a.ts"] with
  | none => simp [hat]
  | some file => simp [hat]

/-- A directory that is named, and the same as the current directory. -/
theorem found_of_current :
    ∃ analysis other,
      ofRequest ⟨"/"⟩ { search ["gen/?.ts", "**/*.d.ts"] with root := some ⟨"/w"⟩ } =
          .ok analysis ∧
      ofRequest ⟨"/w"⟩ { search ["gen/?.ts", "**/*.d.ts"] with root := some ⟨"."⟩ } =
          .ok other ∧
      searchedStore.find [] analysis.root = .ok .directory ∧
      analysis.root.components = other.root.components ∧
      (∀ pattern ∈ patterns (search ["gen/?.ts", "**/*.d.ts"]), Exclude.IsLocal pattern) ∧
      analysis.found searchedStore = other.found searchedStore := by
  have hrelative : Exclude.IsLocal "gen/?.ts" := by
    refine @Exclude.IsLocal.relative _ 'g' _ ?_ (by decide) rfl rfl
    rw [Glob.isPlain_iff]
    decide
  have hending : Exclude.IsLocal "**/*.d.ts" := by
    refine @Exclude.IsLocal.ending _ ".d.ts".toList ?_ (by decide) rfl
    rw [Glob.isPlain_iff]
    decide
  have hlocal : ∀ pattern ∈ patterns (search ["gen/?.ts", "**/*.d.ts"]), Exclude.IsLocal pattern := by
    intro pattern hpattern
    rcases List.mem_append.1 hpattern with hpattern | hpattern
    · rcases List.mem_pair.1 hpattern with rfl | rfl
      · exact hrelative
      · exact hending
    · exact Exclude.isLocal_default pattern hpattern
  have hdirectory : searchedStore.find [] ⟨"/w"⟩ = .ok .directory := by decide +kernel
  have hsame : (⟨"/w"⟩ : Path).components = (⟨"/w/."⟩ : Path).components := by
    exact (Path.components_join_current (by decide)).symm
  exact ⟨searched ⟨"/w"⟩ _, searched ⟨"/w/."⟩ _, rfl, rfl, hdirectory, hsame, hlocal,
    (found_eq_of_components_eq searchedStore (search ["gen/?.ts", "**/*.d.ts"]) ⟨"/"⟩ ⟨"/w"⟩ ⟨"/w"⟩
      ⟨"."⟩ _ _ wellFormed_searchedStore rfl rfl rfl rfl hdirectory hsame).2 hlocal⟩

/-- An absolute pattern matches below one spelling of a root and not below another. -/
theorem found_depends_on_spelling :
    ∃ analysis other,
      ofRequest ⟨"/"⟩ { search ["/w/a.ts"] with root := some ⟨"/w"⟩ } = .ok analysis ∧
      ofRequest ⟨"/w"⟩ { search ["/w/a.ts"] with root := some ⟨"."⟩ } = .ok other ∧
      analysis.root.components = other.root.components ∧
      analysis.found searchedStore = .ok [] ∧
      other.found searchedStore = .ok [(⟨"a.ts"⟩, treeless)] := by
  refine ⟨searched ⟨"/w"⟩ _, searched ⟨"/w/."⟩ _, rfl, rfl, by decide +kernel, ?_, ?_⟩
  · rw [found_searchedStore (by decide +kernel)]
    rfl
  · rw [found_searchedStore (by decide +kernel)]
    rfl

end Analysis
end TypeNameLint
