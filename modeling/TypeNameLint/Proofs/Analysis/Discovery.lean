import TypeNameLint.Analysis.Basic
import TypeNameLint.Proofs.FileStore.Descent
import TypeNameLint.Proofs.Ignore.RuleFiles
import TypeNameLint.Proofs.Path.Order
import Mathlib.Data.List.Nodup

/-!
# Discovery — the source files of a run are different files, and stay the same

A run finds its files before it changes any of them, and what it then changes are only files with an
extension. This file defines:

* `Analysis.Walks`: the paths that a walk passes, for a root that is a file and for a directory;
* `Analysis.Apart`: sources that are different files, and are told apart in reports;
* `Analysis.IsSourcePlace`: the places of the sources.

The main results are `apart_sources`, `pairwise_lt_sources` and `sources_of_modifiesOnly`.
-/

namespace TypeNameLint
namespace Analysis

variable {analysis : Analysis} {store before after : FileStore} {paths : List Path} {path : Path}
variable {sources : List Source} {source : Source} {names : Names}

/-! ## Walks -/

/-- The scope of a walk from a directory. -/
def scope (analysis : Analysis) (store : FileStore) (names : Names) : Ignore.Scope :=
  ⟨store, names, analysis.config.discovery.respectsGitignore⟩

/-- The paths that a walk passes. -/
inductive Walks (analysis : Analysis) (store : FileStore) : List Path → Prop
  | file {names : Names} {content : Content}
      (resolved : store.resolve [] analysis.root = .ok names)
      (found : store.entry? names = some (.file content)) :
      Walks analysis store [analysis.root]
  | directory {names : Names}
      (resolved : store.resolve [] analysis.root = .ok names)
      (found : store.entry? names = some .directory)
      (undropped : (analysis.scope store names).droppedAbove = []) :
      Walks analysis store ((analysis.scope store names).visibleFiles.map analysis.root.descend)

theorem walk_eq_ok_iff : analysis.walk store = .ok paths ↔ analysis.Walks store paths := by
  constructor
  · intro h
    rw [walk] at h
    cases hfind : store.find [] analysis.root with
    | error fault => simp [hfind] at h
    | ok entry =>
      -- What the root leads to decides which walk it is.
      rcases FileStore.find_eq_ok_iff.1 hfind with ⟨names, hresolve, hentry⟩
      cases entry with
      | file content =>
        have hpaths : [analysis.root] = paths := by simpa [hfind, hresolve] using h
        rw [← hpaths]
        exact Walks.file hresolve hentry
      | directory =>
        simp only [hfind, hresolve] at h
        split at h
        · rename_i hdropped
          cases h
          exact Walks.directory hresolve hentry hdropped
        · cases h
  · intro h
    cases h with
    | file hresolve hentry =>
      have hfind := FileStore.find_eq_ok_iff.2 ⟨_, hresolve, hentry⟩
      simp [walk, hresolve, hfind]
    | directory hresolve hentry hdropped =>
      have hfind := FileStore.find_eq_ok_iff.2 ⟨_, hresolve, hentry⟩
      rw [scope] at hdropped
      simp only [walk, hresolve, hfind, hdropped]
      rfl

/-! ## Sources -/

theorem sources_of_walks (h : analysis.Walks store paths) :
    analysis.sources store = .ok ((paths.filterMap analysis.source?).mergeSort
      fun a b => (a.path.compare b.path).isLE) := by
  rw [Analysis.sources, walk_eq_ok_iff.2 h]
  rfl

/-- The walk of a root that is a directory, by the files that are visible below it. -/
theorem Walks.of_visibleFiles {names : Names} {root : Path} {visible : List Names}
    (hroot : analysis.root = root) (hresolve : store.resolve [] root = .ok names)
    (hentry : store.entry? names = some .directory)
    (hdropped : (analysis.scope store names).droppedAbove = [])
    (hvisible : (analysis.scope store names).visibleFiles = visible) :
    analysis.Walks store (visible.map root.descend) := by
  subst hroot hvisible
  exact Walks.directory hresolve hentry hdropped

/-- Sources that are found in order stay so. -/
theorem sources_of_pairwise (h : analysis.Walks store paths)
    (hfound : paths.filterMap analysis.source? = sources)
    (hsorted : sources.Pairwise fun a b => (a.path.compare b.path).isLE = true) :
    analysis.sources store = .ok sources := by
  rw [sources_of_walks h, hfound, List.mergeSort_of_pairwise hsorted]

theorem exists_walks_of_sources (h : analysis.sources store = .ok sources) :
    ∃ paths, analysis.Walks store paths := by
  rcases map_eq_ok_iff.1 h with ⟨paths, hwalk, -⟩
  exact ⟨paths, walk_eq_ok_iff.1 hwalk⟩

theorem source?_eq_some (h : analysis.source? path = some source) :
    source.path = path ∧ source.language ∈ analysis.languages ∧ (path.extension?).isSome := by
  rw [source?] at h
  cases hlanguage : analysis.languageFor? path with
  | none => simp [hlanguage] at h
  | some language =>
    have hsource : analysis.isExcluded path = false ∧ ⟨path, language⟩ = source := by
      simpa [hlanguage] using h
    rw [languageFor?] at hlanguage
    rcases Option.bind_eq_some_iff.1 hlanguage with ⟨extension, hextension, hfind⟩
    rw [← hsource.2]
    exact ⟨rfl, List.mem_of_find?_eq_some hfind, by simp [hextension]⟩

/-- A source is one of the paths of the walk, and has a language of the run and an extension. -/
theorem mem_of_mem_sources (hwalks : analysis.Walks store paths)
    (h : analysis.sources store = .ok sources) (hsource : source ∈ sources) :
    source.path ∈ paths ∧ source.language ∈ analysis.languages ∧
      (source.path.extension?).isSome := by
  rw [sources_of_walks hwalks] at h
  cases h
  rcases List.mem_filterMap.1 ((List.mergeSort_perm _ _).mem_iff.1 hsource) with
    ⟨path, hpath, hsome⟩
  rcases source?_eq_some hsome with ⟨rfl, hlanguage, hextension⟩
  exact ⟨hpath, hlanguage, hextension⟩

theorem language_of_mem_sources (h : analysis.sources store = .ok sources)
    (hsource : source ∈ sources) : source.language ∈ analysis.languages := by
  rcases exists_walks_of_sources h with ⟨paths, hwalks⟩
  exact (mem_of_mem_sources hwalks h hsource).2.1

/-- What tells the paths of a walk apart tells the sources apart. -/
theorem pairwise_sources {R : Path → Path → Prop} (hsymm : ∀ {p q}, R p q → R q p)
    (h : analysis.sources store = .ok sources)
    (hpaths : ∀ paths, analysis.Walks store paths → paths.Pairwise R) :
    sources.Pairwise fun a b => R a.path b.path := by
  rcases exists_walks_of_sources h with ⟨paths, hwalks⟩
  rw [sources_of_walks hwalks] at h
  cases h
  -- Sorting only moves the sources, and the filter keeps some of the paths.
  refine ((List.mergeSort_perm _ _).pairwise_iff fun hab => hsymm hab).2 ?_
  refine List.pairwise_filterMap.2 ((hpaths paths hwalks).imp ?_)
  intro p q hpq a ha b hb
  rw [(source?_eq_some ha).1, (source?_eq_some hb).1]
  exact hpq

/-! ## Different files -/

/-- Sources that lead to files, each to its own, and are reported under paths of their own. -/
structure Apart (store : FileStore) (base : Path) (sources : List Source) : Prop where
  leads : ∀ source ∈ sources, ∃ names, store.LeadsToFile [] source.path names
  places : sources.Pairwise fun a b => store.resolve [] a.path ≠ store.resolve [] b.path
  shown : sources.Pairwise fun a b => base.reportedFrom a.path ≠ base.reportedFrom b.path

/-- A reported path tells which source it is. -/
theorem Apart.eq_of_shown_eq {base : Path} {a b : Source} (h : Apart store base sources)
    (ha : a ∈ sources) (hb : b ∈ sources)
    (heq : base.reportedFrom a.path = base.reportedFrom b.path) : a = b :=
  List.inj_on_of_nodup_map (List.pairwise_map.2 h.shown) ha hb heq

/-- So does the place of a source. -/
theorem Apart.eq_of_resolve_eq {base : Path} {a b : Source} (h : Apart store base sources)
    (ha : a ∈ sources) (hb : b ∈ sources)
    (heq : store.resolve [] a.path = store.resolve [] b.path) : a = b :=
  List.inj_on_of_nodup_map (List.pairwise_map.2 h.places) ha hb heq

theorem base_of_directory (hresolve : store.resolve [] analysis.root = .ok names)
    (hentry : store.entry? names = some .directory) : analysis.base store = analysis.root := by
  have hfind := FileStore.find_eq_ok_iff.2 ⟨names, hresolve, hentry⟩
  simp [base, FileStore.isFile, hfind]

/-- The files that a walk from a directory passes lie below it. -/
theorem leadsToFile_of_visible {below : Names} (hwf : store.WellFormed)
    (hresolve : store.resolve [] analysis.root = .ok names)
    (h : below ∈ (analysis.scope store names).visibleFiles) :
    store.LeadsToFile [] (analysis.root.descend below) (names ++ below) ∧
      ∀ name ∈ below, IsName name :=
  FileStore.leadsToFile_descend hwf hresolve (List.mem_filter.1 h).1

/-- What tells different files below a directory apart tells the sources apart. A root that is a
file is the only source. -/
theorem pairwise_of_descend {R : Path → Path → Prop} (hsymm : ∀ {p q}, R p q → R q p)
    (hwf : store.WellFormed) (h : analysis.sources store = .ok sources)
    (hR : ∀ names, store.resolve [] analysis.root = .ok names →
      store.entry? names = some .directory →
        ∀ a ∈ (analysis.scope store names).visibleFiles,
          ∀ b ∈ (analysis.scope store names).visibleFiles, a ≠ b →
            R (analysis.root.descend a) (analysis.root.descend b)) :
    sources.Pairwise fun a b => R a.path b.path := by
  refine pairwise_sources hsymm h ?_
  intro paths hwalks
  cases hwalks with
  | file => exact List.pairwise_singleton R analysis.root
  | @directory names hresolve hentry =>
    have hnodup : (analysis.scope store names).visibleFiles.Pairwise (· ≠ ·) :=
      (FileStore.nodup_below hwf names).sublist List.filter_sublist
    refine List.pairwise_map.2 (hnodup.imp_of_mem ?_)
    intro a b ha hb hne
    exact hR names hresolve hentry a ha b hb hne

theorem exists_resolve_root (h : analysis.sources store = .ok sources) :
    ∃ names, store.resolve [] analysis.root = .ok names := by
  rcases exists_walks_of_sources h with ⟨paths, hwalks⟩
  cases hwalks with
  | file hresolve => exact ⟨_, hresolve⟩
  | directory hresolve => exact ⟨_, hresolve⟩

/-- A source is the root, or lies below it. -/
theorem exists_below_of_mem_sources (hwf : store.WellFormed)
    (hroot : store.resolve [] analysis.root = .ok names) (h : analysis.sources store = .ok sources)
    (hsource : source ∈ sources) :
    ∃ below, store.LeadsToFile [] source.path (names ++ below) := by
  rcases exists_walks_of_sources h with ⟨paths, hwalks⟩
  have hpath : source.path ∈ paths := (mem_of_mem_sources hwalks h hsource).1
  cases hwalks with
  | @file root content hresolve hentry =>
    obtain rfl : root = names := Except.ok.inj (hresolve.symm.trans hroot)
    have hfile := FileStore.entry?_eq_file_iff.1 hentry
    rw [List.mem_singleton.1 hpath]
    exact ⟨[], by simpa using hresolve, by simp [hfile]⟩
  | @directory root hresolve =>
    obtain rfl : root = names := Except.ok.inj (hresolve.symm.trans hroot)
    rcases List.mem_map.1 hpath with ⟨below, hbelow, hsame⟩
    rw [← hsame]
    exact ⟨below, (leadsToFile_of_visible hwf hresolve hbelow).1⟩

theorem leads_of_mem_sources (hwf : store.WellFormed) (h : analysis.sources store = .ok sources)
    (hsource : source ∈ sources) : ∃ names, store.LeadsToFile [] source.path names := by
  rcases exists_resolve_root h with ⟨names, hroot⟩
  rcases exists_below_of_mem_sources hwf hroot h hsource with ⟨below, hleads⟩
  exact ⟨names ++ below, hleads⟩

theorem apart_sources (hwf : store.WellFormed) (h : analysis.sources store = .ok sources) :
    Apart store (analysis.base store) sources where
  leads := fun _ hsource => leads_of_mem_sources hwf h hsource
  places := by
    let R : Path → Path → Prop := fun p q => store.resolve [] p ≠ store.resolve [] q
    refine pairwise_of_descend (R := R) Ne.symm hwf h ?_
    intro names hresolve _ a ha b hb hne heq
    rw [(leadsToFile_of_visible hwf hresolve ha).1.1,
      (leadsToFile_of_visible hwf hresolve hb).1.1] at heq
    exact hne (List.append_cancel_left (Except.ok.inj heq))
  shown := by
    let R : Path → Path → Prop := fun p q =>
      (analysis.base store).reportedFrom p ≠ (analysis.base store).reportedFrom q
    refine pairwise_of_descend (R := R) Ne.symm hwf h ?_
    intro names hresolve hentry a ha b hb hne heq
    have hroot : analysis.root.text ≠ "" := FileStore.text_ne_empty_of_resolve hresolve
    rw [base_of_directory hresolve hentry] at heq
    exact hne (Path.reportedFrom_descend_inj hroot (leadsToFile_of_visible hwf hresolve ha).2
      (leadsToFile_of_visible hwf hresolve hb).2 heq)

/-! ## Order -/

theorem pairwise_isLE_mergeSort (sources : List Source) :
    (sources.mergeSort fun a b => (a.path.compare b.path).isLE).Pairwise
      fun a b => (a.path.compare b.path).isLE = true := by
  refine List.pairwise_mergeSort ?_ ?_ sources
  · exact fun a b c hab hbc => Path.isLE_compare_trans hab hbc
  · exact fun a b => Path.isLE_compare_total a.path b.path

/-- The sources are strictly ordered: no two of them have the same components. -/
theorem pairwise_lt_sources (hwf : store.WellFormed) (h : analysis.sources store = .ok sources) :
    sources.Pairwise fun a b => a.path.compare b.path = .lt := by
  have hapart : sources.Pairwise fun a b => a.path.components ≠ b.path.components := by
    let R : Path → Path → Prop := fun p q => p.components ≠ q.components
    refine pairwise_of_descend (R := R) Ne.symm hwf h ?_
    intro names hresolve _ a ha b hb hne heq
    have hroot : analysis.root.text ≠ "" := FileStore.text_ne_empty_of_resolve hresolve
    rw [Path.components_descend hroot (leadsToFile_of_visible hwf hresolve ha).2,
      Path.components_descend hroot (leadsToFile_of_visible hwf hresolve hb).2] at heq
    exact hne ((List.map_inj_right fun _ _ => Path.Component.name.inj).1
      (List.append_cancel_left heq))
  have hsorted : sources.Pairwise fun a b => (a.path.compare b.path).isLE = true := by
    rcases exists_walks_of_sources h with ⟨paths, hwalks⟩
    rw [sources_of_walks hwalks] at h
    cases h
    exact pairwise_isLE_mergeSort _
  refine (hsorted.and hapart).imp ?_
  rintro a b ⟨hle, hne⟩
  cases hcompare : a.path.compare b.path with
  | lt => rfl
  | eq => exact absurd (Path.compare_eq_eq_iff.1 hcompare) hne
  | gt => simp [hcompare] at hle

/-! ## Discovery after a run -/

/-- The places of the sources. -/
def IsSourcePlace (store : FileStore) (sources : List Source) (names : Names) : Prop :=
  ∃ source ∈ sources, store.resolve [] source.path = .ok names

/-- A path of names below a directory that has an extension ends with a name that has one. -/
theorem exists_nameExtension?_of_descend {below : Names} (hroot : path.text ≠ "")
    (hbelow : ∀ name ∈ below, IsName name) (hne : below ≠ [])
    (hextension : ((path.descend below).extension?).isSome) :
    ∃ above last, below = above ++ [last] ∧ (Path.nameExtension? last).isSome := by
  rcases List.eq_nil_or_concat below with hnil | ⟨above, last, hconcat⟩
  · exact absurd hnil hne
  · rw [List.concat_eq_append] at hconcat
    subst hconcat
    rw [Path.extension?_descend hroot hbelow] at hextension
    exact ⟨above, last, rfl, hextension⟩

/-- Below a root that is a directory the names of the sources have extensions. -/
theorem exists_nameExtension?_of_isSourcePlace {others : Names} (hwf : store.WellFormed)
    (hresolve : store.resolve [] analysis.root = .ok names)
    (hentry : store.entry? names = some .directory)
    (hdropped : (analysis.scope store names).droppedAbove = [])
    (hsources : analysis.sources store = .ok sources)
    (hplace : IsSourcePlace store sources others) :
    ∃ above last, others = above ++ [last] ∧ (Path.nameExtension? last).isSome := by
  rcases hplace with ⟨source, hsource, hplace⟩
  rcases mem_of_mem_sources (Walks.directory hresolve hentry hdropped) hsources hsource with
    ⟨hpath, -, hextension⟩
  rcases List.mem_map.1 hpath with ⟨below, hbelow, hsame⟩
  rcases leadsToFile_of_visible hwf hresolve hbelow with ⟨hleads, hnames⟩
  have hothers : names ++ below = others := by
    rw [← hsame, hleads.1] at hplace
    exact Except.ok.inj hplace
  -- The root is a directory, so no source is at the root.
  have hne : below ≠ [] := by
    rintro rfl
    have hfile := hleads.2
    rw [List.append_nil] at hfile
    exact FileStore.entry?_ne_directory hfile hentry
  rw [← hsame] at hextension
  rcases exists_nameExtension?_of_descend (FileStore.text_ne_empty_of_resolve hresolve) hnames hne
    hextension with ⟨above, last, rfl, hlast⟩
  exact ⟨names ++ above, last, by rw [← hothers, List.append_assoc], hlast⟩

theorem not_isRuleFile_of_nameExtension? {above : Names} {last : String}
    (hextension : (Path.nameExtension? last).isSome) : ¬ Ignore.IsRuleFile (above ++ [last]) := by
  intro hrule
  rcases hrule.nameExtension? with ⟨others, other, hnames, hnone⟩
  have hlast : last = other := by simpa using congrArg List.getLast? hnames
  rw [hlast, hnone] at hextension
  cases hextension

/-- No ignore file is a source. -/
theorem not_isRuleFile_of_isSourcePlace {others : Names} (hwf : store.WellFormed)
    (hresolve : store.resolve [] analysis.root = .ok names)
    (hentry : store.entry? names = some .directory)
    (hdropped : (analysis.scope store names).droppedAbove = [])
    (hsources : analysis.sources store = .ok sources)
    (hplace : IsSourcePlace store sources others) : ¬ Ignore.IsRuleFile others := by
  rcases exists_nameExtension?_of_isSourcePlace hwf hresolve hentry hdropped hsources hplace with
    ⟨above, last, rfl, hextension⟩
  exact not_isRuleFile_of_nameExtension? hextension

/-- Changes to the sources leave the discovery as it is. -/
theorem sources_of_modifiesOnly (hwf : before.WellFormed)
    (hsources : analysis.sources before = .ok sources)
    (hchange : FileStore.ModifiesOnly (IsSourcePlace before sources) before after) :
    analysis.sources after = .ok sources := by
  rcases exists_walks_of_sources hsources with ⟨paths, hwalks⟩
  -- The walk is kept; the sources are computed from its paths alone.
  have hkept : analysis.Walks after paths := by
    cases hwalks with
    | @file names content hresolve hentry =>
      have hresolve' := (hchange.resolve_eq [] analysis.root).trans hresolve
      rcases hchange.entry?_cases names with ⟨old, new, -, hafter⟩ | ⟨heq, -⟩
      · exact Walks.file hresolve' hafter
      · exact Walks.file hresolve' (heq ▸ hentry)
    | @directory names hresolve hentry hdropped =>
      have hresolve' := (hchange.resolve_eq [] analysis.root).trans hresolve
      have hentry' : after.entry? names = some .directory := by
        rcases hchange.entry?_cases names with ⟨old, new, hbefore, -⟩ | ⟨heq, -⟩
        · rw [hbefore] at hentry
          cases hentry
        · exact heq ▸ hentry
      -- An ignore file is no source, so it holds what it held.
      have hrules : ∀ names, Ignore.IsRuleFile names → after.file? names = before.file? names := by
        intro others hrule
        refine hchange.elsewhere others fun hplace => ?_
        exact not_isRuleFile_of_isSourcePlace hwf hresolve hentry hdropped hsources hplace hrule
      have hvisible : (analysis.scope after names).visibleFiles =
          (analysis.scope before names).visibleFiles := by
        have hbelow : after.below names = (before.below names).filter fun _ => true :=
          (hchange.below_eq names).trans (List.filter_eq_self.2 fun _ _ => rfl).symm
        have hkept := @Ignore.Scope.visibleFiles_inStore (analysis.scope before names) after hrules
          (fun _ => hchange.isSome_entry?_eq _) _ hbelow
        rwa [List.filter_eq_self.2 fun _ _ => rfl] at hkept
      have hdropped' : (analysis.scope after names).droppedAbove =
          (analysis.scope before names).droppedAbove :=
        @Ignore.Scope.droppedAbove_inStore (analysis.scope before names) after hrules
      rw [← hvisible]
      exact Walks.directory hresolve' hentry' (hdropped'.trans hdropped)
  calc
    analysis.sources after
        = .ok ((paths.filterMap analysis.source?).mergeSort
            fun a b => (a.path.compare b.path).isLE) := sources_of_walks hkept
    _ = analysis.sources before := (sources_of_walks hwalks).symm
    _ = .ok sources := hsources

theorem base_of_sameShape (h : FileStore.SameShape before after) :
    analysis.base after = analysis.base before := by
  simp only [base, h.isFile_eq]

end Analysis
end TypeNameLint
