import TypeNameLint.Proofs.Analysis.Visits
import TypeNameLint.Proofs.FileStore.Removal
import TypeNameLint.Proofs.Report.Order

/-!
# Absence — a source without a draft could as well not be there

A source is no ignore file, so without it the same other sources are found, in the same order. If it
has no draft and that is tolerated, the visits to the others come to the same as well. The main
results are `sources_without` and `run_without`.
-/

namespace TypeNameLint
namespace Analysis

open FileStore (LeadsToFile ModifiesOnly SameShape)

variable {analysis : Analysis} {base : Path} {store after : FileStore} {source : Source}
variable {sources : List Source} {names others root : Names} {result : LintResult}

/-! ## Discovery -/

/-- Leaving out sources before or after they are sorted makes no difference. -/
theorem filter_mergeSort_sources (p : Source → Bool) (found : List Source) :
    (found.mergeSort fun a b => (a.path.compare b.path).isLE).filter p =
      (found.filter p).mergeSort fun a b => (a.path.compare b.path).isLE := by
  refine filter_mergeSort p ?_ ?_ found
  · exact fun a b c hab hbc => Path.isLE_compare_trans hab hbc
  · exact fun a b => Path.isLE_compare_total a.path b.path

theorem isSome_file?_of_isSourcePlace (hwf : store.WellFormed)
    (hsources : analysis.sources store = .ok sources)
    (hplace : IsSourcePlace store sources names) : (store.file? names).isSome := by
  rcases hplace with ⟨source, hsource, hresolve⟩
  rcases leads_of_mem_sources hwf hsources hsource with ⟨others, hleads⟩
  obtain rfl : others = names := Except.ok.inj (hleads.1.symm.trans hresolve)
  exact hleads.2

/-- The sources that are elsewhere. -/
def elsewhere (store : FileStore) (names : Names) (sources : List Source) : List Source :=
  sources.filter fun source => store.resolve [] source.path ≠ .ok names

section Directory

variable (hwf : store.WellFormed) (hresolve : store.resolve [] analysis.root = .ok root)
include hwf hresolve

/-- A source is elsewhere exactly if the names below the root are others. -/
theorem elsewhere_filterMap_source? (names : Names) :
    elsewhere store names
        (((analysis.scope store root).visibleFiles.map analysis.root.descend).filterMap
          analysis.source?) =
      (((analysis.scope store root).visibleFiles.filter fun below => root ++ below ≠ names).map
        analysis.root.descend).filterMap analysis.source? := by
  rw [elsewhere, List.filterMap_map, List.filterMap_map, List.filterMap_filter,
    List.filter_filterMap]
  refine List.filterMap_congr fun below hbelow => ?_
  have hleads := (leadsToFile_of_visible hwf hresolve hbelow).1
  rw [Function.comp_apply]
  cases hsource : analysis.source? (analysis.root.descend below) with
  | none => simp
  | some source =>
    have hpath := (source?_eq_some hsource).1
    by_cases hsame : root ++ below = names <;> simp [hsame, hpath, hleads.1, Option.filter]

/-- Without one of its sources a walk passes the same other paths below its root: the source is
neither an ignore file nor the top of a repository. -/
theorem walks_without (hentry : store.entry? root = some .directory)
    (hdropped : (analysis.scope store root).droppedAbove = [])
    (hsources : analysis.sources store = .ok sources)
    (hplace : IsSourcePlace store sources names) :
    analysis.Walks (store.without names)
      (((analysis.scope store root).visibleFiles.filter fun below => root ++ below ≠ names).map
        analysis.root.descend) := by
  have hfile := isSome_file?_of_isSourcePlace hwf hsources hplace
  have hother : root ≠ names := by
    rintro rfl
    exact FileStore.entry?_ne_directory hfile hentry
  have hrules : ∀ others, Ignore.IsRuleFile others →
      (store.without names).file? others = store.file? others := by
    intro others hrule
    rw [FileStore.file?_without, if_neg]
    rintro rfl
    exact not_isRuleFile_of_isSourcePlace hwf hresolve hentry hdropped hsources hplace hrule
  have htops : ∀ directory,
      (FileStore.entry? (store.without names) (Ignore.Scope.repository directory)).isSome =
        (store.entry? (Ignore.Scope.repository directory)).isSome := by
    intro directory
    rw [FileStore.entry?_without hwf hfile, if_neg]
    rintro rfl
    rcases exists_nameExtension?_of_isSourcePlace hwf hresolve hentry hdropped hsources hplace with
      ⟨above, last, hsplit, hlast⟩
    have hgit : ".git" = last := by
      simpa [Ignore.Scope.repository] using congrArg List.getLast? hsplit
    rw [← hgit] at hlast
    exact absurd hlast (by decide)
  have hvisible : (analysis.scope (store.without names) root).visibleFiles =
      (analysis.scope store root).visibleFiles.filter fun below => root ++ below ≠ names :=
    @Ignore.Scope.visibleFiles_inStore (analysis.scope store root) _ hrules htops _
      (FileStore.below_without store names root)
  have hdropped' : (analysis.scope (store.without names) root).droppedAbove = [] :=
    (@Ignore.Scope.droppedAbove_inStore (analysis.scope store root) _ hrules).trans hdropped
  have hresolve' := (FileStore.resolve_without hwf hfile).2 hresolve
  have hentry' : FileStore.entry? (store.without names) root = some .directory := by
    rw [FileStore.entry?_without hwf hfile, if_neg hother, hentry]
  rw [← hvisible]
  exact Walks.directory hresolve' hentry' hdropped'

end Directory

/-- Without one of its sources a run finds the others. -/
theorem sources_without (hwf : store.WellFormed) (hsources : analysis.sources store = .ok sources)
    (hplace : IsSourcePlace store sources names)
    (hroot : store.resolve [] analysis.root ≠ .ok names) :
    analysis.sources (store.without names) = .ok (elsewhere store names sources) := by
  rcases exists_walks_of_sources hsources with ⟨paths, hwalks⟩
  cases hwalks with
  | file hresolve hentry =>
    -- The root is the only source, and it is elsewhere.
    rcases hplace with ⟨source, hsource, hplace⟩
    have hpath := (mem_of_mem_sources (Walks.file hresolve hentry) hsources hsource).1
    rw [List.mem_singleton.1 hpath] at hplace
    exact absurd hplace hroot
  | directory hresolve hentry hdropped =>
    have hkept := walks_without hwf hresolve hentry hdropped hsources hplace
    rw [sources_of_walks hkept, ← elsewhere_filterMap_source? hwf hresolve]
    rw [sources_of_walks (Walks.directory hresolve hentry hdropped)] at hsources
    cases hsources
    exact congrArg Except.ok (filter_mergeSort_sources _ _).symm

/-! ## Visits -/

/-- A visit elsewhere does the same with the file and without it. -/
theorem visit_without (hwf : store.WellFormed) (hfile : (store.file? names).isSome)
    (hresolve : store.resolve [] source.path = .ok others) (hne : others ≠ names) :
    analysis.visit base (store.without names) source =
      (analysis.visit base store source).map fun visit =>
        ⟨visit.draft, visit.store.without names⟩ := by
  have hread : (store.without names).read [] source.path = store.read [] source.path := by
    simp only [FileStore.read, FileStore.find_without hwf hfile hresolve hne]
  rw [visit, visit, hread]
  cases store.read [] source.path with
  | error fault => rfl
  | ok text =>
    dsimp only
    cases examine analysis.fixes
        (analysis.lint (base.reportedFrom source.path) source.language) text with
    | none => rfl
    | some draft =>
      dsimp only
      split
      · rfl
      · rw [FileStore.write_without hwf hfile hresolve hne]
        cases store.write [] source.path draft.text <;> rfl

theorem elsewhere_of_sameShape (hshape : SameShape store after) :
    elsewhere after names sources = elsewhere store names sources := by
  simp only [elsewhere, hshape.resolve_eq]

/-- The visits come to the same without a file that has no draft. -/
theorem visitAll_without (hwf : store.WellFormed) (hfile : (store.file? names).isSome)
    (htolerated : analysis.failsWithoutTree = false)
    (hleads : ∀ source ∈ sources, ∃ others, store.LeadsToFile [] source.path others)
    (hnone : ∀ source ∈ sources, store.resolve [] source.path = .ok names →
      analysis.draftOf base store source = .ok none) :
    analysis.visitAll base result (store.without names) (elsewhere store names sources) =
      ⟨(analysis.visitAll base result store sources).result,
        (analysis.visitAll base result store sources).store.without names⟩ := by
  induction sources generalizing store result with
  | nil => rfl
  | cons source sources ih =>
    have hleads' := fun other hother => hleads other (List.mem_cons_of_mem source hother)
    have hnone' := fun other hother => hnone other (List.mem_cons_of_mem source hother)
    rcases hleads source (by simp) with ⟨others, hresolve, hsome⟩
    by_cases hsame : others = names
    -- The source is the one that is left out, and its visit does nothing.
    · subst hsame
      have hskipped : elsewhere store others (source :: sources) =
          elsewhere store others sources := by
        simp [elsewhere, hresolve]
      rw [hskipped, visitAll, visit_of_no_draft (hnone source (by simp) hresolve)]
      simp only [htolerated, Bool.false_eq_true, if_false]
      exact ih hwf hfile hleads' hnone'
    · have hkept : elsewhere store names (source :: sources) =
          source :: elsewhere store names sources := by
        simp [elsewhere, hresolve, hsame]
      rw [hkept, visitAll, visitAll, visit_without hwf hfile hresolve hsame]
      cases hdraft : analysis.draftOf base store source with
      | error fault =>
        rw [visit_of_fault hdraft]
        rfl
      | ok found =>
        cases found with
        | none =>
          rw [visit_of_no_draft hdraft]
          simp only [Except.map, htolerated, Bool.false_eq_true, if_false]
          exact ih hwf hfile hleads' hnone'
        | some draft =>
          rcases visit_of_draft hwf ⟨hresolve, hsome⟩ hdraft with ⟨after, hvisit, hchange, -⟩
          rw [hvisit]
          simp only [Except.map]
          -- The visits go on from the store after this one, which is of the same shape.
          rw [← elsewhere_of_sameShape hchange.toSameShape]
          refine ih (hchange.wellFormed hwf) ?_ ?_ ?_
          · rwa [hchange.isSome_file?_eq]
          · intro other hother
            rcases hleads' other hother with ⟨place, hplace, hfound⟩
            refine ⟨place, (hchange.resolve_eq [] other.path).trans hplace, ?_⟩
            rwa [hchange.isSome_file?_eq]
          · intro other hother hplace
            rw [hchange.resolve_eq] at hplace
            rw [draftOf_of_modifiesOnly hchange, hnone' other hother hplace]
            intro place hplace' heq
            rw [hplace] at hplace'
            exact hsame (heq.symm.trans (Except.ok.inj hplace').symm)

/-! ## Runs -/

/-- A run comes to the same without a source that has no draft, and leaves the other files as it
would leave them anyway. -/
theorem run_without (hwf : store.WellFormed) (hsources : analysis.sources store = .ok sources)
    (hplace : IsSourcePlace store sources names)
    (hroot : store.resolve [] analysis.root ≠ .ok names)
    (htolerated : analysis.failsWithoutTree = false)
    (hnone : ∀ source ∈ sources, store.resolve [] source.path = .ok names →
      analysis.draftOf (analysis.base store) store source = .ok none) :
    analysis.run (store.without names) =
      ⟨(analysis.run store).result, (analysis.run store).store.without names⟩ := by
  have hfile := isSome_file?_of_isSourcePlace hwf hsources hplace
  have hbase : analysis.base (store.without names) = analysis.base store := by
    rcases exists_resolve_root hsources with ⟨root, hresolve⟩
    have hne : root ≠ names := by
      rintro rfl
      exact hroot hresolve
    have hisFile : (store.without names).isFile [] analysis.root =
        store.isFile [] analysis.root := by
      simp only [FileStore.isFile, FileStore.find_without hwf hfile hresolve hne]
    rw [base, base, hisFile]
  have hvisits := @visitAll_without analysis (analysis.base store) _ _ _ .empty hwf hfile htolerated
    (fun source hsource => leads_of_mem_sources hwf hsources hsource) hnone
  rw [run_of_sources (sources_without hwf hsources hplace hroot), run_of_sources hsources, hbase,
    hvisits]

/-- A run whose root is a source without a draft finds nothing and changes nothing. -/
theorem run_of_root (hwf : store.WellFormed) (hsources : analysis.sources store = .ok sources)
    (hplace : IsSourcePlace store sources names)
    (hroot : store.resolve [] analysis.root = .ok names)
    (htolerated : analysis.failsWithoutTree = false)
    (hnone : ∀ source ∈ sources, store.resolve [] source.path = .ok names →
      analysis.draftOf (analysis.base store) store source = .ok none) :
    analysis.run store = ⟨.ok .empty, store⟩ := by
  have hfile := isSome_file?_of_isSourcePlace hwf hsources hplace
  have hempty : sorted .empty = .empty := sorted_of_pairwise .nil
  rw [run_of_sources hsources]
  rcases exists_walks_of_sources hsources with ⟨paths, hwalks⟩
  cases hwalks with
  | @directory root hresolve hentry =>
    obtain rfl : root = names := Except.ok.inj (hresolve.symm.trans hroot)
    exact absurd hentry (FileStore.entry?_ne_directory hfile)
  | file hresolve hentry =>
    have hfound := sources_of_walks (Walks.file hresolve hentry)
    -- The root is the only file that is walked.
    cases hsource : analysis.source? analysis.root with
    | none =>
      rw [hsources, List.filterMap_cons_none hsource, List.filterMap_nil, List.mergeSort_nil]
        at hfound
      cases hfound
      rcases hplace with ⟨source, hmem, -⟩
      cases hmem
    | some source =>
      rw [hsources, List.filterMap_cons_some hsource, List.filterMap_nil,
        List.mergeSort_singleton] at hfound
      cases hfound
      have hpath : source.path = analysis.root := (source?_eq_some hsource).1
      have hdraft := hnone source (by simp) (by rw [hpath, hroot])
      simp only [visitAll, visit_of_no_draft hdraft, htolerated, Bool.false_eq_true, if_false,
        Except.map, hempty]

end Analysis
end TypeNameLint
