import TypeNameLint.Proofs.Analysis.Exclusion
import TypeNameLint.Proofs.Analysis.Spelling
import TypeNameLint.Proofs.Tree.Order

/-!
# ReportOrder — the order of the violations that a run reports

A run puts the violations of its files one after the other and then sorts them. The sort is stable,
so violations at one place stay in the order of the rules and of the nodes. This file defines:

* `Analysis.FindsIn`: what the rules find in the text that a run leaves of a source;
* `Analysis.ReportsInOrder`: a report told from what is found in the single files.

The main result is `reportsInOrder_run`. With a single rule that bans names nothing is left to sort,
since files are visited in the order of the paths they are reported under.
-/

namespace TypeNameLint

/-! ## Keys -/

theorem Location.isLE_compare_of_file_lt {a b : Location} (h : a.file.compare b.file = .lt) :
    (a.compare b).isLE = true := by
  rw [compare, h]
  rfl

/-- What the order of reports looks at: the components of the file, the line and the column. -/
def Violation.HasKey (v : Violation) (file : List Path.Component) (line column : Nat) : Prop :=
  v.location.file.components = file ∧ v.location.line = line ∧ v.location.column = column

instance (v : Violation) (file : List Path.Component) (line column : Nat) :
    Decidable (v.HasKey file line column) :=
  inferInstanceAs (Decidable (_ ∧ _ ∧ _))

theorem Violation.HasKey.compare_eq {v w : Violation} {file : List Path.Component}
    {line column : Nat} (hv : v.HasKey file line column) (hw : w.HasKey file line column) :
    v.location.compare w.location = .eq := by
  rcases hv with ⟨hvfile, hvline, hvcolumn⟩
  rcases hw with ⟨hwfile, hwline, hwcolumn⟩
  have hfile : v.location.file.compare w.location.file = .eq :=
    Path.compare_eq_eq_iff.2 (hvfile.trans hwfile.symm)
  simp [Location.compare, hfile, hvline, hvcolumn, hwline, hwcolumn]

/-- Violations with one key keep their order. -/
theorem filter_hasKey_inOrder (violations : List Violation) (file : List Path.Component)
    (line column : Nat) :
    (inOrder violations).filter (fun v => decide (v.HasKey file line column)) =
      violations.filter fun v => decide (v.HasKey file line column) := by
  rw [filter_inOrder]
  refine inOrder_of_pairwise (List.pairwise_of_forall_mem_list ?_)
  intro v hv w hw
  have hkey : v.HasKey file line column := by simpa using (List.mem_filter.1 hv).2
  have hkey' : w.HasKey file line column := by simpa using (List.mem_filter.1 hw).2
  rw [hkey.compare_eq hkey']
  rfl

/-! ## One file -/

/-- The violations of a ban in a file come in document order, which is the order of reports. -/
theorem BanRule.pairwise_check (ban : BanRule) {file : SourceFile} {tree : Tree}
    (hwf : tree.WellFormed file.content.toList) :
    (ban.check file tree).Pairwise fun a b => (a.location.compare b.location).isLE = true := by
  rw [check_eq_filterMap]
  refine List.pairwise_filterMap.2 ((hwf.pairwise_locationOf file.path).imp ?_)
  intro p q hpq v hv w hw
  rw [location_of_atPlace hv, location_of_atPlace hw]
  exact hpq

namespace Analysis

variable {analysis : Analysis} {base : Path} {store after : FileStore} {source : Source}
variable {sources : List Source} {result : LintResult} {ds : List Draft} {draft : Draft}
variable {found : List Violation}

/-- What the rules find, in the order of their registration, in the text that a run leaves of a
source. -/
def FindsIn (analysis : Analysis) (base : Path) (after : FileStore) (source : Source)
    (found : List Violation) : Prop :=
  ∃ text tree, after.read [] source.path = .ok text ∧ source.language.parse text = some tree ∧
    found = analysis.rules.flatMap
      (analysis.applyRule ⟨base.reportedFrom source.path, text⟩ tree)

/-- Severities are no part of the order, so a single ban reports a file in order. -/
theorem FindsIn.pairwise {ban : BanRule} (hrules : analysis.rules = [ban.toRule])
    (hparse : source.language.ParsesWell) (h : analysis.FindsIn base after source found) :
    found.Pairwise fun a b => (a.location.compare b.location).isLE = true := by
  rcases h with ⟨text, tree, -, htree, rfl⟩
  rw [hrules, List.flatMap_singleton, applyRule]
  split
  · refine List.pairwise_map.2 ?_
    simp only [location_withConfigured]
    exact ban.pairwise_check (hparse text tree htree)
  · exact List.Pairwise.nil

/-! ## All files -/

/-- The sources are visited in the order of the paths that they are reported under. -/
theorem pairwise_reportedFrom (hwf : store.WellFormed) (h : analysis.sources store = .ok sources) :
    sources.Pairwise fun a b =>
      ((analysis.base store).reportedFrom a.path).compare
        ((analysis.base store).reportedFrom b.path) = .lt := by
  rcases exists_walks_of_sources h with ⟨paths, hwalks⟩
  cases hwalks with
  -- A root that is a file is the only source.
  | file hresolve hentry =>
    rw [sources_of_walks (Walks.file hresolve hentry)] at h
    cases h
    cases hsource : analysis.source? analysis.root <;> simp [hsource]
  | @directory names hresolve hentry hdropped =>
    have hwalks := Walks.directory hresolve hentry hdropped
    have hroot := FileStore.text_ne_empty_of_resolve hresolve
    have hcomponents : ∀ source ∈ sources, source.path.components =
        analysis.root.components ++ (analysis.root.reportedFrom source.path).components := by
      intro source hsource
      rcases List.mem_map.1 (mem_of_mem_sources hwalks h hsource).1 with ⟨below, hbelow, hpath⟩
      have hnames := (leadsToFile_of_visible hwf hresolve hbelow).2
      have hdescend := Path.components_descend hroot hnames
      rw [← hpath, Path.components_reportedFrom hroot hdescend, hdescend]
    rw [base_of_directory hresolve hentry]
    refine (pairwise_lt_sources hwf h).imp_of_mem ?_
    intro a b ha hb hab
    rw [Path.compare, hcomponents a ha, hcomponents b hb, Path.compareComponents_append] at hab
    exact hab

/-- In the end the sources that were checked hold what their violations were found in. -/
theorem forall₂_findsIn (hds : analysis.drafts base store sources = .ok ds)
    (houtcome : IsOutcome analysis base .empty store sources ⟨.ok result, after⟩) :
    List.Forall₂ (analysis.FindsIn base after) (analysis.checked base store sources)
      (ds.map Draft.violations) := by
  rcases drafts_eq_ok_iff.1 hds with ⟨-, rfl⟩
  rw [List.forall₂_map_right_iff]
  have hmem : ∀ source ∈ analysis.checked base store sources, source ∈ sources :=
    fun source hsource => (List.mem_filter.1 hsource).1
  have hdrafts := forall₂_filterMap (analysis.draft? base store) sources
  refine ((List.forall₂_and_left _ _).2 ⟨hmem, hdrafts⟩).imp ?_
  rintro source draft ⟨hsource, hdraft⟩
  have hdraft := draft?_eq_some_iff.1 hdraft
  rcases Option.map_eq_some_iff.1 (isCurrent_of_draftOf hdraft) with ⟨tree, htree, hfound⟩
  exact ⟨draft.text, tree, houtcome.left ⟨_, hds⟩ source hsource draft hdraft, htree, hfound.symm⟩

/-- Violations of different files are in order if the files are. -/
theorem pairwise_flatten_violations (hrules : ∀ rule ∈ analysis.rules, rule.StaysInFile)
    (hsources : sources.Pairwise fun a b =>
      (base.reportedFrom a.path).compare (base.reportedFrom b.path) = .lt)
    (hds : analysis.drafts base store sources = .ok ds)
    (hfiles : ∀ found ∈ ds.map Draft.violations,
      found.Pairwise fun a b => (a.location.compare b.location).isLE = true) :
    (ds.map Draft.violations).flatten.Pairwise fun a b =>
      (a.location.compare b.location).isLE = true := by
  refine List.pairwise_flatten.2 ⟨hfiles, ?_⟩
  rcases drafts_eq_ok_iff.1 hds with ⟨-, rfl⟩
  refine List.pairwise_map.2 (List.pairwise_filterMap.2 (hsources.imp ?_))
  intro a b hab draft hdraft other hother v hv w hw
  refine Location.isLE_compare_of_file_lt ?_
  rw [file_of_mem_violations hrules (draft?_eq_some_iff.1 hdraft) v hv,
    file_of_mem_violations hrules (draft?_eq_some_iff.1 hother) w hw]
  exact hab

/-! ## The report -/

/-- The violations of a report are those found in the single files, put into the order of reports.
Where this order does not tell them apart they stay as they were found: files in the order of
visits, in a file rule by rule, and of a ban in document order. With a single ban they are in order
as they are found. -/
structure ReportsInOrder (analysis : Analysis) (found : List (List Violation))
    (violations : List Violation) : Prop where
  perm : violations.Perm found.flatten
  ordered : violations.Pairwise fun a b => (a.location.compare b.location).isLE = true
  stable : ∀ file line column,
    violations.filter (fun v => decide (v.HasKey file line column)) =
      found.flatten.filter fun v => decide (v.HasKey file line column)
  single : ∀ ban : BanRule, analysis.rules = [ban.toRule] → violations = found.flatten

/-- A run that succeeds visits its sources in the order of the paths that reports show, and reports
in order what it finds in each of them. What a ban finds is listed in document order. -/
theorem reportsInOrder_run (analysis : Analysis) (store : FileStore) (result : LintResult)
    (hwf : store.WellFormed) (hlanguages : ∀ language ∈ analysis.languages, language.ParsesWell)
    (hrun : (analysis.run store).result = .ok result) :
    ∃ sources found, analysis.sources store = .ok sources ∧
      (sources.Pairwise fun a b =>
        ((analysis.base store).reportedFrom a.path).compare
          ((analysis.base store).reportedFrom b.path) = .lt) ∧
      List.Forall₂ (analysis.FindsIn (analysis.base store) (analysis.run store).store)
        (analysis.checked (analysis.base store) store sources) found ∧
      analysis.ReportsInOrder found result.violations ∧
      ∀ (ban : BanRule) (file : SourceFile) (tree : Tree),
        tree.WellFormed file.content.toList →
          ban.toRule.check file tree = tree.places.filterMap (ban.atPlace file) ∧
            tree.places.map Cursor.focus = tree.preorder ∧
              (ban.toRule.check file tree).Pairwise fun a b =>
                (a.location.compare b.location).isLE = true := by
  rcases exists_sources_of_run hrun with ⟨sources, hsources⟩
  rcases exists_drafts_of_run hwf hsources hrun with ⟨ds, hds, rfl, houtcome⟩
  have hshown := pairwise_reportedFrom hwf hsources
  have hfound := forall₂_findsIn hds houtcome
  have hviolations : (sorted (ds.foldl addDraft .empty)).violations =
      inOrder (ds.map Draft.violations).flatten := by
    rw [sorted, violations_foldl_addDraft, List.flatMap_def]
    rfl
  refine ⟨sources, _, hsources, hshown, hfound, ?_, fun ban file tree htree => ?_⟩
  · rw [hviolations]
    refine ⟨List.mergeSort_perm _ _, pairwise_inOrder _, filter_hasKey_inOrder _, ?_⟩
    intro ban hrules
    have hstays : ∀ rule ∈ analysis.rules, rule.StaysInFile := by
      intro rule hrule
      rw [hrules, List.mem_singleton] at hrule
      exact hrule ▸ ban.staysInFile_toRule
    refine inOrder_of_pairwise (pairwise_flatten_violations hstays hshown hds ?_)
    intro found hmem
    rcases exists_of_mem_of_forall₂ hfound.flip found hmem with ⟨source, hsource, hfinds⟩
    have hlanguage := language_of_mem_sources hsources (List.mem_filter.1 hsource).1
    exact FindsIn.pairwise hrules (hlanguages _ hlanguage) hfinds
  · exact ⟨BanRule.check_eq_filterMap ban file tree, Tree.map_focus_places tree,
      ban.pairwise_check htree⟩

/-- What is reported of the banned name in one file of the pair. -/
def pairViolation (file : Path) : Violation :=
  sampleBan.ban "String" (.record "" (some "string")) ⟨file, 1, 4, 3, 6⟩

theorem drafts_pairSources :
    (fixing.withFixes false).drafts ⟨"/w"⟩ pairStore pairSources =
      .ok [⟨"x: String", [pairViolation ⟨"a.ts"⟩], 0⟩,
        ⟨"x: String", [pairViolation ⟨"b.ts"⟩], 0⟩] := by
  have hread : pairStore.read [] ⟨"/w/a.ts"⟩ = .ok "x: String" ∧
      pairStore.read [] ⟨"/w/b.ts"⟩ = .ok "x: String" := by decide +kernel
  have hshown : Path.reportedFrom ⟨"/w"⟩ ⟨"/w/a.ts"⟩ = ⟨"a.ts"⟩ ∧
      Path.reportedFrom ⟨"/w"⟩ ⟨"/w/b.ts"⟩ = ⟨"b.ts"⟩ := by decide +kernel
  have hlint : ∀ file ∈ [(⟨"a.ts"⟩ : Path), ⟨"b.ts"⟩],
      (fixing.withFixes false).lint file sampleLanguage "x: String" =
        some [pairViolation file] := by
    intro file hfile
    rw [lint_of_ban rfl rfl]
    rcases List.mem_pair.1 hfile with rfl | rfl <;> decide +kernel
  have ha := hlint ⟨"a.ts"⟩ (by simp)
  have hb := hlint ⟨"b.ts"⟩ (by simp)
  simp only [pairSources, drafts, draftOf, hread, hshown, examine, ha, hb]
  rfl

/-- Of two files with the banned name the one whose path comes first is reported first. -/
theorem run_pairStore_in_order :
    pairStore.WellFormed ∧ (∀ language ∈ fixing.languages, language.ParsesWell) ∧
      ∃ result, ((fixing.withFixes false).run pairStore).result = .ok result ∧
        result.violations = [pairViolation ⟨"a.ts"⟩, pairViolation ⟨"b.ts"⟩] ∧
          ∃ found, (fixing.withFixes false).ReportsInOrder found result.violations := by
  have hwf : pairStore.WellFormed := by decide +kernel
  have hlanguages : ∀ language ∈ fixing.languages, language.ParsesWell := by
    intro language hlanguage
    rw [List.mem_singleton.1 hlanguage]
    exact parsesAll_sampleLanguage.parsesWell
  have hbase : (fixing.withFixes false).base pairStore = ⟨"/w"⟩ := by decide +kernel
  have hsources : (fixing.withFixes false).sources pairStore = .ok pairSources := sources_pairStore
  have hrun := (run_of_drafts hwf hsources (hbase ▸ drafts_pairSources)).1
  rcases reportsInOrder_run (fixing.withFixes false) pairStore _ hwf hlanguages hrun with
    ⟨_, found, -, -, -, hfound, -⟩
  have hordered : [pairViolation ⟨"a.ts"⟩, pairViolation ⟨"b.ts"⟩].Pairwise fun a b =>
      (a.location.compare b.location).isLE = true := by decide +kernel
  exact ⟨hwf, hlanguages, _, hrun, inOrder_of_pairwise hordered, found, hfound⟩

end Analysis
end TypeNameLint
