import TypeNameLint.Proofs.Analysis.Requests
import TypeNameLint.Proofs.Analysis.Settled
import TypeNameLint.Proofs.Analysis.Stopping
import Mathlib.Data.List.Perm.Basic

/-!
# Exclusion — more patterns leave files out, and do nothing else

The files of a run do not see each other, so a run with more patterns does to the files that are
left what it did before. This file defines:

* `Rule.StaysInFile`: rules that report no other file than the one that they look at;
* `Analysis.draft?`, `Analysis.checked`: the sources that a run checks, and their drafts;
* `Analysis.leavesOut`, `Analysis.reportsLeftOut`: the paths that patterns exclude, as they are
  walked and as they are reported;
* `Analysis.withPatterns`, `Analysis.withExcludes`: requests and runs with other patterns.

The main result is `run_of_more_patterns`.
-/

namespace TypeNameLint

/-! ## Rules -/

/-- The violations that a rule finds in a file are in that file. -/
def Rule.StaysInFile (rule : Rule) : Prop :=
  ∀ file tree, ∀ v ∈ rule.check file tree, v.location.file = file.path

theorem BanRule.file_of_verdict {rule : BanRule} {key : String} {spec : BanSpec}
    {location : Location} {exemption : Exemption} {v : Violation}
    (h : rule.verdict key spec location exemption = some v) : v.location = location := by
  unfold verdict at h
  split at h
  · cases h
    rfl
  · split at h
    · cases h
      rfl
    · cases h
  · cases h

theorem BanRule.staysInFile_toRule (rule : BanRule) : rule.toRule.StaysInFile := by
  intro file tree v hv
  have hcheck : v ∈ rule.check file tree := hv
  rw [check] at hcheck
  split at hcheck
  · cases hcheck
  · rcases List.mem_filterMap.1 hcheck with ⟨use, -, huse⟩
    rw [checkUse] at huse
    split at huse
    · cases huse
    · dsimp only at huse
      split at huse
      · cases huse
      · rw [BanRule.file_of_verdict huse]
        rfl

namespace Analysis

variable {analysis : Analysis} {base : Path} {store : FileStore} {source : Source} {draft : Draft}
variable {sources : List Source} {ds : List Draft} {result : LintResult} {names : Names}

theorem file_of_mem_lint_of_stays {language : Language} {shown : Path} {text : String}
    {violations : List Violation} {v : Violation}
    (hrules : ∀ rule ∈ analysis.rules, rule.StaysInFile)
    (hlint : analysis.lint shown language text = some violations) (hv : v ∈ violations) :
    v.location.file = shown := by
  rcases exists_rule_of_mem_lint hlint hv with ⟨tree, -, rule, hrule, found, hfound, rfl⟩
  rw [location_withConfigured]
  exact hrules rule hrule _ tree found hfound

theorem file_of_mem_violations (hrules : ∀ rule ∈ analysis.rules, rule.StaysInFile)
    (hdraft : analysis.draftOf base store source = .ok (some draft)) :
    ∀ v ∈ draft.violations, v.location.file = base.reportedFrom source.path :=
  fun _ => file_of_mem_lint_of_stays hrules (isCurrent_of_draftOf hdraft)

/-! ## Drafts -/

/-- The draft of a source, if it has one. -/
def draft? (analysis : Analysis) (base : Path) (store : FileStore) (source : Source) :
    Option Draft :=
  match analysis.draftOf base store source with
  | .ok found => found
  | .error _ => none

theorem draft?_eq_some_iff :
    analysis.draft? base store source = some draft ↔
      analysis.draftOf base store source = .ok (some draft) := by
  rw [draft?]
  cases analysis.draftOf base store source <;> simp

/-- Sources that do not end the run have their drafts in order, apart from those without one. -/
theorem drafts_eq_ok_iff :
    analysis.drafts base store sources = .ok ds ↔
      (∀ source ∈ sources, analysis.stop? base store source = none) ∧
        sources.filterMap (analysis.draft? base store) = ds := by
  induction sources generalizing ds with
  | nil => simp [drafts]
  | cons source sources ih =>
    rw [drafts, List.forall_mem_cons, stop?, List.filterMap_cons, draft?]
    cases hdraft : analysis.draftOf base store source with
    | error fault => simp
    | ok found =>
      cases found with
      | none => cases hstrict : analysis.failsWithoutTree <;> simp [ih]
      | some draft =>
        constructor
        · intro h
          rcases map_eq_ok_iff.1 h with ⟨rest, hrest, rfl⟩
          rcases ih.1 hrest with ⟨hstop, rfl⟩
          exact ⟨⟨rfl, hstop⟩, rfl⟩
        · rintro ⟨⟨-, hstop⟩, rfl⟩
          dsimp only
          rw [ih.2 ⟨hstop, rfl⟩]
          rfl

theorem drafts_filter (hds : analysis.drafts base store sources = .ok ds) (keep : Source → Bool) :
    analysis.drafts base store (sources.filter keep) =
      .ok ((sources.filter keep).filterMap (analysis.draft? base store)) := by
  refine drafts_eq_ok_iff.2 ⟨fun source hsource => ?_, rfl⟩
  exact (drafts_eq_ok_iff.1 hds).1 source (List.mem_filter.1 hsource).1

/-- The sources that a run checks: those that have a draft. -/
def checked (analysis : Analysis) (base : Path) (store : FileStore) (sources : List Source) :
    List Source :=
  sources.filter fun source => (analysis.draft? base store source).isSome

theorem mem_checked_iff :
    source ∈ analysis.checked base store sources ↔ source ∈ sources ∧
      ∃ draft, analysis.draftOf base store source = .ok (some draft) := by
  rw [checked, List.mem_filter, Option.isSome_iff_exists]
  simp only [draft?_eq_some_iff]

/-- Runs come to a result if their sources have drafts. -/
theorem run_of_drafts (hwf : store.WellFormed) (hsources : analysis.sources store = .ok sources)
    (hds : analysis.drafts (analysis.base store) store sources = .ok ds) :
    (analysis.run store).result = .ok (sorted (ds.foldl addDraft .empty)) ∧
      IsOutcome analysis (analysis.base store) .empty store sources
        ⟨.ok (ds.foldl addDraft .empty), (analysis.run store).store⟩ := by
  have houtcome := @isOutcome_visitAll analysis _ _ _ .empty hwf (apart_sources hwf hsources)
  have hresult := houtcome.result_eq
  rw [hds] at hresult
  rw [run_of_sources hsources]
  generalize analysis.visitAll (analysis.base store) .empty store sources = outcome
    at houtcome hresult ⊢
  rcases outcome with ⟨visited, after⟩
  obtain rfl : visited = .ok (ds.foldl addDraft .empty) := hresult
  exact ⟨rfl, houtcome⟩

/-- What a run reports, told from its sources. -/
theorem violations_of_drafts (hds : analysis.drafts base store sources = .ok ds) :
    (sorted (ds.foldl addDraft .empty)).violations =
      inOrder (sources.flatMap fun source =>
        ((analysis.draft? base store source).map Draft.violations).getD []) := by
  rcases drafts_eq_ok_iff.1 hds with ⟨-, rfl⟩
  have hflat : (sources.filterMap (analysis.draft? base store)).flatMap Draft.violations =
      sources.flatMap fun source =>
        ((analysis.draft? base store source).map Draft.violations).getD [] := by
    rw [List.filterMap_eq_flatMap_toList, List.flatMap_assoc]
    refine List.flatMap_congr fun source _ => ?_
    cases analysis.draft? base store source <;> simp
  rw [sorted, violations_foldl_addDraft, hflat]
  rfl

theorem filesChecked_of_drafts (hds : analysis.drafts base store sources = .ok ds) :
    (sorted (ds.foldl addDraft .empty)).filesChecked =
      (analysis.checked base store sources).length := by
  rcases drafts_eq_ok_iff.1 hds with ⟨-, rfl⟩
  rw [sorted, filesChecked_foldl_addDraft, checked, List.length_filterMap_eq_countP,
    List.countP_eq_length_filter]
  exact Nat.zero_add _

/-! ## Other patterns -/

/-- The run with other patterns, which the configuration lists anew. -/
def withExcludes (analysis : Analysis) (excludes : List Exclude) (configured : List String) :
    Analysis :=
  { analysis with
    exclude := excludes
    config := { analysis.config with
      discovery := { analysis.config.discovery with exclude := configured } } }

/-- Whether one of some patterns excludes a path. -/
def leavesOut (analysis : Analysis) (more : List Exclude) (path : Path) : Bool :=
  more.any fun exclude => exclude.covers analysis.root path

variable {excludes more : List Exclude} {configured : List String} {path : Path}

/-- With more patterns a path is a source if it was one before, and they do not leave it out. -/
theorem source?_withExcludes (hperm : excludes.Perm (analysis.exclude ++ more)) :
    (analysis.withExcludes excludes configured).source? path =
      (analysis.source? path).filter fun source => !analysis.leavesOut more source.path := by
  have hexcluded : (analysis.withExcludes excludes configured).isExcluded path =
      (analysis.isExcluded path || analysis.leavesOut more path) := by
    rw [isExcluded, isExcluded, leavesOut, ← List.any_append]
    exact hperm.any_eq
  have hlanguage : (analysis.withExcludes excludes configured).languageFor? path =
      analysis.languageFor? path := rfl
  rw [source?, source?, hlanguage, hexcluded]
  cases analysis.languageFor? path with
  | none => rfl
  | some language =>
    cases analysis.isExcluded path <;> cases hmore : analysis.leavesOut more path <;>
      simp [hmore, Option.filter]

theorem sources_withExcludes (hperm : excludes.Perm (analysis.exclude ++ more))
    (hsources : analysis.sources store = .ok sources) :
    (analysis.withExcludes excludes configured).sources store =
      .ok (sources.filter fun source => !analysis.leavesOut more source.path) := by
  rcases exists_walks_of_sources hsources with ⟨paths, hwalks⟩
  have hwalk : (analysis.withExcludes excludes configured).walk store = analysis.walk store := rfl
  have hwalks' := walk_eq_ok_iff.1 (hwalk.trans (walk_eq_ok_iff.2 hwalks))
  rw [sources_of_walks hwalks] at hsources
  cases hsources
  rw [sources_of_walks hwalks', filter_mergeSort_sources, List.filter_filterMap]
  refine congrArg (fun found : List Source => Except.ok (found.mergeSort _)) ?_
  exact List.filterMap_congr fun path _ => source?_withExcludes hperm

/-- Other patterns change nothing about the sources that are visited. -/
theorem drafts_withExcludes :
    (analysis.withExcludes excludes configured).drafts base store sources =
      analysis.drafts base store sources := by
  induction sources with
  | nil => rfl
  | cons source sources ih =>
    rw [drafts, drafts, ih]
    rfl

theorem IsOutcome.of_withExcludes {outcome : Outcome}
    (h : IsOutcome (analysis.withExcludes excludes configured) base result store sources outcome) :
    IsOutcome analysis base result store sources outcome where
  result_eq := by rw [h.result_eq, drafts_withExcludes]
  frame := h.frame
  left := by
    rw [← drafts_withExcludes]
    exact h.left

/-! ## Files that are left out -/

/-- Whether a path is the one that is reported for a source that patterns leave out. -/
def reportsLeftOut (analysis : Analysis) (base : Path) (sources : List Source)
    (more : List Exclude) (file : Path) : Bool :=
  sources.any fun source =>
    analysis.leavesOut more source.path && base.reportedFrom source.path = file

theorem reportsLeftOut_eq (hapart : Apart store base sources) (hsource : source ∈ sources) :
    analysis.reportsLeftOut base sources more (base.reportedFrom source.path) =
      analysis.leavesOut more source.path := by
  rw [reportsLeftOut, Bool.eq_iff_iff, List.any_eq_true]
  constructor
  · rintro ⟨other, hother, hleft⟩
    rw [Bool.and_eq_true, decide_eq_true_eq] at hleft
    rw [← hapart.eq_of_shown_eq hother hsource hleft.2]
    exact hleft.1
  · intro hleft
    exact ⟨source, hsource, by simp [hleft]⟩

/-- The violations of the sources that are left are those that are not of a source left out. -/
theorem filter_violations (hapart : Apart store base sources)
    (hrules : ∀ rule ∈ analysis.rules, rule.StaysInFile) :
    (sources.flatMap fun source =>
        ((analysis.draft? base store source).map Draft.violations).getD []).filter
          (fun v => !analysis.reportsLeftOut base sources more v.location.file) =
      (sources.filter fun source => !analysis.leavesOut more source.path).flatMap fun source =>
        ((analysis.draft? base store source).map Draft.violations).getD [] := by
  have hfile : ∀ source ∈ sources,
      (((analysis.draft? base store source).map Draft.violations).getD []).filter
          (fun v => !analysis.reportsLeftOut base sources more v.location.file) =
        if analysis.leavesOut more source.path then []
        else ((analysis.draft? base store source).map Draft.violations).getD [] := by
    intro source hsource
    cases hdraft : analysis.draft? base store source with
    | none => simp
    | some draft =>
      have hshown := file_of_mem_violations hrules (draft?_eq_some_iff.1 hdraft)
      have hsame : analysis.reportsLeftOut base sources more (base.reportedFrom source.path) =
          analysis.leavesOut more source.path := reportsLeftOut_eq hapart hsource
      split
      · rename_i hleft
        refine List.filter_eq_nil_iff.2 fun v hv => ?_
        simp [hshown v hv, hsame, hleft]
      · rename_i hkept
        refine List.filter_eq_self.2 fun v hv => ?_
        simp [hshown v hv, hsame, hkept]
  rw [List.filter_flatMap, List.flatMap_congr hfile, flatMap_ite_nil]

/-- After a run that comes to a result a source holds its draft. -/
theorem IsOutcome.file?_eq {outcome : Outcome}
    (h : IsOutcome analysis base result store sources outcome)
    (hds : ∃ ds, analysis.drafts base store sources = .ok ds) (hsource : source ∈ sources)
    (hplace : store.resolve [] source.path = .ok names)
    (hdraft : analysis.draftOf base store source = .ok (some draft)) :
    outcome.store.file? names = some (.text draft.text) := by
  rcases FileStore.read_eq_ok_iff.1 (h.left hds source hsource draft hdraft) with
    ⟨others, hothers, hheld⟩
  rw [h.frame.resolve_eq, hplace] at hothers
  cases hothers
  exact hheld

/-- What a run leaves of a source that is left out, and of all other files, if the rest of the
sources is visited instead. -/
theorem file?_of_outcomes {result' : LintResult} {after after' : FileStore} {keep : Source → Bool}
    (hapart : Apart store base sources) (hds : ∃ ds, analysis.drafts base store sources = .ok ds)
    (hds' : ∃ ds, analysis.drafts base store (sources.filter keep) = .ok ds)
    (h : IsOutcome analysis base .empty store sources ⟨.ok result, after⟩)
    (h' : IsOutcome analysis base .empty store (sources.filter keep) ⟨.ok result', after'⟩) :
    (∀ source ∈ sources, keep source = false → store.resolve [] source.path = .ok names →
      after'.file? names = store.file? names) ∧
    ((∀ source ∈ sources, store.resolve [] source.path = .ok names → keep source = true) →
      after'.file? names = after.file? names) := by
  constructor
  · intro source hsource hleft hplace
    refine h'.frame.elsewhere names ?_
    rintro ⟨other, hother, hplace', -⟩
    rcases List.mem_filter.1 hother with ⟨hother, hkept⟩
    rw [hapart.eq_of_resolve_eq hother hsource (hplace'.trans hplace.symm), hleft] at hkept
    cases hkept
  · intro hkept
    by_cases hdraft : analysis.IsDraftPlace base store sources names
    -- Both runs leave the draft of the source.
    · rcases hdraft with ⟨source, hsource, hplace, draft, hdraft⟩
      have hsource' := List.mem_filter.2 ⟨hsource, hkept source hsource hplace⟩
      rw [h.file?_eq hds hsource hplace hdraft, h'.file?_eq hds' hsource' hplace hdraft]
    · rw [h.frame.elsewhere names hdraft, h'.frame.elsewhere names]
      rintro ⟨source, hsource, hplace, hdraft'⟩
      exact hdraft ⟨source, (List.mem_filter.1 hsource).1, hplace, hdraft'⟩

/-- More patterns take the sources that they leave out from what a run reports and writes, and
change nothing else. -/
theorem run_withExcludes (hwf : store.WellFormed)
    (hrules : ∀ rule ∈ analysis.rules, rule.StaysInFile)
    (hperm : excludes.Perm (analysis.exclude ++ more))
    (hsources : analysis.sources store = .ok sources)
    (hrun : (analysis.run store).result = .ok result) :
    ∃ result', ((analysis.withExcludes excludes configured).run store).result = .ok result' ∧
      result'.violations = result.violations.filter
        (fun v => !analysis.reportsLeftOut (analysis.base store) sources more v.location.file) ∧
      result.filesChecked = (analysis.checked (analysis.base store) store sources).length ∧
      result'.filesChecked = ((analysis.checked (analysis.base store) store sources).filter
        fun source => !analysis.leavesOut more source.path).length ∧
      ∀ names,
        (∀ source ∈ sources, analysis.leavesOut more source.path = true →
          store.resolve [] source.path = .ok names →
            ((analysis.withExcludes excludes configured).run store).store.file? names =
              store.file? names) ∧
        ((∀ source ∈ sources, store.resolve [] source.path = .ok names →
            analysis.leavesOut more source.path = false) →
          ((analysis.withExcludes excludes configured).run store).store.file? names =
            (analysis.run store).store.file? names) := by
  have hapart := apart_sources hwf hsources
  rcases exists_drafts_of_run hwf hsources hrun with ⟨ds, hds, rfl, houtcome⟩
  have hkept := drafts_filter hds fun source => !analysis.leavesOut more source.path
  have hsources' := @sources_withExcludes _ _ _ _ _ configured hperm hsources
  have hds' := (@drafts_withExcludes _ _ _ _ excludes configured).trans hkept
  rcases run_of_drafts hwf hsources' hds' with ⟨hresult', houtcome'⟩
  refine ⟨_, hresult', ?_, filesChecked_of_drafts hds, ?_, fun names => ?_⟩
  · rw [violations_of_drafts hds, violations_of_drafts hkept, filter_inOrder,
      filter_violations hapart hrules]
  · rw [filesChecked_of_drafts hkept, checked, checked, List.filter_filter, List.filter_filter]
    simp only [Bool.and_comm]
  · have hfiles := @file?_of_outcomes _ _ _ _ _ names _ _ _ _ hapart ⟨ds, hds⟩ ⟨_, hkept⟩
      houtcome houtcome'.of_withExcludes
    simpa using hfiles

/-! ## Requests with more patterns -/

/-- A request with other patterns, of its own and configured ones. -/
def withPatterns (request : Request) (own configured : List String) : Request :=
  { request with
    exclude := own
    config := { request.config with
      discovery := { request.config.discovery with exclude := configured } } }

theorem exists_ofRequest_withPatterns {request : Request} {cwd : Path} {own added : List String}
    (hanalysis : ofRequest cwd request = .ok analysis)
    (hadded : added.mapM Exclude.parse = .ok more)
    (hperm : (own ++ configured).Perm (patterns request ++ added)) :
    ∃ excludes, excludes.Perm (analysis.exclude ++ more) ∧
      ofRequest cwd (withPatterns request own configured) =
        .ok (analysis.withExcludes excludes configured) := by
  rcases ofRequest_eq_ok_iff.1 hanalysis with ⟨others, hothers, rfl⟩
  rcases List.perm_comp_forall₂ hperm (List.rel_append hothers (mapM_eq_ok_iff.1 hadded)) with
    ⟨excludes, hexcludes, hsame⟩
  exact ⟨excludes, hsame, ofRequest_eq_ok_iff.2 ⟨excludes, hexcludes, rfl⟩⟩

/-- A run that comes to a result does so with more patterns as well, in whatever order and place
they are given. It then reports the violations that are not of a source left out by them, in the
same order, and counts the checked sources that are not left out. The sources that are left out hold
what they held at the start, and so does what is no source; all other files hold what the first run
leaves. -/
theorem run_of_more_patterns (store : FileStore) (cwd : Path) (request : Request)
    (own configured added : List String) (more : List Exclude) (analysis : Analysis)
    (sources : List Source) (result : LintResult) (hwf : store.WellFormed)
    (hrules : ∀ rule ∈ request.rules, rule.StaysInFile)
    (hanalysis : ofRequest cwd request = .ok analysis)
    (hsources : analysis.sources store = .ok sources)
    (hrun : (analysis.run store).result = .ok result)
    (hadded : added.mapM Exclude.parse = .ok more)
    (hperm : (own ++ configured).Perm (patterns request ++ added)) :
    ∃ narrowed result',
      ofRequest cwd (withPatterns request own configured) = .ok narrowed ∧
      (narrowed.run store).result = .ok result' ∧
      result'.violations = result.violations.filter
        (fun v => !analysis.reportsLeftOut (analysis.base store) sources more v.location.file) ∧
      result.filesChecked = (analysis.checked (analysis.base store) store sources).length ∧
      result'.filesChecked = ((analysis.checked (analysis.base store) store sources).filter
        fun source => !analysis.leavesOut more source.path).length ∧
      ∀ names,
        (∀ source ∈ sources, analysis.leavesOut more source.path = true →
          store.resolve [] source.path = .ok names →
            (narrowed.run store).store.file? names = store.file? names) ∧
        (¬ IsSourcePlace store sources names →
          (narrowed.run store).store.file? names = store.file? names) ∧
        ((∀ source ∈ sources, store.resolve [] source.path = .ok names →
            analysis.leavesOut more source.path = false) →
          (narrowed.run store).store.file? names = (analysis.run store).store.file? names) := by
  rcases exists_ofRequest_withPatterns hanalysis hadded hperm with ⟨excludes, hsame, hnarrowed⟩
  have hrules' : ∀ rule ∈ analysis.rules, rule.StaysInFile := by
    rcases ofRequest_eq_ok_iff.1 hanalysis with ⟨_, -, rfl⟩
    exact hrules
  rcases @run_withExcludes _ _ _ _ _ _ configured hwf hrules' hsame hsources hrun with
    ⟨result', hresult', hviolations, hchecked, hchecked', hfiles⟩
  refine ⟨_, result', hnarrowed, hresult', hviolations, hchecked, hchecked', fun names => ?_⟩
  refine ⟨(hfiles names).1, fun hnone => ?_, (hfiles names).2⟩
  -- Neither run touches what is no source.
  rw [(hfiles names).2 fun source hsource hplace => absurd ⟨source, hsource, hplace⟩ hnone]
  refine (modifiesOnly_run hwf hsources).elsewhere names ?_
  rintro ⟨source, hsource, hplace, -⟩
  exact hnone ⟨source, hsource, hplace⟩

/-- A request to replace the banned name in the files below a directory. -/
def fixingRequest : Request where
  root := some ⟨"/w"⟩
  rules := [sampleBan.toRule]
  languages := [sampleLanguage]
  exclude := []
  config := ⟨⟨⟨"."⟩, [], true⟩, []⟩
  failsWithoutTree := false
  fixes := true

def fixing : Analysis :=
  ⟨⟨"/w"⟩, [sampleBan.toRule], [sampleLanguage], [], ⟨⟨⟨"."⟩, [], true⟩, []⟩, false, true⟩

def pairStore : FileStore :=
  ⟨[(["w", "a.ts"], .text "x: String"), (["w", "b.ts"], .text "x: String")], [], []⟩

def pairSources : List Source :=
  [⟨⟨"/w/a.ts"⟩, sampleLanguage⟩, ⟨⟨"/w/b.ts"⟩, sampleLanguage⟩]

theorem sources_pairStore : fixing.sources pairStore = .ok pairSources := by
  have hresolve : pairStore.resolve [] ⟨"/w"⟩ = .ok ["w"] := rfl
  have hvisible : (fixing.scope pairStore ["w"]).visibleFiles = [["a.ts"], ["b.ts"]] := by
    decide +kernel
  have hwalks : fixing.Walks pairStore [⟨"/w/a.ts"⟩, ⟨"/w/b.ts"⟩] :=
    Walks.of_visibleFiles rfl hresolve rfl rfl hvisible
  exact sources_of_pairwise hwalks rfl (by decide)

theorem parse_b : ["b.ts"].mapM Exclude.parse =
    .ok [⟨⟨"b.ts".toList.map .char⟩, some "b.ts".toList⟩] := by
  rfl

/-- The sources of the pair have trees, and are texts. -/
theorem exists_result_pairStore : ∃ result, (fixing.run pairStore).result = .ok result := by
  have hwf : pairStore.WellFormed := by decide +kernel
  have hread : ∀ source ∈ pairSources, pairStore.read [] source.path = .ok "x: String" := by
    have ha : pairStore.read [] ⟨"/w/a.ts"⟩ = .ok "x: String" := by decide +kernel
    have hb : pairStore.read [] ⟨"/w/b.ts"⟩ = .ok "x: String" := by decide +kernel
    intro source hsource
    rcases List.mem_pair.1 hsource with rfl | rfl
    · exact ha
    · exact hb
  have hstop : ∀ source ∈ pairSources, fixing.stop? (fixing.base pairStore) pairStore source =
      none := by
    intro source hsource
    rcases leads_of_mem_sources hwf sources_pairStore hsource with ⟨names, hleads⟩
    refine Option.eq_none_iff_forall_ne_some.2 fun fault hfault => ?_
    cases (stop?_eq_some_iff hleads).1 hfault with
    | notText hfails =>
      rw [hread source hsource] at hfails
      cases hfails
    | noTree _ _ hstrict => cases hstrict
  exact ⟨_, (run_of_drafts hwf sources_pairStore (drafts_eq_ok_iff.2 ⟨hstop, rfl⟩)).1⟩

/-- Of two files with the banned name, one is left out and keeps it. -/
theorem run_pairStore_without_b :
    pairStore.WellFormed ∧ sampleBan.toRule.StaysInFile ∧
      ofRequest ⟨"/"⟩ fixingRequest = .ok fixing ∧
      (∃ result, (fixing.run pairStore).result = .ok result) ∧
      ∃ narrowed result',
        ofRequest ⟨"/"⟩ (withPatterns fixingRequest ["b.ts"] []) = .ok narrowed ∧
        (narrowed.run pairStore).result = .ok result' ∧
        (narrowed.run pairStore).store.file? ["w", "b.ts"] = some (.text "x: String") ∧
        (narrowed.run pairStore).store.file? ["w", "a.ts"] =
          (fixing.run pairStore).store.file? ["w", "a.ts"] := by
  have hwf : pairStore.WellFormed := by decide +kernel
  have hrules : ∀ rule ∈ fixingRequest.rules, rule.StaysInFile := by
    intro rule hrule
    rw [List.mem_singleton.1 hrule]
    exact sampleBan.staysInFile_toRule
  rcases exists_result_pairStore with ⟨result, hrun⟩
  rcases run_of_more_patterns pairStore ⟨"/"⟩ fixingRequest ["b.ts"] [] ["b.ts"] _ fixing
    pairSources result hwf hrules rfl sources_pairStore hrun parse_b (List.Perm.refl _) with
    ⟨narrowed, result', hnarrowed, hresult', -, -, -, hfiles⟩
  have hplaces : pairStore.resolve [] ⟨"/w/a.ts"⟩ = .ok ["w", "a.ts"] ∧
      pairStore.resolve [] ⟨"/w/b.ts"⟩ = .ok ["w", "b.ts"] := by decide +kernel
  refine ⟨hwf, sampleBan.staysInFile_toRule, rfl, ⟨result, hrun⟩, narrowed, result', hnarrowed,
    hresult', ?_, ?_⟩
  · have hleft := (hfiles ["w", "b.ts"]).1 ⟨⟨"/w/b.ts"⟩, sampleLanguage⟩ (by simp [pairSources])
      (by decide +kernel) hplaces.2
    exact hleft.trans (by decide +kernel)
  · refine (hfiles ["w", "a.ts"]).2.2 ?_
    intro source hsource hplace
    rcases List.mem_pair.1 hsource with rfl | rfl
    · decide +kernel
    · rw [hplaces.2] at hplace
      simp at hplace

end Analysis
end TypeNameLint
