import TypeNameLint.Proofs.Analysis.Rounds
import TypeNameLint.Proofs.Report.Order

/-!
# Settled — running again on the files that a run has fixed

After a run the files hold the texts whose violations were reported, so a further run without fixes
reports the same. All fixes that are offered fit, so a file whose rounds ended early has none left
to offer, and fixing again changes nothing. This file defines:

* `withFixes`: the same run with fixes on or off;
* `IsSettled`: files of which no violation with a fix was reported;
* `RanAllRounds`: files whose rounds all applied something;
* `Draft.anew`, `Rests`: what a further run finds of a file.

The main result is `run_after_fixing`.
-/

namespace TypeNameLint
namespace Analysis

variable {analysis : Analysis} {base shown : Path} {store after : FileStore} {source : Source}
variable {sources : List Source} {ds : List Draft} {draft : Draft} {result : LintResult}
variable {language : Language} {lint : String → Option (List Violation)} {fixes : Bool}

/-- The same run, with fixes on or off. -/
def withFixes (analysis : Analysis) (fixes : Bool) : Analysis := { analysis with fixes }

/-! ## Fixes that are left -/

/-- All fixes on offer fit, so where nothing is applied there are none. -/
theorem applied_eq_zero_iff_of_bans (hbans : analysis.BansOnly) (hparse : language.ParsesAll)
    (hcurrent : draft.IsCurrent (analysis.lint shown language)) :
    draft.outcome.applied = 0 ↔ ∀ v ∈ draft.violations, v.fix? = none := by
  rw [Draft.outcome, Edit.applied_eq_zero_iff]
  constructor
  · intro hzero v hv
    cases hfix : v.fix? with
    | none => rfl
    | some r =>
      have hunfit : Edit.fits draft.text.toList r = false :=
        hzero r (List.mem_filterMap.2 ⟨v, hv, hfix⟩)
      rw [fits_of_mem_lint hbans hparse hcurrent hv hfix] at hunfit
      cases hunfit
  · intro hnone r hr
    rcases List.mem_filterMap.1 hr with ⟨v, hv, hfix⟩
    rw [hnone v hv] at hfix
    cases hfix

/-! ## Drafts of a run with fixes -/

/-- Rounds that were all run, and each applied something. -/
def RanAllRounds (lint : String → Option (List Violation)) (text : String) (final : Draft) : Prop :=
  ∃ violations counts, lint text = some violations ∧
    Passes lint ⟨text, violations, 0⟩ counts final ∧
      counts.length = 10 ∧ ∀ count ∈ counts, 0 < count

theorem draftOf_ne_none (hparse : source.language.ParsesAll) :
    analysis.draftOf base store source ≠ .ok none := by
  intro h
  rcases draftOf_eq_ok_iff.1 h with ⟨text, -, hexamine⟩
  have hlint := @isSome_lint analysis _ hparse.isSome (base.reportedFrom source.path)
  rcases Option.isSome_iff_exists.1 (hlint text) with ⟨violations, hviolations⟩
  rw [examine_eq_bind, hviolations, Option.bind_some] at hexamine
  rcases exists_repair hlint _ ⟨text, violations, 0⟩ with ⟨final, hfinal⟩
  cases hexamine.symm.trans hfinal

/-- A draft has the violations of its text. With fixes on, its rounds were all run or ended with
nothing to apply. -/
theorem isCurrent_of_examine {text : String} (h : examine fixes lint text = some draft) :
    draft.IsCurrent lint ∧
      (fixes = true → RanAllRounds lint text draft ∨ draft.outcome.applied = 0) := by
  rcases exists_passes_of_examine h with ⟨violations, counts, hlint, hpasses, hend⟩
  refine ⟨hpasses.isCurrent hlint, fun hfixes => ?_⟩
  rcases hend hfixes with hall | hzero
  · exact Or.inl ⟨violations, counts, hlint, hpasses, hall, hpasses.count_pos⟩
  · exact Or.inr hzero

theorem isCurrent_of_draftOf (h : analysis.draftOf base store source = .ok (some draft)) :
    draft.IsCurrent (analysis.lint (base.reportedFrom source.path) source.language) := by
  rcases draftOf_eq_ok_iff.1 h with ⟨text, -, hexamine⟩
  exact (isCurrent_of_examine hexamine).1

/-! ## A further run -/

/-- The draft as a further run finds it, with no fix counted. -/
def Draft.anew (draft : Draft) : Draft := ⟨draft.text, draft.violations, 0⟩

/-- A file holds a draft with the violations of its text, and with no fix to apply in case fixes are
on. -/
structure Rests (analysis : Analysis) (fixes : Bool) (base : Path) (store : FileStore)
    (source : Source) (draft : Draft) : Prop where
  held : store.read [] source.path = .ok draft.text
  current : draft.IsCurrent (analysis.lint (base.reportedFrom source.path) source.language)
  idle : fixes = true → draft.outcome.applied = 0

theorem Rests.draftOf_eq (h : analysis.Rests fixes base store source draft) :
    (analysis.withFixes fixes).draftOf base store source = .ok (some draft.anew) := by
  refine draftOf_eq_ok_iff.2 ⟨draft.text, h.held, ?_⟩
  have hlint : (analysis.withFixes fixes).lint (base.reportedFrom source.path) source.language
      draft.text = some draft.violations := h.current
  rw [examine, hlint]
  cases fixes with
  | false => rfl
  | true =>
    -- The first round applies nothing and ends the rounds.
    have hidle : draft.anew.outcome.applied = 0 := h.idle rfl
    have hround : repair ((analysis.withFixes true).lint (base.reportedFrom source.path)
        source.language) (9 + 1) draft.anew = some draft.anew := by
      rw [repair, if_pos hidle]
    exact hround

/-- What is reported of a file are the violations of its draft. -/
theorem reported_iff {v : Violation} (hbans : analysis.BansOnly)
    (hparse : ∀ source ∈ sources, source.language.ParsesAll) (hapart : Apart store base sources)
    (hdrafts : List.Forall₂
      (fun source draft => analysis.draftOf base store source = .ok (some draft)) sources ds)
    (hsource : source ∈ sources)
    (hdraft : analysis.draftOf base store source = .ok (some draft)) :
    (v ∈ (sorted (ds.foldl addDraft .empty)).violations ∧
      v.location.file = base.reportedFrom source.path) ↔ v ∈ draft.violations := by
  have hfile : ∀ other ∈ sources, ∀ found,
      analysis.draftOf base store other = .ok (some found) → v ∈ found.violations →
        v.location.file = base.reportedFrom other.path := by
    intro other hother found hfound hv
    exact file_of_mem_lint hbans (hparse other hother) (isCurrent_of_draftOf hfound) hv
  rw [mem_violations_sorted]
  constructor
  · rintro ⟨⟨found, hfound, hv⟩, hshown⟩
    -- The violation was found in some file; the path that it shows tells that it is this one.
    rcases exists_of_mem_of_forall₂ hdrafts.flip found hfound with ⟨other, hother, hdraft'⟩
    have hsame : base.reportedFrom other.path = base.reportedFrom source.path := by
      rw [← hfile other hother found hdraft' hv, hshown]
    rw [hapart.eq_of_shown_eq hother hsource hsame] at hdraft'
    have heq : found = draft := Option.some.inj (Except.ok.inj (hdraft'.symm.trans hdraft))
    rwa [← heq]
  · intro hv
    refine ⟨?_, hfile source hsource draft hdraft hv⟩
    rcases exists_of_mem_of_forall₂ hdrafts source hsource with ⟨found, hfound, hdraft'⟩
    have heq : found = draft := Option.some.inj (Except.ok.inj (hdraft'.symm.trans hdraft))
    exact ⟨found, hfound, by rwa [heq]⟩

/-- No violation with a fix was reported of a file. -/
def IsSettled (base : Path) (result : LintResult) (source : Source) : Prop :=
  ∀ v ∈ result.violations, v.location.file = base.reportedFrom source.path → v.fix? = none

/-- A file is settled if its draft has nothing to apply. -/
theorem isSettled_iff (hbans : analysis.BansOnly)
    (hparse : ∀ source ∈ sources, source.language.ParsesAll) (hapart : Apart store base sources)
    (hdrafts : List.Forall₂
      (fun source draft => analysis.draftOf base store source = .ok (some draft)) sources ds)
    (hsource : source ∈ sources)
    (hdraft : analysis.draftOf base store source = .ok (some draft)) :
    IsSettled base (sorted (ds.foldl addDraft .empty)) source ↔ draft.outcome.applied = 0 := by
  have hreported := fun v =>
    @reported_iff _ _ _ _ _ _ _ v hbans hparse hapart hdrafts hsource hdraft
  rw [applied_eq_zero_iff_of_bans hbans (hparse source hsource) (isCurrent_of_draftOf hdraft)]
  constructor
  · intro h v hv
    exact h v ((hreported v).2 hv).1 ((hreported v).2 hv).2
  · intro h v hv hfile
    exact h v ((hreported v).1 ⟨hv, hfile⟩)

theorem foldl_addDraft_anew (result : LintResult) (ds : List Draft) :
    (ds.map Draft.anew).foldl addDraft { result with fixesApplied := 0 } =
      { ds.foldl addDraft result with fixesApplied := 0 } := by
  induction ds generalizing result with
  | nil => rfl
  | cons draft ds ih => exact ih (addDraft result draft)

/-- Where every file rests, a run reports the drafts and changes nothing. -/
theorem run_of_rests (hsources : analysis.sources store = .ok sources)
    (hrests : List.Forall₂ (analysis.Rests fixes (analysis.base store) store) sources ds) :
    (analysis.withFixes fixes).run store =
      ⟨.ok { sorted (ds.foldl addDraft .empty) with fixesApplied := 0 }, store⟩ := by
  have hsources' : (analysis.withFixes fixes).sources store = .ok sources := hsources
  have hdrafts : (analysis.withFixes fixes).drafts (analysis.base store) store sources =
      .ok (ds.map Draft.anew) := by
    refine drafts_of_forall₂ (List.forall₂_map_right_iff.2 (hrests.imp ?_))
    intro source draft hrest
    exact hrest.draftOf_eq
  have hunchanged : ∀ source ∈ sources, ∀ draft,
      (analysis.withFixes fixes).draftOf (analysis.base store) store source = .ok (some draft) →
        store.read [] source.path = .ok draft.text := by
    intro source hsource draft hdraft
    rcases exists_of_mem_of_forall₂ hrests source hsource with ⟨found, -, hrest⟩
    have hanew : draft = found.anew := by
      rw [hrest.draftOf_eq] at hdraft
      exact (Option.some.inj (Except.ok.inj hdraft)).symm
    rw [hanew]
    exact hrest.held
  have hvisits := @visitAll_of_unchanged _ _ _ _ LintResult.empty hunchanged
  have hbase : (analysis.withFixes fixes).base store = analysis.base store := rfl
  have hsum : (ds.map Draft.anew).foldl addDraft .empty =
      { ds.foldl addDraft .empty with fixesApplied := 0 } := foldl_addDraft_anew .empty ds
  rw [run_of_sources hsources', hbase, hvisits, hdrafts]
  -- What is left is the sum, which is sorted in the end.
  simp only [Except.map, hsum]
  rfl

/-- After a run with fixes the sources are found again. -/
theorem sources_of_isOutcome {visited : Except AnalysisFault LintResult} (hwf : store.WellFormed)
    (hsources : analysis.sources store = .ok sources)
    (h : IsOutcome (analysis.withFixes true) base result store sources ⟨visited, after⟩) :
    analysis.sources after = .ok sources ∧ analysis.base after = analysis.base store := by
  have hchange : FileStore.ModifiesOnly (IsSourcePlace store sources) store after :=
    h.frame.mono fun names ⟨source, hsource, hplace, _⟩ => ⟨source, hsource, hplace⟩
  exact ⟨sources_of_modifiesOnly hwf hsources hchange, base_of_sameShape hchange.toSameShape⟩

/-- After a run with fixes every file rests, unless fixes are on and some are left. -/
theorem rests_of_isOutcome {visited : Except AnalysisFault LintResult}
    (hds : (analysis.withFixes true).drafts base store sources = .ok ds)
    (hdrafts : List.Forall₂ (fun source draft =>
      (analysis.withFixes true).draftOf base store source = .ok (some draft)) sources ds)
    (h : IsOutcome (analysis.withFixes true) base result store sources ⟨visited, after⟩)
    (hidle : fixes = true → ∀ source ∈ sources, ∀ draft,
      (analysis.withFixes true).draftOf base store source = .ok (some draft) →
        draft.outcome.applied = 0) :
    List.Forall₂ (analysis.Rests fixes base after) sources ds := by
  have hmem := (List.forall₂_and_left _ _).2 ⟨fun source hsource => hsource, hdrafts⟩
  refine hmem.imp ?_
  rintro source draft ⟨hsource, hdraft⟩
  constructor
  · exact h.left ⟨ds, hds⟩ source hsource draft hdraft
  · exact @isCurrent_of_draftOf (analysis.withFixes true) _ _ _ _ hdraft
  · intro hfixes
    exact hidle hfixes source hsource draft hdraft

/-- After a run that fixed the files of a project, every file is settled or went through all rounds
with something to apply in each of them. A run without fixes on what is left reports the same
violations of as many files, and if all files are settled, so does a run with fixes: it applies none
and leaves all files as they are. -/
theorem run_after_fixing (analysis : Analysis) (store : FileStore) (result : LintResult)
    (hwf : store.WellFormed) (hbans : analysis.BansOnly)
    (hlanguages : ∀ language ∈ analysis.languages, language.ParsesAll)
    (hrun : ((analysis.withFixes true).run store).result = .ok result) :
    ∃ sources, analysis.sources store = .ok sources ∧ sources.length = result.filesChecked ∧
      (∀ source ∈ sources, IsSettled (analysis.base store) result source ∨
        ∃ text final, store.read [] source.path = .ok text ∧
          ((analysis.withFixes true).run store).store.read [] source.path = .ok final.text ∧
          RanAllRounds (analysis.lint ((analysis.base store).reportedFrom source.path)
            source.language) text final) ∧
      (analysis.withFixes false).run ((analysis.withFixes true).run store).store =
        ⟨.ok { result with fixesApplied := 0 }, ((analysis.withFixes true).run store).store⟩ ∧
      ((∀ source ∈ sources, IsSettled (analysis.base store) result source) →
        (analysis.withFixes true).run ((analysis.withFixes true).run store).store =
          ⟨.ok { result with fixesApplied := 0 },
            ((analysis.withFixes true).run store).store⟩) := by
  rcases exists_sources_of_run hrun with ⟨sources, hfound⟩
  have hsources : analysis.sources store = .ok sources := hfound
  rcases exists_drafts_of_run hwf hfound hrun with ⟨ds, hds, rfl, houtcome⟩
  have hapart : Apart store (analysis.base store) sources := apart_sources hwf hsources
  have hparse : ∀ source ∈ sources, source.language.ParsesAll := fun source hsource =>
    hlanguages _ (language_of_mem_sources hsources hsource)
  have hdrafts := forall₂_of_drafts (fun source hsource => draftOf_ne_none (hparse source hsource))
    hds
  have hsettled : ∀ source ∈ sources, ∀ draft,
      (analysis.withFixes true).draftOf (analysis.base store) store source = .ok (some draft) →
        (IsSettled (analysis.base store) (sorted (ds.foldl addDraft .empty)) source ↔
          draft.outcome.applied = 0) := fun source hsource draft hdraft =>
    @isSettled_iff (analysis.withFixes true) _ _ _ _ _ _ hbans hparse hapart hdrafts hsource hdraft
  have hsources' : analysis.sources ((analysis.withFixes true).run store).store = .ok sources :=
    (sources_of_isOutcome hwf hsources houtcome).1
  have hbase : analysis.base ((analysis.withFixes true).run store).store = analysis.base store :=
    (sources_of_isOutcome hwf hsources houtcome).2
  -- Every file rests now, with fixes off or with no fix left, so a further run reports it as it is.
  have hagain : ∀ fixes : Bool,
      (fixes = true → ∀ source ∈ sources,
        IsSettled (analysis.base store) (sorted (ds.foldl addDraft .empty)) source) →
      (analysis.withFixes fixes).run ((analysis.withFixes true).run store).store =
        ⟨.ok { sorted (ds.foldl addDraft .empty) with fixesApplied := 0 },
          ((analysis.withFixes true).run store).store⟩ := by
    intro fixes hall
    refine run_of_rests hsources' ?_
    rw [hbase]
    refine rests_of_isOutcome hds hdrafts houtcome ?_
    intro hfixes source hsource draft hdraft
    exact (hsettled source hsource draft hdraft).1 (hall hfixes source hsource)
  refine ⟨sources, hsources, ?_, ?_, ?_, ?_⟩
  · rw [hdrafts.length_eq]
    simp [sorted, filesChecked_foldl_addDraft, LintResult.empty]
  · intro source hsource
    rcases exists_of_mem_of_forall₂ hdrafts source hsource with ⟨draft, -, hdraft⟩
    have hleft := houtcome.left ⟨ds, hds⟩ source hsource draft hdraft
    rcases draftOf_eq_ok_iff.1 hdraft with ⟨text, hread, hexamine⟩
    rcases (isCurrent_of_examine hexamine).2 rfl with hrounds | hzero
    · exact Or.inr ⟨text, draft, hread, hleft, hrounds⟩
    · exact Or.inl ((hsettled source hsource draft hdraft).2 hzero)
  · exact hagain false (by simp)
  · intro hall
    exact hagain true fun _ => hall

theorem parsesAll_sampleLanguage : sampleLanguage.ParsesAll := by
  intro text
  by_cases htext : text = "x: String"
  · subst htext
    exact ⟨_, rfl, by decide +kernel⟩
  · have hspan : Text.IsSpan text.toList 0 0 := ⟨[], [], text.toList, rfl, rfl, rfl⟩
    refine ⟨.node ⟨"program", none, 0, 0⟩ [], ?_, ?_⟩
    · simp [sampleLanguage, Language.typeScript, htext]
    · constructor <;>
        simp [Tree.preorder, Tree.forestPreorder, Tree.label, Tree.children, hspan,
          Location.wordSize]

/-- The sample after its banned name was replaced. -/
def sampleStoreFixed : FileStore := ⟨[(["w", "a.ts"], .text "x: string")], [], []⟩

theorem visit_sampleAnalysis :
    (sampleAnalysis.withFixes true).visit ⟨"/w"⟩ sampleStore ⟨⟨"/w/a.ts"⟩, sampleLanguage⟩ =
      .ok ⟨some ⟨"x: string", [], 1⟩, sampleStoreFixed⟩ := by
  have hread : sampleStore.read [] ⟨"/w/a.ts"⟩ = .ok "x: String" := rfl
  have hshown : Path.reportedFrom ⟨"/w"⟩ ⟨"/w/a.ts"⟩ = ⟨"a.ts"⟩ := by decide +kernel
  have hfirst : Draft.outcome ⟨"x: String", [sampleBan.ban "String" (.record "" (some "string"))
      ⟨⟨"a.ts"⟩, 1, 4, 3, 6⟩], 0⟩ = ⟨"x: string", 1, 0⟩ := by decide +kernel
  have hidle : Draft.outcome ⟨"x: string", [], 1⟩ = ⟨"x: string", 0, 0⟩ := by decide +kernel
  have hexamine : examine true (sampleAnalysis.lint ⟨"a.ts"⟩ sampleLanguage) "x: String" =
      some ⟨"x: string", [], 1⟩ := by
    simp [examine, lint_sampleAnalysis_banned, maxRounds, repair, hfirst,
      lint_sampleAnalysis_replaced, hidle]
  have hwrite : sampleStore.write [] ⟨"/w/a.ts"⟩ "x: string" = .ok sampleStoreFixed := by
    decide +kernel
  have hexamine' : examine (sampleAnalysis.withFixes true).fixes
      ((sampleAnalysis.withFixes true).lint ⟨"a.ts"⟩ sampleLanguage) "x: String" =
        some ⟨"x: string", [], 1⟩ := hexamine
  have hnew : ("x: string" = "x: String") = False := by decide
  simp only [visit, hread, hshown, hexamine', hnew, if_false, hwrite]
  rfl

theorem resolve_sampleStore : sampleStore.resolve [] ⟨"/w"⟩ = .ok ["w"] :=
  rfl

theorem sources_sampleStore :
    sampleAnalysis.sources sampleStore = .ok [⟨⟨"/w/a.ts"⟩, sampleLanguage⟩] :=
  sources_of_pairwise (Walks.directory resolve_sampleStore rfl rfl) rfl
    (List.pairwise_singleton _ _)

/-- The run that replaces the banned name of the sample. -/
theorem run_sampleAnalysis :
    (sampleAnalysis.withFixes true).run sampleStore = ⟨.ok ⟨[], 1, 1⟩, sampleStoreFixed⟩ := by
  have hsources : (sampleAnalysis.withFixes true).sources sampleStore =
      .ok [⟨⟨"/w/a.ts"⟩, sampleLanguage⟩] := sources_sampleStore
  have hbase : (sampleAnalysis.withFixes true).base sampleStore = ⟨"/w"⟩ := by decide +kernel
  have hsorted : sorted ⟨[], 1, 1⟩ = ⟨[], 1, 1⟩ := sorted_of_pairwise .nil
  rw [run_of_sources hsources, hbase]
  simp only [visitAll, visit_sampleAnalysis]
  exact congrArg (fun result => Outcome.mk (.ok result) sampleStoreFixed) hsorted

/-- The banned name is replaced, and neither a check nor a further run with fixes finds it again. -/
theorem run_sampleStore :
    sampleStore.WellFormed ∧ sampleAnalysis.BansOnly ∧
      (∀ language ∈ sampleAnalysis.languages, language.ParsesAll) ∧
      (sampleAnalysis.withFixes true).run sampleStore = ⟨.ok ⟨[], 1, 1⟩, sampleStoreFixed⟩ ∧
      (sampleAnalysis.withFixes false).run sampleStoreFixed = ⟨.ok ⟨[], 1, 0⟩, sampleStoreFixed⟩ ∧
      (sampleAnalysis.withFixes true).run sampleStoreFixed =
        ⟨.ok ⟨[], 1, 0⟩, sampleStoreFixed⟩ := by
  have hwf : sampleStore.WellFormed := by decide +kernel
  have hbans : sampleAnalysis.BansOnly := by
    intro rule hrule
    exact ⟨sampleBan, List.mem_singleton.1 hrule⟩
  have hlanguages : ∀ language ∈ sampleAnalysis.languages, language.ParsesAll := by
    intro language hlanguage
    rw [List.mem_singleton.1 hlanguage]
    exact parsesAll_sampleLanguage
  rcases run_after_fixing sampleAnalysis sampleStore ⟨[], 1, 1⟩ hwf hbans hlanguages
    (by rw [run_sampleAnalysis]) with ⟨sources, -, -, -, hcheck, hagain⟩
  rw [run_sampleAnalysis] at hcheck hagain
  have hsettled : ∀ source ∈ sources, IsSettled (sampleAnalysis.base sampleStore) ⟨[], 1, 1⟩
      source := by
    intro source _ v hv
    cases hv
  exact ⟨hwf, hbans, hlanguages, run_sampleAnalysis, hcheck, hagain hsettled⟩

end Analysis
end TypeNameLint
