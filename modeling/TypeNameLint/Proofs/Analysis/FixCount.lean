import TypeNameLint.Proofs.Analysis.Exclusion
import TypeNameLint.Proofs.Edit.Weight
import Mathlib.Algebra.Ring.Nat

/-!
# FixCount — what the number of fixes says about the files

The number of fixes is counted round by round, and a file is written if the text of the last round
differs from the first one. A file that is written has counted, but rounds that lead back to the
text that they began with count as well. No rounds lead back if every replacement of the table is
lighter than the name it stands for. This file defines:

* `BanTable.Lightens`, `Analysis.Lightens`: tables and runs with such replacements only;
* `Analysis.Leaves`: what is left of a text, with the number of fixes that led to it;
* `Analysis.fixesOf`: the fixes that a run counts for a source.

The main results are `fixesApplied_of_run` and, for replacements that give the text back,
`repair_of_output_eq`.
-/

namespace TypeNameLint

/-! ## Lighter replacements -/

/-- The replacements of the table are lighter than the names that they stand for. -/
def BanTable.Lightens (w : Char → ℤ) (table : BanTable) : Prop :=
  ∀ ban ∈ table.toList, ∀ fix ∈ ban.2.fixWith?,
    Edit.weigh w fix.toList < Edit.weigh w ban.1.toList

instance (w : Char → ℤ) (table : BanTable) : Decidable (table.Lightens w) :=
  inferInstanceAs (Decidable (∀ ban ∈ table.toList, ∀ fix ∈ ban.2.fixWith?,
    Edit.weigh w fix.toList < Edit.weigh w ban.1.toList))

/-- Capital letters weigh one, and all other characters nothing. -/
def capitals (c : Char) : ℤ := if c.isUpper then 1 else 0

variable {w : Char → ℤ} {table : BanTable} {key fix : String} {spec : BanSpec}

theorem BanTable.Lightens.of_get? (h : table.Lightens w) (hget : table.get? key = some spec)
    (hfix : spec.fixWith? = some fix) :
    Edit.weigh w fix.toList < Edit.weigh w key.toList := by
  obtain ⟨before, after, hentries, -⟩ := List.lookup_eq_some_iff.1 hget
  have hmem : (key, spec) ∈ table.toList := by
    rw [toList, hentries]
    simp
  exact h (key, spec) hmem fix hfix

/-- A name is as heavy as its spelling, as blanks weigh nothing. -/
theorem BanRule.lightens_of_reports {rule : BanRule} {file : SourceFile} {place : Cursor}
    {v : Violation} {r : Replacement} (h : rule.Reports file place [v]) (hfix : v.fix? = some r)
    (hlight : rule.table.Lightens w) : Edit.Lightens w file.content.toList r := by
  cases h with
  | plain => simp [Violation.fix?] at hfix
  | unexplained => simp [Violation.fix?] at hfix
  | @fixable lines line text after key message fix spelled counts denied nonempty =>
    obtain rfl : ⟨Tree.spelledAt file.path lines line text, fix⟩ = r := by
      simpa [Violation.fix?] using hfix
    have hlighter : Edit.weigh w fix.toList < Edit.weigh w key.toList :=
      hlight.of_get? counts.banned (BanRule.fixWith?_eq_some_iff.2 ⟨message, rfl, nonempty⟩)
    rw [counts.key_eq, Edit.weigh_filter] at hlighter
    intro old hold
    have hslice := Text.slice?_append (lines ++ line) text after
    rw [← spelled.source_eq, Text.byteLength_append] at hslice
    obtain rfl : text = old := Option.some.inj (hslice.symm.trans hold)
    exact hlighter

namespace Analysis

variable {analysis : Analysis} {base shown : Path} {store : FileStore} {source : Source}
variable {sources : List Source} {ds : List Draft} {draft final : Draft} {counts : List Nat}
variable {language : Language} {lint : String → Option (List Violation)} {result : LintResult}

/-- All rules of the run ban type names, with replacements that are lighter. -/
def Lightens (w : Char → ℤ) (analysis : Analysis) : Prop :=
  ∀ rule ∈ analysis.rules, ∃ ban : BanRule, rule = ban.toRule ∧ ban.table.Lightens w

theorem Lightens.bansOnly (h : analysis.Lightens w) : analysis.BansOnly := by
  intro rule hrule
  rcases h rule hrule with ⟨ban, heq, -⟩
  exact ⟨ban, heq⟩

/-! ## Rounds -/

/-- A round takes at least the number of its replacements from the weight of the text. -/
theorem weigh_outcome_le (hlight : analysis.Lightens w) (hparse : language.ParsesWell)
    (hcurrent : draft.IsCurrent (analysis.lint shown language)) :
    Edit.weigh w draft.outcome.output.toList + draft.outcome.applied ≤
      Edit.weigh w draft.text.toList := by
  apply Edit.weigh_output_add_applied_le
  · intro r hr
    rcases List.mem_filterMap.1 hr with ⟨v, hv, hfix⟩
    exact (liesInside_of_mem_lint hlight.bansOnly hparse hcurrent hv hfix).1
  · intro r hr
    rcases List.mem_filterMap.1 hr with ⟨v, hv, hfix⟩
    rcases exists_reports_of_mem_lint hlight hparse hcurrent hv with
      ⟨ban, hban, tree, -, place, -, found, hreports, -, hsame⟩
    rw [hsame] at hfix
    exact BanRule.lightens_of_reports hreports hfix hban

/-- Rounds that take their replacements from the weight do so together. -/
theorem Passes.weigh_add_sum_le (h : Passes lint draft counts final) (hdraft : draft.IsCurrent lint)
    (hround : ∀ draft : Draft, draft.IsCurrent lint →
      Edit.weigh w draft.outcome.output.toList + draft.outcome.applied ≤
        Edit.weigh w draft.text.toList) :
    Edit.weigh w final.text.toList + counts.sum ≤ Edit.weigh w draft.text.toList := by
  induction h with
  | stop => simp
  | @pass draft final violations counts _ linted _ ih =>
    calc
      Edit.weigh w final.text.toList + (draft.outcome.applied :: counts).sum =
          Edit.weigh w final.text.toList + counts.sum + draft.outcome.applied := by
        rw [List.sum_cons]
        omega
      _ ≤ Edit.weigh w draft.outcome.output.toList + draft.outcome.applied :=
        Int.add_le_add_right (ih linted) _
      _ ≤ Edit.weigh w draft.text.toList := hround draft hdraft

theorem Passes.fixes_eq (h : Passes lint draft counts final) :
    final.fixes = draft.fixes + counts.sum := by
  induction h with
  | stop => simp
  | pass _ _ _ ih =>
    rw [ih, List.sum_cons]
    exact Nat.add_assoc _ _ _

/-- What is left of a text, with the number of fixes: the text itself and none, or the text after
rounds and all that they applied. -/
inductive Leaves (lint : String → Option (List Violation)) (text : String) : String → Nat → Prop
  | untouched : Leaves lint text text 0
  | fixed {violations : List Violation} {counts : List Nat} {final : Draft}
      (linted : lint text = some violations)
      (passes : Passes lint ⟨text, violations, 0⟩ counts final) :
      Leaves lint text final.text counts.sum

variable {text left : String} {fixes : Nat}

/-- Rounds that change the text are counted. -/
theorem Leaves.fixes_pos (h : Leaves lint text left fixes) (hchange : left ≠ text) : 0 < fixes := by
  cases h with
  | untouched => exact absurd rfl hchange
  | fixed linted passes =>
    cases passes with
    | stop => exact absurd rfl hchange
    | pass applied =>
      rw [List.sum_cons]
      omega

theorem Leaves.weigh_add_fixes_le (h : Leaves (analysis.lint shown language) text left fixes)
    (hlight : analysis.Lightens w) (hparse : language.ParsesWell) :
    Edit.weigh w left.toList + fixes ≤ Edit.weigh w text.toList := by
  cases h with
  | untouched => simp
  | fixed linted passes =>
    exact passes.weigh_add_sum_le linted fun draft hcurrent =>
      weigh_outcome_le hlight hparse hcurrent

theorem Leaves.fixes_eq_zero (h : Leaves (analysis.lint shown language) text text fixes)
    (hlight : analysis.Lightens w) (hparse : language.ParsesWell) : fixes = 0 := by
  have hlost := h.weigh_add_fixes_le hlight hparse
  omega

/-! ## Sources -/

/-- The fixes that a run counts for a source. -/
def fixesOf (analysis : Analysis) (base : Path) (store : FileStore) (source : Source) : Nat :=
  ((analysis.draft? base store source).map Draft.fixes).getD 0

theorem fixesApplied_foldl_addDraft (result : LintResult) (drafts : List Draft) :
    (drafts.foldl addDraft result).fixesApplied =
      result.fixesApplied + (drafts.map Draft.fixes).sum := by
  induction drafts generalizing result with
  | nil => simp
  | cons draft drafts ih =>
    simp only [List.foldl_cons, ih, addDraft, List.map_cons, List.sum_cons]
    omega

theorem fixesApplied_of_drafts (hds : analysis.drafts base store sources = .ok ds) :
    (sorted (ds.foldl addDraft .empty)).fixesApplied =
      (sources.map (analysis.fixesOf base store)).sum := by
  rcases drafts_eq_ok_iff.1 hds with ⟨-, rfl⟩
  have hsum : ((sources.filterMap (analysis.draft? base store)).map Draft.fixes).sum =
      (sources.map (analysis.fixesOf base store)).sum := by
    clear hds
    induction sources with
    | nil => rfl
    | cons source sources ih =>
      rw [List.filterMap_cons, List.map_cons, List.sum_cons, fixesOf, ← ih]
      cases analysis.draft? base store source <;> simp
  rw [sorted, fixesApplied_foldl_addDraft, hsum]
  exact Nat.zero_add _

/-- A source without a draft is not touched. -/
theorem IsOutcome.read_of_no_draft {outcome : Outcome}
    (h : IsOutcome analysis base result store sources outcome) (hapart : Apart store base sources)
    (hsource : source ∈ sources) (hnone : analysis.draft? base store source = none) :
    outcome.store.read [] source.path = store.read [] source.path := by
  refine h.frame.toSameShape.read_eq fun names hnames => h.frame.elsewhere names ?_
  rintro ⟨other, hother, hplace, draft, hdraft⟩
  rw [hapart.eq_of_resolve_eq hother hsource (hplace.trans hnames.symm)] at hdraft
  rw [draft?_eq_some_iff.2 hdraft] at hnone
  cases hnone

/-- What is counted for a source are the fixes that lead from the text it held to the one that is
left. -/
theorem IsOutcome.exists_leaves {outcome : Outcome}
    (h : IsOutcome analysis base result store sources outcome) (hapart : Apart store base sources)
    (hds : analysis.drafts base store sources = .ok ds) (hsource : source ∈ sources) :
    ∃ text left, store.read [] source.path = .ok text ∧
      outcome.store.read [] source.path = .ok left ∧
      Leaves (analysis.lint (base.reportedFrom source.path) source.language) text left
        (analysis.fixesOf base store source) := by
  cases hdraft : analysis.draft? base store source with
  | none =>
    have hzero : analysis.fixesOf base store source = 0 := by simp [fixesOf, hdraft]
    have hstop : analysis.stop? base store source = none :=
      (drafts_eq_ok_iff.1 hds).1 source hsource
    cases hread : store.read [] source.path with
    | error fault =>
      have hfails : analysis.draftOf base store source = .error fault := by rw [draftOf, hread]
      rw [stop?, hfails] at hstop
      cases hstop
    | ok text =>
      have hsame := h.read_of_no_draft hapart hsource hdraft
      rw [hread] at hsame
      rw [hzero]
      exact ⟨text, text, rfl, hsame, Leaves.untouched⟩
  | some draft =>
    have hfound := draft?_eq_some_iff.1 hdraft
    rcases draftOf_eq_ok_iff.1 hfound with ⟨text, hread, hexamine⟩
    rcases exists_passes_of_examine hexamine with ⟨violations, counts, hlint, hpasses, -⟩
    have hcount : analysis.fixesOf base store source = counts.sum := by
      simpa [fixesOf, hdraft] using hpasses.fixes_eq
    rw [hcount]
    exact ⟨text, draft.text, hread, h.left ⟨ds, hds⟩ source hsource draft hfound,
      Leaves.fixed hlint hpasses⟩

/-- The number of fixes adds up what is counted for the sources: all that the rounds applied which
lead from the text of a source to the one that is left. A source with another text than before has
counted. If all replacements are lighter than the names that they stand for, the number is at most
the weight that is lost, so a source with the same text has not counted, and a positive number means
that some file has changed. -/
theorem fixesApplied_of_run (analysis : Analysis) (store : FileStore) (sources : List Source)
    (result : LintResult) (hwf : store.WellFormed)
    (hsources : analysis.sources store = .ok sources)
    (hrun : (analysis.run store).result = .ok result) :
    result.fixesApplied = (sources.map (analysis.fixesOf (analysis.base store) store)).sum ∧
    (∀ source ∈ sources, ∃ text left,
      store.read [] source.path = .ok text ∧
      (analysis.run store).store.read [] source.path = .ok left ∧
      Leaves (analysis.lint ((analysis.base store).reportedFrom source.path) source.language)
        text left (analysis.fixesOf (analysis.base store) store source) ∧
      (left ≠ text → 0 < analysis.fixesOf (analysis.base store) store source) ∧
      ∀ w, analysis.Lightens w → source.language.ParsesWell →
        Edit.weigh w left.toList + analysis.fixesOf (analysis.base store) store source ≤
            Edit.weigh w text.toList ∧
          (left = text → analysis.fixesOf (analysis.base store) store source = 0)) ∧
    ∀ w, analysis.Lightens w → (∀ source ∈ sources, source.language.ParsesWell) →
      0 < result.fixesApplied → ∃ source ∈ sources,
        (analysis.run store).store.read [] source.path ≠ store.read [] source.path := by
  have hapart := apart_sources hwf hsources
  rcases exists_drafts_of_run hwf hsources hrun with ⟨ds, hds, rfl, houtcome⟩
  have hcounted := fixesApplied_of_drafts hds
  refine ⟨hcounted, fun source hsource => ?_, fun w hlight hparse hpos => ?_⟩
  · rcases houtcome.exists_leaves hapart hds hsource with ⟨text, left, hread, hleft, hleaves⟩
    refine ⟨text, left, hread, hleft, hleaves, hleaves.fixes_pos, fun w hlight hparse => ?_⟩
    refine ⟨hleaves.weigh_add_fixes_le hlight hparse, ?_⟩
    rintro rfl
    exact hleaves.fixes_eq_zero hlight hparse
  -- A source that counts holds another text.
  · rw [hcounted, List.sum_pos_iff_exists_pos_nat] at hpos
    rcases hpos with ⟨fixes, hfixes, hpos⟩
    rcases List.mem_map.1 hfixes with ⟨source, hsource, rfl⟩
    rcases houtcome.exists_leaves hapart hds hsource with ⟨text, left, hread, hleft, hleaves⟩
    refine ⟨source, hsource, fun hsame => ?_⟩
    obtain rfl : left = text := Except.ok.inj (hleft.symm.trans (hsame.trans hread))
    exact Nat.ne_of_gt hpos (hleaves.fixes_eq_zero hlight (hparse source hsource))

/-- The only replacement of the sample leaves no capital letter. -/
theorem lightens_sampleAnalysis : sampleAnalysis.Lightens capitals := by
  intro rule hrule
  exact ⟨sampleBan, List.mem_singleton.1 hrule, by decide +kernel⟩

/-- The banned name of the sample is replaced once, and the file has changed. -/
theorem fixesApplied_sampleStore :
    sampleStore.WellFormed ∧
      sampleAnalysis.sources sampleStore = .ok [⟨⟨"/w/a.ts"⟩, sampleLanguage⟩] ∧
      sampleAnalysis.Lightens capitals ∧ sampleLanguage.ParsesWell ∧
      (sampleAnalysis.run sampleStore).result = .ok ⟨[], 1, 1⟩ ∧
      (sampleAnalysis.run sampleStore).store.read [] ⟨"/w/a.ts"⟩ ≠
        sampleStore.read [] ⟨"/w/a.ts"⟩ := by
  have hwf : sampleStore.WellFormed := by decide +kernel
  have hsources := sources_sampleStore
  have hparse : sampleLanguage.ParsesWell := parsesAll_sampleLanguage.parsesWell
  have hrun : (sampleAnalysis.run sampleStore).result = .ok ⟨[], 1, 1⟩ :=
    congrArg Outcome.result run_sampleAnalysis
  obtain ⟨-, -, hchanged⟩ := fixesApplied_of_run sampleAnalysis sampleStore _ ⟨[], 1, 1⟩ hwf hsources
    hrun
  rcases hchanged capitals lightens_sampleAnalysis (by simpa using hparse) (by decide) with
    ⟨source, hsource, hdiffers⟩
  rw [List.mem_singleton.1 hsource] at hdiffers
  exact ⟨hwf, hsources, lightens_sampleAnalysis, hparse, hrun, hdiffers⟩

/-! ## Fixes that give the text back -/

/-- Rounds that give the text back are all run, and each of them counts. -/
theorem repair_of_output_eq (hdraft : draft.IsCurrent lint)
    (hback : draft.outcome.output = draft.text) (rounds : Nat) :
    repair lint rounds draft =
      some ⟨draft.text, draft.violations, draft.fixes + rounds * draft.outcome.applied⟩ := by
  induction rounds generalizing draft with
  | zero => simp [repair]
  | succ rounds ih =>
    rw [repair]
    split
    · rename_i hzero
      simp [hzero]
    · have hagain := @ih ⟨draft.text, draft.violations, draft.fixes + draft.outcome.applied⟩ hdraft
        hback
      have houtcome : Draft.outcome ⟨draft.text, draft.violations,
        draft.fixes + draft.outcome.applied⟩ = draft.outcome := rfl
      have hlint : lint draft.text = some draft.violations := hdraft
      rw [hback, hlint]
      dsimp only
      rw [hagain, houtcome, Nat.succ_mul, Nat.add_assoc, Nat.add_comm draft.outcome.applied]

/-- One name is banned, and replaced by itself. -/
def selfBan : BanRule := ⟨.build [("String", .record "" (some "String"))], .error⟩

def selfFixing : Analysis := { sampleAnalysis with rules := [selfBan.toRule] }

/-- What the rounds of the run make of the text of the sample. -/
def selfDraft (fixes : Nat) : Draft :=
  ⟨"x: String", [selfBan.ban "String" (.record "" (some "String")) ⟨⟨"a.ts"⟩, 1, 4, 3, 6⟩], fixes⟩

theorem isCurrent_selfDraft :
    (selfDraft 0).IsCurrent (selfFixing.lint ⟨"a.ts"⟩ sampleLanguage) := by
  rw [Draft.IsCurrent, lint_of_ban rfl rfl]
  decide +kernel

/-- Ten fixes are counted in a run that leaves all files as they are. -/
theorem fixesApplied_without_change :
    sampleStore.WellFormed ∧ selfFixing.fixes = true ∧
      ∃ result, selfFixing.run sampleStore = ⟨.ok result, sampleStore⟩ ∧
        result.fixesApplied = 10 := by
  have hsources : selfFixing.sources sampleStore = .ok [⟨⟨"/w/a.ts"⟩, sampleLanguage⟩] :=
    sources_of_pairwise (Walks.directory resolve_sampleStore rfl rfl) rfl
      (List.pairwise_singleton _ _)
  have hbase : selfFixing.base sampleStore = ⟨"/w"⟩ := by decide +kernel
  have hread : sampleStore.read [] ⟨"/w/a.ts"⟩ = .ok "x: String" := rfl
  have hshown : Path.reportedFrom ⟨"/w"⟩ ⟨"/w/a.ts"⟩ = ⟨"a.ts"⟩ := by decide +kernel
  have hround : (selfDraft 0).outcome = ⟨"x: String", 1, 0⟩ := by decide +kernel
  have hlint : selfFixing.lint ⟨"a.ts"⟩ sampleLanguage "x: String" =
      some (selfDraft 0).violations := isCurrent_selfDraft
  -- Every round finds the text that the first one found.
  have hrounds : repair (selfFixing.lint ⟨"a.ts"⟩ sampleLanguage) maxRounds (selfDraft 0) =
      some (selfDraft 10) := by
    rw [repair_of_output_eq isCurrent_selfDraft (by rw [hround]; rfl), hround]
    rfl
  have hexamine : examine selfFixing.fixes (selfFixing.lint ⟨"a.ts"⟩ sampleLanguage) "x: String" =
      some (selfDraft 10) := by
    rw [examine, hlint]
    exact hrounds
  have hsame : (selfDraft 10).text = "x: String" := rfl
  have hvisit : selfFixing.visit ⟨"/w"⟩ sampleStore ⟨⟨"/w/a.ts"⟩, sampleLanguage⟩ =
      .ok ⟨some (selfDraft 10), sampleStore⟩ := by
    simp only [visit, hread, hshown, hexamine, if_pos hsame]
  refine ⟨by decide +kernel, rfl, ?_⟩
  rw [run_of_sources hsources, hbase]
  simp only [visitAll, hvisit]
  exact ⟨_, rfl, rfl⟩

end Analysis
end TypeNameLint
