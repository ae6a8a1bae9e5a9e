import TypeNameLint.Analysis.File
import TypeNameLint.Proofs.Ban.Verdicts
import TypeNameLint.Proofs.Edit.Selection

/-!
# Lint — the violations of a text when all rules ban names

Configuration changes at most the severity of a violation, so each of them still covers the node of
a place. This file defines:

* `Language.ParsesAll`, `Language.ParsesWell`: parsers that have a well-formed tree for every text,
  and those whose trees are well-formed where they have one;
* `Analysis.BansOnly`: runs whose rules all ban type names.

The main result is `fits_of_mem_lint`: no replacement is offered in vain.
-/

namespace TypeNameLint

/-- Every text has a tree, and a well-formed one. -/
def Language.ParsesAll (language : Language) : Prop :=
  ∀ text, ∃ tree, language.parse text = some tree ∧ tree.WellFormed text.toList

theorem Language.ParsesAll.isSome {language : Language} (h : language.ParsesAll) (text : String) :
    (language.parse text).isSome := by
  rcases h text with ⟨tree, hparse, -⟩
  simp [hparse]

/-- Every text that has a tree has a well-formed one. -/
def Language.ParsesWell (language : Language) : Prop :=
  ∀ text tree, language.parse text = some tree → tree.WellFormed text.toList

theorem Language.ParsesAll.parsesWell {language : Language} (h : language.ParsesAll) :
    language.ParsesWell := by
  intro text tree hparse
  rcases h text with ⟨other, hother, hwf⟩
  obtain rfl : other = tree := Option.some.inj (hother.symm.trans hparse)
  exact hwf

/-! ## Violations of the rule -/

namespace BanRule

variable {rule : BanRule} {file : SourceFile} {v : Violation}

/-- A violation and its replacement cover the node of the place that it was found at. -/
theorem Reports.covers {place : Cursor} {found : List Violation} :
    rule.Reports file place found → v ∈ found →
      v.location = locationOf file.path file.content.toList place.focus.label ∧
        ∀ r, v.fix? = some r → r.location = v.location := by
  intro hreports hv
  cases hreports with
  | clean => cases hv
  | excused => cases hv
  | plain spelled =>
    rcases List.mem_singleton.1 hv with rfl
    exact ⟨(spelled.locationOf_eq file.path).symm, by simp [Violation.fix?]⟩
  | fixable spelled =>
    rcases List.mem_singleton.1 hv with rfl
    refine ⟨(spelled.locationOf_eq file.path).symm, ?_⟩
    rintro r ⟨⟩
    rfl
  | unexplained spelled =>
    rcases List.mem_singleton.1 hv with rfl
    exact ⟨(spelled.locationOf_eq file.path).symm, by simp [Violation.fix?]⟩

end BanRule

/-! ## All rules -/

namespace Analysis

variable {analysis : Analysis} {language : Language} {shown : Path} {text : String}
variable {violations : List Violation} {v : Violation} {r : Replacement}

/-- All rules of the run ban type names. -/
def BansOnly (analysis : Analysis) : Prop :=
  ∀ rule ∈ analysis.rules, ∃ ban : BanRule, rule = ban.toRule

@[simp] theorem location_withConfigured (severity : Option Severity) (v : Violation) :
    (withConfigured severity v).location = v.location := by
  cases severity with
  | none => rfl
  | some severity =>
    rw [withConfigured]
    split <;> rfl

@[simp] theorem fix?_withConfigured (severity : Option Severity) (v : Violation) :
    (withConfigured severity v).fix? = v.fix? := by
  cases severity with
  | none => rfl
  | some severity =>
    rw [withConfigured]
    split <;> rfl

/-- The violations of a file come from its rules, which see the path that reports show. -/
theorem exists_rule_of_mem_lint :
    analysis.lint shown language text = some violations → v ∈ violations →
      ∃ tree, language.parse text = some tree ∧ ∃ rule ∈ analysis.rules,
        ∃ found ∈ rule.check ⟨shown, text⟩ tree,
          v = withConfigured (analysis.config.severity? rule.name) found := by
  intro hlint hv
  rcases Option.map_eq_some_iff.1 hlint with ⟨tree, hparse, rfl⟩
  refine ⟨tree, hparse, ?_⟩
  rcases List.mem_flatMap.1 hv with ⟨rule, hrule, hv⟩
  rw [applyRule] at hv
  split at hv
  · rcases List.mem_map.1 hv with ⟨found, hfound, rfl⟩
    exact ⟨rule, hrule, found, hfound, rfl⟩
  · cases hv

/-- A single rule without a section finds what it finds by itself. -/
theorem lint_of_unconfigured {rule : Rule} (hrules : analysis.rules = [rule])
    (hsection : analysis.config.rule? rule.name = none) :
    analysis.lint shown language text =
      (language.parse text).map (rule.check ⟨shown, text⟩) := by
  have hrule : ∀ tree, analysis.applyRules ⟨shown, text⟩ tree = rule.check ⟨shown, text⟩ tree := by
    intro tree
    have henabled : analysis.config.isEnabled rule.name = true := by
      simp [Config.isEnabled, hsection]
    have hseverity : analysis.config.severity? rule.name = none := by
      simp [Config.severity?, hsection]
    have hsame : (rule.check ⟨shown, text⟩ tree).map (withConfigured none) =
        rule.check ⟨shown, text⟩ tree := List.map_id _
    simp [applyRules, applyRule, hrules, henabled, hseverity, hsame]
  rw [lint, funext hrule]

/-- What a single ban finds in a text is what it finds at the places of its tree. -/
theorem lint_of_ban {ban : BanRule} (hrules : analysis.rules = [ban.toRule])
    (hsection : analysis.config.rule? ban.toRule.name = none) :
    analysis.lint shown language text = (language.parse text).map fun tree =>
      (tree.places.map fun place => (ban.atPlace ⟨shown, text⟩ place).toList).flatten := by
  rw [lint_of_unconfigured hrules hsection]
  congr 1
  funext tree
  exact ban.check_eq_flatten ⟨shown, text⟩ tree

/-- What is found in a text is reported at a place of its tree, by a rule that bans names. What is
known of the bans of all rules is known of those of this one. -/
theorem exists_reports_of_mem_lint {P : BanRule → Prop}
    (hbans : ∀ rule ∈ analysis.rules, ∃ ban : BanRule, rule = ban.toRule ∧ P ban)
    (hparse : language.ParsesWell) :
    analysis.lint shown language text = some violations → v ∈ violations →
      ∃ ban : BanRule, P ban ∧ ∃ tree : Tree, tree.WellFormed text.toList ∧
        ∃ place ∈ tree.places, ∃ found, ban.Reports ⟨shown, text⟩ place [found] ∧
          v.location = found.location ∧ v.fix? = found.fix? := by
  intro hlint hv
  rcases exists_rule_of_mem_lint hlint hv with ⟨tree, htree, rule, hrule, found, hfound, rfl⟩
  rcases hbans rule hrule with ⟨ban, rfl, hban⟩
  have hwf : tree.WellFormed text.toList := hparse text tree htree
  have hplace : ∃ place ∈ tree.places, ban.atPlace ⟨shown, text⟩ place = some found :=
    BanRule.mem_check_iff.1 hfound
  rcases hplace with ⟨place, hplace, hatPlace⟩
  have hreports : ban.Reports ⟨shown, text⟩ place (ban.atPlace ⟨shown, text⟩ place).toList :=
    BanRule.reports_atPlace (hwf.span _ (Tree.focus_mem_preorder hplace))
  rw [hatPlace] at hreports
  exact ⟨ban, hban, tree, hwf, place, hplace, found, hreports, by simp, by simp⟩

/-- What is found in a text covers a node of its tree. -/
theorem covers_of_mem_lint (hbans : analysis.BansOnly) (hparse : language.ParsesWell) :
    analysis.lint shown language text = some violations → v ∈ violations →
      ∃ tree : Tree, tree.WellFormed text.toList ∧ ∃ t ∈ tree.preorder,
        v.location = locationOf shown text.toList t.label ∧
          ∀ r, v.fix? = some r → r.location = v.location := by
  intro hlint hv
  have hbans' : ∀ rule ∈ analysis.rules, ∃ ban : BanRule, rule = ban.toRule ∧ True := by
    simpa [BansOnly] using hbans
  rcases exists_reports_of_mem_lint hbans' hparse hlint hv with
    ⟨ban, -, tree, hwf, place, hplace, found, hreports, hlocation, hfix⟩
  rw [hlocation, hfix]
  exact ⟨tree, hwf, place.focus, Tree.focus_mem_preorder hplace, hreports.covers (by simp)⟩

theorem file_of_mem_lint (hbans : analysis.BansOnly) (hparse : language.ParsesAll)
    (hlint : analysis.lint shown language text = some violations) (hv : v ∈ violations) :
    v.location.file = shown := by
  rcases covers_of_mem_lint hbans hparse.parsesWell hlint hv with ⟨tree, -, t, -, hlocation, -⟩
  rw [hlocation]
  rfl

/-- A replacement that is offered covers a node, so its span is that of a text and does not wrap
around. -/
theorem liesInside_of_mem_lint (hbans : analysis.BansOnly) (hparse : language.ParsesWell)
    (hlint : analysis.lint shown language text = some violations) (hv : v ∈ violations)
    (hr : v.fix? = some r) : Edit.FitsWord r ∧ Edit.LiesInside text.toList r := by
  rcases covers_of_mem_lint hbans hparse hlint hv with ⟨tree, hwf, t, ht, hlocation, hfix⟩
  have hspan := hwf.span t ht
  have hle : t.label.start ≤ t.label.stop := by
    rcases hspan with ⟨before, inner, after, -, -, hstop⟩
    omega
  have hoffset : r.location.offset = t.label.start := by
    rw [hfix r hr, hlocation]
    rfl
  -- The length is a difference of words, so nothing is lost in adding it to the start again.
  have hstop : Edit.stopOf r = t.label.stop := by
    have hlength : r.location.length = t.label.stop - t.label.start := by
      rw [hfix r hr, hlocation]
      rfl
    rw [Edit.stopOf, hoffset, hlength]
    omega
  rw [Edit.FitsWord, Edit.LiesInside, hoffset, hstop]
  exact ⟨hwf.word t ht, hspan⟩

/-- A replacement that is offered fits the text. -/
theorem fits_of_mem_lint (hbans : analysis.BansOnly) (hparse : language.ParsesAll)
    (hlint : analysis.lint shown language text = some violations) (hv : v ∈ violations)
    (hr : v.fix? = some r) : Edit.fits text.toList r = true := by
  rcases liesInside_of_mem_lint hbans hparse.parsesWell hlint hv hr with ⟨hword, hinside⟩
  exact (Edit.fits_iff hword).2 hinside

end Analysis
end TypeNameLint
