import TypeNameLint.Ban.Rule
import TypeNameLint.Proofs.Tree.References
import Mathlib.Data.List.Forall2

/-!
# Findings — what the rule reports at each place of a tree

Whether a place is reported depends on the place, the text of its node and the line it is on, and on
no other place. This file defines:

* `BanRule.Counts`: a place whose text is a banned name;
* `BanRule.Reports`: the violations that a place gives rise to, one case for each outcome;
* `BanRule.atPlace`: the violation that the rule finds at a place;
* `BanRule.BansAt`: a place at which a banned name is written, whatever is said about its line;

and proves that the violations in a file are those of its places, one place after the other.
-/

namespace TypeNameLint
namespace BanRule

open TypeNameLint.Tree

variable {rule : BanRule} {file : SourceFile} {place : Cursor}
variable {lines line text after : List Char} {key : String} {spec : BanSpec}

/-! ## Reports -/

/-- A place counts if a type is looked up there and the text without blanks is a banned name. -/
structure Counts (rule : BanRule) (place : Cursor) (text : List Char) (key : String)
    (spec : BanSpec) : Prop where
  looked_up : place.IsEmptyLiteral ∨ place.IsTypeReference
  key_eq : key.toList = text.filter fun c => !Text.isBlank c
  banned : rule.table.get? key = some spec

/-- The violations at a place, which is spelled in the file of the rule. A place that counts is
reported, with a replacement over its span if the ban has one to offer, unless the line is exempt.
Where violations are errors, an exemption has to give a reason. -/
inductive Reports (rule : BanRule) (file : SourceFile) (place : Cursor) : List Violation → Prop
  | clean {lines line text after : List Char}
      (spelled : Spells file.content.toList place.focus.label lines line text after)
      (uncounted : ∀ key spec, ¬ rule.Counts place text key spec) :
      Reports rule file place []
  | plain {lines line text after : List Char} {key : String} {spec : BanSpec}
      (spelled : Spells file.content.toList place.focus.label lines line text after)
      (counts : rule.Counts place text key spec)
      (denied : exemption file.content (lines.count '\n' + 1) "ban-types" = .denied)
      (no_fix : ∀ message fix, spec = .record message (some fix) → fix = "") :
      Reports rule file place
        [{ code := "TB001"
           rule := "ban-types"
           severity := rule.severity
           location := spelledAt file.path lines line text
           message := s!"Don't use '{key}' as a type." ++ spec.messageSuffix
           suggestion := none
           fixedSeverity := false }]
  | fixable {lines line text after : List Char} {key message fix : String}
      (spelled : Spells file.content.toList place.focus.label lines line text after)
      (counts : rule.Counts place text key (.record message (some fix)))
      (denied : exemption file.content (lines.count '\n' + 1) "ban-types" = .denied)
      (nonempty : fix ≠ "") :
      Reports rule file place
        [{ code := "TB001"
           rule := "ban-types"
           severity := rule.severity
           location := spelledAt file.path lines line text
           message := s!"Don't use '{key}' as a type." ++
             (BanSpec.record message (some fix)).messageSuffix
           suggestion := some ⟨s!"Replace `{key}` with `{fix}`",
             some ⟨spelledAt file.path lines line text, fix⟩⟩
           fixedSeverity := false }]
  | excused {lines line text after : List Char} {key : String} {spec : BanSpec}
      {reason : Option String}
      (spelled : Spells file.content.toList place.focus.label lines line text after)
      (counts : rule.Counts place text key spec)
      (allowed : exemption file.content (lines.count '\n' + 1) "ban-types" = .allowed reason)
      (explained : rule.severity ≠ .error ∨ reason ≠ none) :
      Reports rule file place []
  | unexplained {lines line text after : List Char} {key : String} {spec : BanSpec}
      (spelled : Spells file.content.toList place.focus.label lines line text after)
      (counts : rule.Counts place text key spec)
      (allowed : exemption file.content (lines.count '\n' + 1) "ban-types" = .allowed none)
      (error : rule.severity = .error) :
      Reports rule file place
        [{ code := "TB001"
           rule := "ban-types"
           severity := .warning
           location := spelledAt file.path lines line text
           message := "Allow directive for 'ban-types' is missing required reason"
           suggestion := some
             ⟨"Add reason=\"...\" to explain why this exception is necessary", none⟩
           fixedSeverity := true }]

/-! ## The violation at one place -/

/-- The violation that the rule finds at a place. -/
def atPlace (rule : BanRule) (file : SourceFile) (place : Cursor) : Option Violation :=
  (TypeUse.ofCursor? place).bind (rule.checkUse file)

theorem eq_squeeze_of_toList_eq (h : key.toList = text.filter fun c => !Text.isBlank c) :
    Text.squeeze (String.ofList text) = key := by
  rw [Text.squeeze, String.toList_ofList, ← h, String.ofList_toList]

/-- A banned name is written at a place, and a type is looked up there. -/
structure BansAt (rule : BanRule) (file : SourceFile) (place : Cursor) (key : String)
    (spec : BanSpec) : Prop where
  looked_up : place.IsEmptyLiteral ∨ place.IsTypeReference
  key_eq : Text.squeeze (nodeText file.content.toList place.focus.label) = key
  banned : rule.table.get? key = some spec

/-- What is said about the line at which a place starts. -/
def exemptionAt (file : SourceFile) (place : Cursor) : Exemption :=
  exemption file.content (locationOf file.path file.content.toList place.focus.label).line
    "ban-types"

/-- A banned name is judged by the exemption of its line. -/
theorem atPlace_of_bansAt (h : rule.BansAt file place key spec) :
    rule.atPlace file place =
      rule.verdict key spec (locationOf file.path file.content.toList place.focus.label)
        (exemptionAt file place) := by
  -- Both kinds of uses are looked up in the same way, as long as they have no members.
  have hlookup : ∀ use : TypeUse, use.node = place.focus → ¬ use.memberCount > 0 →
      rule.checkUse file use =
        rule.verdict key spec (locationOf file.path file.content.toList place.focus.label)
          (exemptionAt file place) := by
    intro use hnode hmembers
    simp only [checkUse, if_neg hmembers, hnode, h.key_eq, h.banned]
    rfl
  rcases h.looked_up with hliteral | hreference
  · rw [atPlace, TypeUse.ofCursor?_of_object_type hliteral.1]
    refine hlookup _ rfl ?_
    rw [TypeUse.memberCount_literal_pos_iff]
    rintro ⟨child, hchild, hmember⟩
    exact hmember (hliteral.2 child hchild)
  · rw [atPlace, TypeUse.ofCursor?_of_isTypeReference hreference]
    exact hlookup _ rfl (Nat.lt_irrefl 0)

/-- Nothing is reported but names that are banned. -/
theorem exists_bansAt_of_atPlace {v : Violation} (h : rule.atPlace file place = some v) :
    ∃ key spec, rule.BansAt file place key spec := by
  rcases Option.bind_eq_some_iff.1 h with ⟨use, huse, hcheck⟩
  have hnode : use.node = place.focus := TypeUse.node_of_ofCursor? huse
  rw [checkUse] at hcheck
  split at hcheck
  · cases hcheck
  · rename_i hmembers
    -- A use without members is one that is looked up.
    have hlooked : place.IsEmptyLiteral ∨ place.IsTypeReference := by
      by_contra hneither
      rw [not_or] at hneither
      exact hmembers (TypeUse.memberCount_pos_of_ofCursor? hneither.1 hneither.2 huse)
    cases hget : rule.table.get?
        (Text.squeeze (nodeText file.content.toList place.focus.label)) with
    | none => simp [hnode, hget] at hcheck
    | some spec => exact ⟨_, spec, hlooked, rfl, hget⟩

/-- A place that counts is judged by the exemption of its line. -/
theorem atPlace_of_counts
    (hspelled : Spells file.content.toList place.focus.label lines line text after)
    (hcounts : rule.Counts place text key spec) :
    rule.atPlace file place =
      rule.verdict key spec (spelledAt file.path lines line text)
        (exemption file.content (lines.count '\n' + 1) "ban-types") := by
  have hkey : Text.squeeze (nodeText file.content.toList place.focus.label) = key := by
    rw [hspelled.nodeText_eq, eq_squeeze_of_toList_eq hcounts.key_eq]
  rw [atPlace_of_bansAt ⟨hcounts.looked_up, hkey, hcounts.banned⟩, exemptionAt,
    hspelled.locationOf_eq]
  rfl

/-- A place that does not count is not reported. -/
theorem atPlace_of_not_counts
    (hspelled : Spells file.content.toList place.focus.label lines line text after)
    (huncounted : ∀ key spec, ¬ rule.Counts place text key spec) :
    rule.atPlace file place = none := by
  refine Option.eq_none_iff_forall_ne_some.2 fun v hv => ?_
  rcases exists_bansAt_of_atPlace hv with ⟨key, spec, hlooked, hkey, hbanned⟩
  rw [hspelled.nodeText_eq] at hkey
  exact huncounted key spec ⟨hlooked, by simp [← hkey], hbanned⟩

/-! ## The cases of a place that counts -/

theorem fixWith?_eq_none_iff :
    spec.fixWith? = none ↔ ∀ message fix, spec = .record message (some fix) → fix = "" := by
  cases spec with
  | bare => simp [BanSpec.fixWith?]
  | message text => simp [BanSpec.fixWith?]
  | record message fixWith =>
    cases fixWith with
    | none => simp [BanSpec.fixWith?]
    | some fix => simp [BanSpec.fixWith?]

theorem fixWith?_eq_some_iff {fix : String} :
    spec.fixWith? = some fix ↔ ∃ message, spec = .record message (some fix) ∧ fix ≠ "" := by
  cases spec with
  | bare => simp [BanSpec.fixWith?]
  | message text => simp [BanSpec.fixWith?]
  | record message fixWith =>
    cases fixWith with
    | none => simp [BanSpec.fixWith?]
    | some other =>
      by_cases hempty : other = ""
      · simp [BanSpec.fixWith?, hempty]
      · simp only [BanSpec.fixWith?, String.isEmpty_iff, if_neg hempty, Option.some.injEq,
          BanSpec.record.injEq]
        constructor
        · rintro rfl
          exact ⟨message, ⟨rfl, rfl⟩, hempty⟩
        · rintro ⟨_, ⟨_, hfix⟩, _⟩
          exact hfix

theorem ban_of_no_fix (location : Location) (h : spec.fixWith? = none) :
    rule.ban key spec location =
      { code := "TB001"
        rule := "ban-types"
        severity := rule.severity
        location := location
        message := s!"Don't use '{key}' as a type." ++ spec.messageSuffix
        suggestion := none
        fixedSeverity := false } := by
  rw [ban, h]
  rfl

theorem ban_of_fix {fix : String} (location : Location) (h : spec.fixWith? = some fix) :
    rule.ban key spec location =
      { code := "TB001"
        rule := "ban-types"
        severity := rule.severity
        location := location
        message := s!"Don't use '{key}' as a type." ++ spec.messageSuffix
        suggestion := some ⟨s!"Replace `{key}` with `{fix}`", some ⟨location, fix⟩⟩
        fixedSeverity := false } := by
  rw [ban, h]
  rfl

theorem missingReason_eq (location : Location) :
    missingReason location =
      { code := "TB001"
        rule := "ban-types"
        severity := .warning
        location := location
        message := "Allow directive for 'ban-types' is missing required reason"
        suggestion := some
          ⟨"Add reason=\"...\" to explain why this exception is necessary", none⟩
        fixedSeverity := true } := by
  rfl

/-- A denied place is reported with or without a replacement, as its ban has one or not. -/
theorem reports_ban
    (hspelled : Spells file.content.toList place.focus.label lines line text after)
    (hcounts : rule.Counts place text key spec)
    (hdenied : exemption file.content (lines.count '\n' + 1) "ban-types" = .denied) :
    rule.Reports file place [rule.ban key spec (spelledAt file.path lines line text)] := by
  cases hfix : spec.fixWith? with
  | none =>
    rw [ban_of_no_fix _ hfix]
    exact Reports.plain hspelled hcounts hdenied (fixWith?_eq_none_iff.1 hfix)
  | some fix =>
    rw [ban_of_fix _ hfix]
    rcases fixWith?_eq_some_iff.1 hfix with ⟨message, rfl, hnonempty⟩
    exact Reports.fixable hspelled hcounts hdenied hnonempty

/-- Every place of the file reports what the rule finds there. -/
theorem reports_atPlace
    (hspan : Text.IsSpan file.content.toList place.focus.label.start place.focus.label.stop) :
    rule.Reports file place (rule.atPlace file place).toList := by
  rcases exists_spells hspan with ⟨lines, line, text, after, hspelled⟩
  -- The cases are those of the reports: uncounted, denied, and allowed with or without a reason.
  by_cases huncounted : ∀ key spec, ¬ rule.Counts place text key spec
  · rw [atPlace_of_not_counts hspelled huncounted]
    exact Reports.clean hspelled huncounted
  · simp only [not_forall, not_not] at huncounted
    rcases huncounted with ⟨key, spec, hcounts⟩
    rw [atPlace_of_counts hspelled hcounts]
    cases hexemption : exemption file.content (lines.count '\n' + 1) "ban-types" with
    | denied => exact reports_ban hspelled hcounts hexemption
    | allowed reason =>
      cases reason with
      | some reason =>
        exact Reports.excused hspelled hcounts hexemption (Or.inr (by simp))
      | none =>
        by_cases herror : rule.severity = .error
        · have hverdict : rule.verdict key spec (spelledAt file.path lines line text)
              (.allowed none) = some (missingReason (spelledAt file.path lines line text)) := by
            simp [verdict, needsReason, herror]
          rw [hverdict, missingReason_eq]
          exact Reports.unexplained hspelled hcounts hexemption herror
        · have hverdict : rule.verdict key spec (spelledAt file.path lines line text)
              (.allowed none) = none := by
            simp [verdict, needsReason, herror]
          rw [hverdict]
          exact Reports.excused hspelled hcounts hexemption (Or.inl herror)

/-- The violations are those at the places; with no banned name there are none at any place, so the
rule need not look. -/
theorem check_eq_filterMap (rule : BanRule) (file : SourceFile) (tree : Tree) :
    rule.check file tree = tree.places.filterMap (rule.atPlace file) := by
  rw [check]
  split
  -- The rule looks at no place if no name is banned.
  · rename_i hempty
    simp only [BanTable.isEmpty, OrderedMap.isEmpty, List.isEmpty_iff] at hempty
    refine (List.filterMap_eq_nil_iff.2 fun place _ => ?_).symm
    refine Option.eq_none_iff_forall_ne_some.2 fun v hv => ?_
    rcases exists_bansAt_of_atPlace hv with ⟨key, spec, hbans⟩
    have hbanned := hbans.banned
    simp [BanTable.get?, OrderedMap.get?, hempty] at hbanned
  -- The uses are found at the places of the walk, which are those of the tree.
  · rw [typeUses, Cursor.walk_ofTree_eq_places, List.filterMap_filterMap]
    rfl

/-- Going through the places gives the violations of the rule. -/
theorem check_eq_flatten (rule : BanRule) (file : SourceFile) (tree : Tree) :
    rule.check file tree =
      (tree.places.map fun place => (rule.atPlace file place).toList).flatten := by
  rw [check_eq_filterMap, ← List.flatMap_def]
  exact List.filterMap_eq_flatMap_toList _ _

end BanRule
end TypeNameLint
