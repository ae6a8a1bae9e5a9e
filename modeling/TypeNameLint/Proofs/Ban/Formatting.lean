import TypeNameLint.Proofs.Ban.Verdicts
import TypeNameLint.Proofs.Data.Lists
import TypeNameLint.Proofs.Directive.Marker
import TypeNameLint.Proofs.Tree.Alike

/-!
# Formatting — findings do not depend on where blanks and line ends are

A place is judged by its surroundings, by its text without blanks and by the directives for its
line. Without directives, two sources with alike trees are therefore judged alike. This file
defines:

* `Violation.SaysSame`: violations that differ at most in where they are.

The main result is `check_of_alike`.
-/

namespace TypeNameLint

/-- Violations that say the same and offer the same text, wherever they are. -/
structure Violation.SaysSame (v v' : Violation) : Prop where
  code : v.code = v'.code
  severity : v.severity = v'.severity
  message : v.message = v'.message
  help : v.suggestion.map Suggestion.message = v'.suggestion.map Suggestion.message
  fix : v.fix?.map Replacement.newText = v'.fix?.map Replacement.newText

namespace BanRule

variable {rule : BanRule} {file file' : SourceFile} {place place' : Cursor} {v : Violation}

/-! ## One place -/

/-- In a text without directives every banned use is reported as such. -/
theorem checkUse_of_no_marker (h : ¬ Directive.marker <:+: file.content.toList) (use : TypeUse) :
    rule.checkUse file use =
      if use.memberCount > 0 then none
      else
        (rule.table.get? (Text.squeeze (nodeText file.content.toList use.node.label))).map
          fun spec => rule.ban (Text.squeeze (nodeText file.content.toList use.node.label)) spec
            (locationOf file.path file.content.toList use.node.label) := by
  simp only [checkUse, exemption_of_no_marker h]
  split
  · rfl
  · cases rule.table.get? (Text.squeeze (nodeText file.content.toList use.node.label)) with
    | none => rfl
    | some spec => rfl

/-- What a ban says depends on the name and the table, not on the location. -/
theorem saysSame_ban (key : String) (spec : BanSpec) (location location' : Location) :
    (rule.ban key spec location).SaysSame (rule.ban key spec location') where
  code := rfl
  severity := rfl
  message := rfl
  help := by cases hfix : spec.fixWith? <;> simp [ban, hfix]
  fix := by cases hfix : spec.fixWith? <;> simp [ban, Violation.fix?, hfix]

/-- Alike places of texts without directives are both reported, and alike, or neither is. -/
theorem atPlace_cases_of_alike (h : ¬ Directive.marker <:+: file.content.toList)
    (h' : ¬ Directive.marker <:+: file'.content.toList)
    (halike : Cursor.Alike file.content.toList file'.content.toList place place') :
    (rule.atPlace file place = none ∧ rule.atPlace file' place' = none) ∨
      ∃ v v', rule.atPlace file place = some v ∧ rule.atPlace file' place' = some v' ∧
        v.SaysSame v' := by
  rcases halike.ofCursor?_cases with ⟨hnone, hnone'⟩ | ⟨use, use', huse, huse', hnode, hcount⟩
  · left
    rw [atPlace, atPlace, hnone, hnone']
    exact ⟨rfl, rfl⟩
  · rw [atPlace, atPlace, huse, huse', Option.bind_some, Option.bind_some,
      checkUse_of_no_marker h, checkUse_of_no_marker h', hcount, hnode.squeeze_eq]
    -- The two uses are now looked up under the same name.
    split
    · exact Or.inl ⟨rfl, rfl⟩
    · cases rule.table.get? (Text.squeeze (nodeText file'.content.toList use'.node.label)) with
      | none => exact Or.inl ⟨rfl, rfl⟩
      | some spec => exact Or.inr ⟨_, _, rfl, rfl, saysSame_ban _ spec _ _⟩

/-! ## Files -/

/-- Two sources without directives that spell alike trees have the same findings: there are pairs of
corresponding places, listed in document order, such that the violations of either source sit on
the places of these pairs, and those on one pair say the same and offer the same text. -/
theorem check_of_alike (rule : BanRule) (file file' : SourceFile) (tree tree' : Tree)
    (hmarker : ¬ "typeban:".toList <:+: file.content.toList)
    (hmarker' : ¬ "typeban:".toList <:+: file'.content.toList)
    (halike : Tree.Alike file.content.toList file'.content.toList tree tree') :
    tree.places.length = tree'.places.length ∧
    ∃ pairs : List (Cursor × Cursor), pairs.Sublist (tree.places.zip tree'.places) ∧
      List.Forall₂ (fun v pair => rule.atPlace file pair.1 = some v ∧
          v.location = locationOf file.path file.content.toList pair.1.focus.label)
        (rule.check file tree) pairs ∧
      List.Forall₂ (fun v pair => rule.atPlace file' pair.2 = some v ∧
          v.location = locationOf file'.path file'.content.toList pair.2.focus.label)
        (rule.check file' tree') pairs ∧
      List.Forall₂ Violation.SaysSame (rule.check file tree) (rule.check file' tree') := by
  have hplaces := halike.forall₂_places
  rcases exists_pairs_of_forall₂ hplaces
    (fun place place' => @atPlace_cases_of_alike rule file file' place place' hmarker hmarker') with
    ⟨pairs, hsublist, hleft, hright, hboth⟩
  refine ⟨hplaces.length_eq, pairs, hsublist, ?_⟩
  rw [check_eq_filterMap, check_eq_filterMap]
  refine ⟨?_, ?_, hboth⟩
  · exact hleft.imp fun v pair hfound => ⟨hfound, location_of_atPlace hfound⟩
  · exact hright.imp fun v pair hfound => ⟨hfound, location_of_atPlace hfound⟩

/-- One instantiation on a single line and over several lines. -/
def inlineFile : SourceFile := ⟨⟨"a.ts"⟩, "a: Record< string , unknown >"⟩

def inlineTree : Tree :=
  .node ⟨"program", none, 0, 29⟩
    [.node ⟨"type_annotation", some "type", 1, 29⟩
      [.node ⟨"generic_type", none, 3, 29⟩
        [.node ⟨"type_identifier", some "name", 3, 9⟩ [],
         .node ⟨"type_arguments", none, 9, 29⟩
          [.node ⟨"predefined_type", none, 11, 17⟩ [],
           .node ⟨"predefined_type", none, 20, 27⟩ []]]]]

def brokenFile : SourceFile := ⟨⟨"b.ts"⟩, "a:\n  Record<string,\n unknown>\n"⟩

def brokenTree : Tree :=
  .node ⟨"program", none, 0, 30⟩
    [.node ⟨"type_annotation", some "type", 1, 29⟩
      [.node ⟨"generic_type", none, 5, 29⟩
        [.node ⟨"type_identifier", some "name", 5, 11⟩ [],
         .node ⟨"type_arguments", none, 11, 29⟩
          [.node ⟨"predefined_type", none, 12, 18⟩ [],
           .node ⟨"predefined_type", none, 21, 28⟩ []]]]]

theorem alike_inlineTree_brokenTree :
    Tree.Alike inlineFile.content.toList brokenFile.content.toList inlineTree brokenTree := by
  repeat' first
    | exact List.Forall₂.nil
    | refine List.Forall₂.cons ?_ ?_
    | refine Tree.Alike.node (by decide) (by decide) (by decide +kernel) ?_

/-- The instantiation is banned under either spelling, on the line where it starts. -/
def recordRule : BanRule :=
  ⟨.build [("Record<string, unknown>", .record "Name the fields" (some "object"))], .error⟩

theorem check_inlineFile_brokenFile :
    ¬ "typeban:".toList <:+: inlineFile.content.toList ∧
      ¬ "typeban:".toList <:+: brokenFile.content.toList ∧
      Tree.Alike inlineFile.content.toList brokenFile.content.toList inlineTree brokenTree ∧
      (recordRule.check inlineFile inlineTree).map (fun v => (v.location.line, v.message)) =
        [(1, "Don't use 'Record<string,unknown>' as a type. Name the fields")] ∧
      (recordRule.check brokenFile brokenTree).map (fun v => (v.location.line, v.message)) =
        [(2, "Don't use 'Record<string,unknown>' as a type. Name the fields")] ∧
      List.Forall₂ Violation.SaysSame (recordRule.check inlineFile inlineTree)
        (recordRule.check brokenFile brokenTree) := by
  have hinline : ¬ "typeban:".toList <:+: inlineFile.content.toList := by decide +kernel
  have hbroken : ¬ "typeban:".toList <:+: brokenFile.content.toList := by decide +kernel
  have halike := alike_inlineTree_brokenTree
  rcases check_of_alike recordRule inlineFile brokenFile inlineTree brokenTree hinline hbroken
    halike with ⟨-, pairs, -, -, -, hsame⟩
  refine ⟨hinline, hbroken, halike, ?_, ?_, hsame⟩
  · rw [check_eq_filterMap]
    decide +kernel
  · rw [check_eq_filterMap]
    decide +kernel

end BanRule
end TypeNameLint
