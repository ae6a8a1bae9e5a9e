import TypeNameLint.Proofs.Ban.Verdicts
import TypeNameLint.Proofs.Directive.Deciding

/-!
# Reasons — banned names on lines with a directive

On a line with a directive for the rule no name is reported as banned. Where reasons are required it
may be reported that one is missing, and of two directives for the same line only the one that
decides is asked for it: that of the line above, if that line exempts the one below.

The main result is `check_of_own_directive`.
-/

namespace TypeNameLint
namespace BanRule

variable {rule : BanRule} {file : SourceFile} {tree : Tree} {v : Violation}

/-- What is reported of a line is a ban if no directive exempts the line, and otherwise that a reason
is missing. -/
theorem exemption_of_mem_check (h : v ∈ rule.check file tree) :
    exemption file.content v.location.line name = .denied ∨
      (exemption file.content v.location.line name = .allowed none ∧ rule.severity = .error ∧
        v = missingReason v.location) := by
  rcases mem_check_iff.1 h with ⟨place, -, hplace⟩
  rcases atPlace_eq_some_iff.1 hplace with ⟨key, spec, -, ⟨hdenied, rfl⟩ | ⟨hallowed, herror, rfl⟩⟩
  · exact Or.inl hdenied
  · exact Or.inr ⟨hallowed, herror, rfl⟩

/-- A banned name on a line that is exempt without a reason is reported for that, if bans are
errors. -/
theorem missingReason_mem_check {place : Cursor} {key : String} {spec : BanSpec}
    (hplace : place ∈ tree.places) (hbans : rule.BansAt file place key spec)
    (hallowed : exemptionAt file place = .allowed none) (herror : rule.severity = .error) :
    missingReason (locationOf file.path file.content.toList place.focus.label) ∈
      rule.check file tree := by
  rw [mem_check_iff]
  exact ⟨place, hplace, atPlace_eq_some_iff.2 ⟨key, spec, hbans, Or.inr ⟨hallowed, herror, rfl⟩⟩⟩

/-- A line with a directive of its own for a rule is exempt. The reason is that of the line above, if
a directive there exempts the line below, and else its own. A banned name on such a line is reported
for nothing but a missing reason, and that if bans are errors and the directive that decides gives
none, whatever reason the other one gives. -/
theorem check_of_own_directive (content covered : String) (number : Nat) (own : List Char)
    (d : Directive) (hown : Text.line? content.toList number = some own)
    (hparse : Directive.parse? own = some d) (hcovers : d.covers covered = true) :
    (∀ e : Directive, e.IsAbove content number covered →
      exemption content number covered = .allowed e.reason) ∧
    ((∀ e : Directive, ¬ e.IsAbove content number covered) →
      exemption content number covered = .allowed d.reason) ∧
    (covered = name → ∀ (rule : BanRule) (path : Path) (tree : Tree) (place : Cursor) key spec,
      place ∈ tree.places → rule.BansAt ⟨path, content⟩ place key spec →
      (locationOf path content.toList place.focus.label).line = number →
      (∀ v ∈ rule.check ⟨path, content⟩ tree,
        v.location = locationOf path content.toList place.focus.label →
          v = missingReason (locationOf path content.toList place.focus.label)) ∧
      (missingReason (locationOf path content.toList place.focus.label) ∈
          rule.check ⟨path, content⟩ tree ↔
        rule.severity = .error ∧
          ∃ e : Directive, e.Decides content number covered ∧ e.reason = none)) := by
  have habove : ∀ e : Directive, e.IsAbove content number covered →
      exemption content number covered = .allowed e.reason := by
    intro e he
    exact exemption_eq_allowed_iff.2 ⟨e, .above he, rfl⟩
  have halone : (∀ e : Directive, ¬ e.IsAbove content number covered) →
      exemption content number covered = .allowed d.reason := by
    intro hnone
    exact exemption_eq_allowed_iff.2 ⟨d, .own ⟨own, hown, hparse, hcovers⟩ hnone, rfl⟩
  have hexempt : exemption content number covered ≠ .denied := by
    intro hdenied
    by_cases hnone : ∀ e : Directive, ¬ e.IsAbove content number covered
    · rw [halone hnone] at hdenied
      cases hdenied
    · rcases not_forall_not.1 hnone with ⟨e, he⟩
      rw [habove e he] at hdenied
      cases hdenied
  refine ⟨habove, halone, ?_⟩
  rintro rfl rule path tree place key spec hplace hbans rfl
  refine ⟨?_, ?_⟩
  · intro v hv hlocation
    rcases exemption_of_mem_check hv with hdenied | ⟨-, -, hnotice⟩
    · rw [hlocation] at hdenied
      exact absurd hdenied hexempt
    · rw [hnotice, hlocation]
  · rw [← exemption_eq_allowed_iff]
    constructor
    · intro hmem
      rcases exemption_of_mem_check hmem with hdenied | ⟨hallowed, herror, -⟩
      · exact absurd hdenied hexempt
      · exact ⟨herror, hallowed⟩
    · rintro ⟨herror, hallowed⟩
      exact missingReason_mem_check hplace hbans hallowed herror

/-! ## A directive on each of two lines -/

/-- The nodes of `let a: A;` at an offset. -/
def annotatedAt (start : Nat) : Tree :=
  .node ⟨"lexical_declaration", none, start, start + 9⟩
    [.node ⟨"variable_declarator", none, start + 4, start + 8⟩
      [.node ⟨"identifier", some "name", start + 4, start + 5⟩ [],
       .node ⟨"type_annotation", some "type", start + 5, start + 8⟩
        [.node ⟨"type_identifier", none, start + 7, start + 8⟩ []]]]

/-- A ban on one name. -/
def oneNameRule : BanRule :=
  ⟨.build [("A", .bare)], .error⟩

/-- The directive on the second line of both files. -/
def explained : Directive :=
  ⟨["all"], some "x"⟩

/-- The first directive gives no reason and stands behind code. -/
def behindCodeFile : SourceFile :=
  ⟨⟨"a.ts"⟩, "let b; // typeban: allow(all)\nlet a: A; // typeban: allow(all) reason=\"x\"\n"⟩

def behindCodeTree : Tree :=
  .node ⟨"program", none, 0, 74⟩
    [.node ⟨"lexical_declaration", none, 0, 6⟩
      [.node ⟨"variable_declarator", none, 4, 5⟩ [.node ⟨"identifier", some "name", 4, 5⟩ []]],
     .node ⟨"comment", none, 7, 29⟩ [], annotatedAt 30, .node ⟨"comment", none, 40, 73⟩ []]

/-- The first directive gives no reason and stands alone. -/
def aloneFile : SourceFile :=
  ⟨⟨"a.ts"⟩, "// typeban: allow(all)\nlet a: A; // typeban: allow(all) reason=\"x\"\n"⟩

def aloneTree : Tree :=
  .node ⟨"program", none, 0, 67⟩
    [.node ⟨"comment", none, 0, 22⟩ [], annotatedAt 23, .node ⟨"comment", none, 33, 66⟩ []]

/-- The place of the banned name. -/
def behindCodePlace : Cursor :=
  behindCodeTree.places.get ⟨9, by decide⟩

/-- Behind code the first directive does not count, and with the reason of the second one nothing is
reported. -/
theorem check_behindCodeFile :
    explained.covers name = true ∧ behindCodePlace ∈ behindCodeTree.places ∧
      oneNameRule.BansAt behindCodeFile behindCodePlace "A" .bare ∧
      exemption behindCodeFile.content 2 name = .allowed (some "x") ∧
      missingReason ⟨⟨"a.ts"⟩, 2, 8, 37, 1⟩ ∉ oneNameRule.check behindCodeFile behindCodeTree := by
  have hown : Text.line? behindCodeFile.content.toList 2 =
      some "let a: A; // typeban: allow(all) reason=\"x\"".toList := by decide
  have hparse : Directive.parse? "let a: A; // typeban: allow(all) reason=\"x\"".toList =
      some explained := by decide
  have hcovers : explained.covers name = true := by decide
  have hplace : behindCodePlace ∈ behindCodeTree.places := List.get_mem _ _
  have hbans : oneNameRule.BansAt behindCodeFile behindCodePlace "A" .bare :=
    ⟨Or.inr ⟨by decide, Cursor.isReference_iff.1 (by decide)⟩, by decide, by decide⟩
  have hnone : ∀ e : Directive, ¬ e.IsAbove behindCodeFile.content 2 name := by
    intro e habove
    have hfirst : (Text.line? behindCodeFile.content.toList 1).bind
        (Directive.coveringBelow? name) = none := by decide
    rw [Directive.isAbove_iff, hfirst] at habove
    cases habove
  rcases check_of_own_directive behindCodeFile.content name 2 _ explained hown hparse hcovers with
    ⟨-, halone, hreport⟩
  refine ⟨hcovers, hplace, hbans, halone hnone, ?_⟩
  intro hmem
  rcases ((hreport rfl oneNameRule ⟨"a.ts"⟩ behindCodeTree behindCodePlace "A" .bare hplace hbans
    (by decide)).2.1 hmem).2 with ⟨e, habove | ⟨⟨own, hline, hread, -⟩, -⟩, hreason⟩
  · exact hnone e habove
  · obtain rfl : _ = own := Option.some.inj (hown.symm.trans hline)
    obtain rfl : explained = e := Option.some.inj (hparse.symm.trans hread)
    cases hreason

/-- Under a directive that stands alone and gives no reason, a missing reason is reported of the line
that gives one. -/
theorem check_aloneFile :
    Text.line? aloneFile.content.toList 2 =
        some "let a: A; // typeban: allow(all) reason=\"x\"".toList ∧
      Directive.parse? "let a: A; // typeban: allow(all) reason=\"x\"".toList = some explained ∧
      explained.covers name = true ∧ explained.reason = some "x" ∧
      exemption aloneFile.content 2 name = .allowed none ∧
      oneNameRule.check aloneFile aloneTree = [missingReason ⟨⟨"a.ts"⟩, 2, 8, 30, 1⟩] := by
  have hcheck : oneNameRule.check aloneFile aloneTree =
      [missingReason ⟨⟨"a.ts"⟩, 2, 8, 30, 1⟩] := by
    rw [check_eq_filterMap]
    rfl
  exact ⟨by decide, by decide, by decide, rfl, by decide, hcheck⟩

end BanRule
end TypeNameLint
