import TypeNameLint.Proofs.Ban.Findings

/-!
# Verdicts — bans, notices, and the severities they have

A violation of the rule is a ban at the severity of the rule, or the notice that an exemption gives
no reason. Such a notice is a warning, and is given only where bans are errors; so a file has an
error exactly if bans are errors and one is in it. This file defines:

* `BanRule.Offends`: a place at which a banned name is written, on a line that is not exempt;
* `BanRule.IsBan`, `IsNotice`: the two kinds of violations.

The main results are `isBan_or_isNotice_of_mem_check` and `exists_error_mem_check_iff`.
-/

namespace TypeNameLint
namespace BanRule

variable {rule : BanRule} {file : SourceFile} {tree : Tree} {place : Cursor} {v : Violation}
variable {key : String} {spec : BanSpec} {location : Location} {judged : Exemption}

/-! ## Verdicts -/

/-- What is reported of a banned name depends on the exemption of its line. -/
theorem verdict_eq_some_iff :
    rule.verdict key spec location judged = some v ↔
      (judged = .denied ∧ v = rule.ban key spec location) ∨
        (judged = .allowed none ∧ rule.severity = .error ∧ v = missingReason location) := by
  cases judged with
  | denied => simp [verdict, eq_comm]
  | allowed reason =>
    cases reason with
    | none => simp [verdict, needsReason, eq_comm]
    | some reason => simp [verdict]

/-! ## Places -/

/-- A banned name is written at a place, on a line that no directive exempts. -/
structure Offends (rule : BanRule) (file : SourceFile) (place : Cursor) : Prop where
  bans : ∃ key spec, rule.BansAt file place key spec
  denied : exemptionAt file place = .denied

theorem atPlace_eq_some_iff :
    rule.atPlace file place = some v ↔
      ∃ key spec, rule.BansAt file place key spec ∧
        ((exemptionAt file place = .denied ∧
            v = rule.ban key spec
              (locationOf file.path file.content.toList place.focus.label)) ∨
          (exemptionAt file place = .allowed none ∧ rule.severity = .error ∧
            v = missingReason (locationOf file.path file.content.toList place.focus.label))) := by
  constructor
  · intro h
    rcases exists_bansAt_of_atPlace h with ⟨key, spec, hbans⟩
    rw [atPlace_of_bansAt hbans] at h
    exact ⟨key, spec, hbans, verdict_eq_some_iff.1 h⟩
  · rintro ⟨key, spec, hbans, hcases⟩
    rw [atPlace_of_bansAt hbans]
    exact verdict_eq_some_iff.2 hcases

/-- A violation covers the node of the place at which it is found. -/
theorem location_of_atPlace (h : rule.atPlace file place = some v) :
    v.location = locationOf file.path file.content.toList place.focus.label := by
  rcases atPlace_eq_some_iff.1 h with ⟨key, spec, -, ⟨-, rfl⟩ | ⟨-, -, rfl⟩⟩
  · rfl
  · rfl

/-! ## Files -/

theorem mem_check_iff :
    v ∈ rule.check file tree ↔ ∃ place ∈ tree.places, rule.atPlace file place = some v := by
  rw [check_eq_filterMap, List.mem_filterMap]

/-- A violation that reports a name of the table. -/
def IsBan (rule : BanRule) (v : Violation) : Prop :=
  ∃ key spec location, rule.table.get? key = some spec ∧ v = rule.ban key spec location

/-- A violation that reports the missing reason of an exemption. -/
def IsNotice (v : Violation) : Prop :=
  ∃ location, v = missingReason location

theorem isBan_or_isNotice_of_mem_check (h : v ∈ rule.check file tree) :
    rule.IsBan v ∨ (IsNotice v ∧ rule.severity = .error) := by
  rcases mem_check_iff.1 h with ⟨place, -, hplace⟩
  rcases atPlace_eq_some_iff.1 hplace with ⟨key, spec, hbans, ⟨-, hban⟩ | ⟨-, herror, hnotice⟩⟩
  · exact Or.inl ⟨key, spec, _, hbans.banned, hban⟩
  · exact Or.inr ⟨⟨_, hnotice⟩, herror⟩

/-- A file has an error exactly if bans are errors and some place in it offends. -/
theorem exists_error_mem_check_iff :
    (∃ v ∈ rule.check file tree, v.severity = .error) ↔
      rule.severity = .error ∧ ∃ place ∈ tree.places, rule.Offends file place := by
  constructor
  · rintro ⟨v, hv, herror⟩
    rcases mem_check_iff.1 hv with ⟨place, hplace, hfound⟩
    rcases atPlace_eq_some_iff.1 hfound with ⟨key, spec, hbans, ⟨hdenied, rfl⟩ | ⟨-, -, rfl⟩⟩
    · exact ⟨herror, place, hplace, ⟨key, spec, hbans⟩, hdenied⟩
    · cases herror
  · rintro ⟨herror, place, hplace, ⟨key, spec, hbans⟩, hdenied⟩
    have hfound : rule.atPlace file place = some (rule.ban key spec
        (locationOf file.path file.content.toList place.focus.label)) :=
      atPlace_eq_some_iff.2 ⟨key, spec, hbans, Or.inl ⟨hdenied, rfl⟩⟩
    exact ⟨_, mem_check_iff.2 ⟨place, hplace, hfound⟩, herror⟩

end BanRule
end TypeNameLint
