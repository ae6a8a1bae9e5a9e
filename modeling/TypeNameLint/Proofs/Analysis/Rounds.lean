import TypeNameLint.Proofs.Analysis.Lint
import TypeNameLint.Proofs.Analysis.Visits
import TypeNameLint.Proofs.Edit.Splice

/-!
# Rounds — fixing a text until nothing is left to apply

The rounds for a text end early when a round applies nothing. Such a round leaves the text as it is,
so all later ones would do the same. This file defines:

* `fullRound`, `fullRounds`: rounds of linting and applying that never end early;
* `Passes`: the rounds that are in fact run, with the number of replacements each of them applied;
* `Draft.IsCurrent`: drafts whose violations are those of their text.

The main result is `visit_eq_fullRounds`: a visit to a file leaves what ten full rounds leave.
-/

namespace TypeNameLint
namespace Analysis

variable {lint : String → Option (List Violation)} {draft final : Draft} {counts : List Nat}

/-! ## Full rounds -/

/-- A text and the number of replacements that led to it, after one more round: the text is linted,
and whatever fits of the fixes is applied. -/
def fullRound (lint : String → Option (List Violation)) (state : String × Nat) :
    Option (String × Nat) :=
  (lint state.1).map fun violations =>
    let outcome := Edit.apply state.1 (violations.filterMap Violation.fix?)
    (outcome.output, state.2 + outcome.applied)

/-- The given number of rounds, whatever they apply. -/
def fullRounds (lint : String → Option (List Violation)) :
    Nat → String × Nat → Option (String × Nat)
  | 0, state => some state
  | rounds + 1, state => (fullRound lint state).bind (fullRounds lint rounds)

theorem fullRounds_add (m n : Nat) (state : String × Nat) :
    fullRounds lint (m + n) state = (fullRounds lint m state).bind (fullRounds lint n) := by
  induction m generalizing state with
  | zero => simp [fullRounds]
  | succ m ih =>
    rw [Nat.succ_add, fullRounds, fullRounds, Option.bind_assoc]
    congr 1
    funext next
    exact ih next

/-! ## The rounds that are run -/

/-- The violations of a draft are those of its text. -/
def Draft.IsCurrent (lint : String → Option (List Violation)) (draft : Draft) : Prop :=
  lint draft.text = some draft.violations

/-- Rounds that lead from a draft to another one. Each of them applied at least one replacement;
the numbers are listed in order. -/
inductive Passes (lint : String → Option (List Violation)) : Draft → List Nat → Draft → Prop
  | stop (draft : Draft) : Passes lint draft [] draft
  | pass {draft final : Draft} {violations : List Violation} {counts : List Nat}
      (applied : 0 < draft.outcome.applied)
      (linted : lint draft.outcome.output = some violations)
      (more : Passes lint
        ⟨draft.outcome.output, violations, draft.fixes + draft.outcome.applied⟩ counts final) :
      Passes lint draft (draft.outcome.applied :: counts) final

theorem Passes.isCurrent (h : Passes lint draft counts final) (hdraft : draft.IsCurrent lint) :
    final.IsCurrent lint := by
  induction h with
  | stop => exact hdraft
  | pass _ linted _ ih => exact ih linted

theorem Passes.count_pos (h : Passes lint draft counts final) : ∀ count ∈ counts, 0 < count := by
  induction h with
  | stop => simp
  | pass applied _ _ ih =>
    intro count hcount
    rcases List.mem_cons.1 hcount with rfl | hcount
    · exact applied
    · exact ih count hcount

/-- A round of a current draft is a full round. -/
theorem Draft.IsCurrent.fullRound_eq (h : draft.IsCurrent lint) :
    fullRound lint (draft.text, draft.fixes) =
      some (draft.outcome.output, draft.fixes + draft.outcome.applied) := by
  have hlint : lint draft.text = some draft.violations := h
  simp [fullRound, hlint, Draft.outcome]

/-- The rounds that are run are full rounds. -/
theorem Passes.fullRounds_eq (h : Passes lint draft counts final) (hdraft : draft.IsCurrent lint) :
    fullRounds lint counts.length (draft.text, draft.fixes) = some (final.text, final.fixes) := by
  induction h with
  | stop => rfl
  | pass _ linted _ ih =>
    rw [List.length_cons, fullRounds, hdraft.fullRound_eq]
    exact ih linted

/-- Once nothing is applied, further rounds change neither the text nor the number. -/
theorem fullRounds_of_applied_eq_zero (h : draft.IsCurrent lint)
    (hzero : draft.outcome.applied = 0) (rounds : Nat) :
    fullRounds lint rounds (draft.text, draft.fixes) = some (draft.text, draft.fixes) := by
  have houtput : draft.outcome.output = draft.text := Edit.output_of_applied_eq_zero hzero
  induction rounds with
  | zero => rfl
  | succ rounds ih =>
    rw [fullRounds, h.fullRound_eq, houtput, hzero]
    exact ih

/-! ## The end of the rounds -/

/-- Rounds end because nothing is left to apply or because their number is used up. -/
theorem exists_passes_of_repair {rounds : Nat} (h : repair lint rounds draft = some final) :
    ∃ counts, Passes lint draft counts final ∧ counts.length ≤ rounds ∧
      (counts.length = rounds ∨ final.outcome.applied = 0) := by
  induction rounds generalizing draft with
  | zero =>
    obtain rfl : draft = final := by simpa [repair] using h
    exact ⟨[], Passes.stop draft, Nat.le_refl 0, Or.inl rfl⟩
  | succ rounds ih =>
    rw [repair] at h
    split at h
    · rename_i hzero
      obtain rfl : draft = final := by simpa using h
      exact ⟨[], Passes.stop draft, Nat.zero_le _, Or.inr hzero⟩
    -- Something was applied, so the round counts, if its outcome has a tree.
    · rename_i happlied
      cases hlint : lint draft.outcome.output with
      | none => simp [hlint] at h
      | some violations =>
        rw [hlint] at h
        rcases ih h with ⟨counts, hpasses, hlength, hend⟩
        refine ⟨_, Passes.pass (Nat.pos_of_ne_zero happlied) hlint hpasses, ?_, ?_⟩
        · simpa using hlength
        · simpa using hend

/-- A text is linted once before any round, and without fixes there are no rounds. -/
theorem examine_eq_bind (fixes : Bool) (lint : String → Option (List Violation)) (text : String) :
    examine fixes lint text = (lint text).bind fun violations =>
      repair lint (if fixes then maxRounds else 0) ⟨text, violations, 0⟩ := by
  rw [examine]
  cases lint text with
  | none => rfl
  | some violations => cases fixes <;> rfl

/-- What is left of a text comes after the rounds that were run. -/
theorem exists_passes_of_examine {fixes : Bool} {text : String}
    (h : examine fixes lint text = some draft) :
    ∃ violations counts, lint text = some violations ∧
      Passes lint ⟨text, violations, 0⟩ counts draft ∧
        (fixes = true → counts.length = maxRounds ∨ draft.outcome.applied = 0) := by
  rw [examine_eq_bind, Option.bind_eq_some_iff] at h
  rcases h with ⟨violations, hlint, hrepair⟩
  rcases exists_passes_of_repair hrepair with ⟨counts, hpasses, -, hend⟩
  refine ⟨violations, counts, hlint, hpasses, fun hfixes => ?_⟩
  rwa [if_pos hfixes] at hend

/-- With a tree for every text the rounds come to an end. -/
theorem exists_repair (hlint : ∀ text, (lint text).isSome) (rounds : Nat) (draft : Draft) :
    ∃ final, repair lint rounds draft = some final := by
  induction rounds generalizing draft with
  | zero => exact ⟨draft, rfl⟩
  | succ rounds ih =>
    rw [repair]
    split
    · exact ⟨draft, rfl⟩
    · rcases Option.isSome_iff_exists.1 (hlint draft.outcome.output) with ⟨violations, hviolations⟩
      rw [hviolations]
      exact ih _

/-- Running the rounds with an early end, or without one, leads to the same text and number. -/
theorem fullRounds_of_repair {rounds : Nat} (h : repair lint rounds draft = some final)
    (hdraft : draft.IsCurrent lint) :
    fullRounds lint rounds (draft.text, draft.fixes) = some (final.text, final.fixes) ∧
      final.IsCurrent lint := by
  rcases exists_passes_of_repair h with ⟨counts, hpasses, hlength, hend⟩
  have hfinal : final.IsCurrent lint := hpasses.isCurrent hdraft
  refine ⟨?_, hfinal⟩
  have hrun := hpasses.fullRounds_eq hdraft
  -- The rounds that are not run come after a draft with nothing to apply, and change nothing.
  have hsplit : rounds = counts.length + (rounds - counts.length) := by omega
  rw [hsplit, fullRounds_add, hrun, Option.bind_some]
  rcases hend with hall | hzero
  · rw [hall, Nat.sub_self]
    rfl
  · exact fullRounds_of_applied_eq_zero hfinal hzero _

/-! ## A visit to a file -/

theorem isSome_lint {analysis : Analysis} {language : Language}
    (hparse : ∀ text, (language.parse text).isSome) (shown : Path) (text : String) :
    (analysis.lint shown language text).isSome := by
  simpa [lint] using hparse text

/-- Nothing is lost by ending the rounds for a file early: the visit leaves the text that ten full
rounds lead to, counts what they apply, and reports the violations of the text that it leaves. -/
theorem visit_eq_fullRounds (analysis : Analysis) (base : Path) (store : FileStore)
    (source : Source) (text : String) (hwf : store.WellFormed) (hfixes : analysis.fixes = true)
    (hread : store.read [] source.path = .ok text)
    (hparse : ∀ other, (source.language.parse other).isSome) :
    ∃ final fixes violations store',
      analysis.visit base store source = .ok ⟨some ⟨final, violations, fixes⟩, store'⟩ ∧
        fullRounds (analysis.lint (Path.reportedFrom base source.path) source.language) 10
          (text, 0) = some (final, fixes) ∧
        analysis.lint (Path.reportedFrom base source.path) source.language final =
          some violations ∧
        store'.read [] source.path = .ok final := by
  have hlint := @isSome_lint analysis _ hparse (Path.reportedFrom base source.path)
  rcases Option.isSome_iff_exists.1 (hlint text) with ⟨violations, hviolations⟩
  rcases exists_repair hlint maxRounds ⟨text, violations, 0⟩ with ⟨draft, hrepair⟩
  have hexamine : examine analysis.fixes
      (analysis.lint (Path.reportedFrom base source.path) source.language) text = some draft := by
    rw [examine, hviolations, hfixes]
    exact hrepair
  rcases FileStore.leadsToFile_of_read hread with ⟨names, hleads⟩
  rcases visit_of_draft hwf hleads (draftOf_eq_ok_iff.2 ⟨text, hread, hexamine⟩) with
    ⟨store', hvisit, hchange, hheld⟩
  have hleft : store'.read [] source.path = .ok draft.text :=
    FileStore.read_eq_ok_iff.2 ⟨names, (hchange.resolve_eq [] source.path).trans hleads.1, hheld⟩
  rcases fullRounds_of_repair hrepair hviolations with ⟨hrounds, hcurrent⟩
  exact ⟨draft.text, draft.fixes, draft.violations, store', hvisit, hrounds, hcurrent, hleft⟩

/-- A parser that knows one text, and finds no types in any other. -/
def sampleLanguage : Language :=
  .typeScript fun text =>
    some (if text = "x: String" then
      .node ⟨"program", none, 0, 9⟩
        [.node ⟨"type_annotation", none, 1, 9⟩ [.node ⟨"type_identifier", none, 3, 9⟩ []]]
    else .node ⟨"program", none, 0, 0⟩ [])

/-- One name is banned, and replaced where it is used. -/
def sampleBan : BanRule := ⟨.build [("String", .record "" (some "string"))], .error⟩

def sampleAnalysis : Analysis where
  root := ⟨"/w"⟩
  rules := [sampleBan.toRule]
  languages := [sampleLanguage]
  exclude := []
  config := .default
  failsWithoutTree := false
  fixes := true

def sampleStore : FileStore := ⟨[(["w", "a.ts"], .text "x: String")], [], []⟩

theorem lint_sampleAnalysis_banned :
    sampleAnalysis.lint ⟨"a.ts"⟩ sampleLanguage "x: String" =
      some [sampleBan.ban "String" (.record "" (some "string")) ⟨⟨"a.ts"⟩, 1, 4, 3, 6⟩] := by
  rw [lint_of_ban rfl rfl]
  decide +kernel

theorem lint_sampleAnalysis_replaced :
    sampleAnalysis.lint ⟨"a.ts"⟩ sampleLanguage "x: string" = some [] := by
  rw [lint_of_ban rfl rfl]
  decide +kernel

/-- The banned name is replaced in the first round, and the other rounds find nothing. -/
theorem visit_sampleStore :
    sampleStore.WellFormed ∧ sampleAnalysis.fixes = true ∧
      sampleStore.read [] ⟨"/w/a.ts"⟩ = .ok "x: String" ∧
      (∀ other, (sampleLanguage.parse other).isSome) ∧
      ∃ store',
        sampleAnalysis.visit ⟨"/w"⟩ sampleStore ⟨⟨"/w/a.ts"⟩, sampleLanguage⟩ =
            .ok ⟨some ⟨"x: string", [], 1⟩, store'⟩ ∧
          store'.read [] ⟨"/w/a.ts"⟩ = .ok "x: string" := by
  have hwf : sampleStore.WellFormed := by decide +kernel
  have hread : sampleStore.read [] ⟨"/w/a.ts"⟩ = .ok "x: String" := rfl
  have hparse : ∀ other, (sampleLanguage.parse other).isSome := fun _ => rfl
  have hshown : Path.reportedFrom ⟨"/w"⟩ ⟨"/w/a.ts"⟩ = ⟨"a.ts"⟩ := by decide +kernel
  have hfirst : fullRound (sampleAnalysis.lint ⟨"a.ts"⟩ sampleLanguage) ("x: String", 0) =
      some ("x: string", 1) := by
    rw [fullRound, lint_sampleAnalysis_banned]
    decide +kernel
  have hidle : Draft.outcome ⟨"x: string", [], 1⟩ = ⟨"x: string", 0, 0⟩ := by decide +kernel
  have hrest := @fullRounds_of_applied_eq_zero _ ⟨"x: string", [], 1⟩
    lint_sampleAnalysis_replaced (by rw [hidle]) 9
  rcases visit_eq_fullRounds sampleAnalysis ⟨"/w"⟩ sampleStore ⟨⟨"/w/a.ts"⟩, sampleLanguage⟩
    "x: String" hwf rfl hread hparse with
    ⟨final, fixes, violations, store', hvisit, hrounds, hlint, hleft⟩
  rw [hshown] at hrounds hlint
  rw [fullRounds, hfirst, Option.bind_some, hrest] at hrounds
  cases hrounds
  rw [lint_sampleAnalysis_replaced] at hlint
  cases hlint
  exact ⟨hwf, rfl, hread, hparse, store', hvisit, hleft⟩

end Analysis
end TypeNameLint
