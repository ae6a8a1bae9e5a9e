import TypeNameLint.Proofs.Analysis.Absence
import TypeNameLint.Proofs.Analysis.Rounds

/-!
# Stopping — where a run stops, and what it leaves behind

A parser need not have a tree for every text, and a file need not be text. A run stops at the first
source that it cannot deal with: the sources before it are fixed by then, and nothing else is
touched. If missing trees are tolerated, a source that loses its tree on the way counts as absent.
This file defines:

* `LosesTree`, `EndsAs`: what becomes of a text in some rounds;
* `Fails`, `IsSkipped`: sources that end a run, and sources that it passes over;
* `FailsAt`: the first source that ends a run.

The main result is `run_of_partial_parsers`.
-/

namespace TypeNameLint
namespace Analysis

open FileStore (ModifiesOnly)

variable {analysis : Analysis} {base : Path} {store store' : FileStore} {source f g : Source}
variable {sources before after : List Source} {result result' : LintResult} {fault : AnalysisFault}
variable {lint : String → Option (List Violation)} {draft : Draft} {fixes : Bool} {rounds : Nat}
variable {text final : String}

/-! ## Rounds with a parser that is partial -/

/-- The largest number of rounds: ten with fixes, and none without. -/
def roundsOf (fixes : Bool) : Nat := if fixes then 10 else 0

/-- A text that has no tree, or comes to have none after at most the given number of rounds. -/
def LosesTree (lint : String → Option (List Violation)) (rounds : Nat) (text : String) : Prop :=
  ∃ round ≤ rounds, ∃ reached count,
    fullRounds lint round (text, 0) = some (reached, count) ∧ lint reached = none

/-- A text that becomes another one in the given number of rounds, with a tree all the way. -/
def EndsAs (lint : String → Option (List Violation)) (rounds : Nat) (text final : String) : Prop :=
  ∃ count, fullRounds lint rounds (text, 0) = some (final, count) ∧ (lint final).isSome

theorem EndsAs.eq {other : String} (h : EndsAs lint rounds text final)
    (hother : EndsAs lint rounds text other) : final = other := by
  rcases h with ⟨count, hrounds, -⟩
  rcases hother with ⟨count', hrounds', -⟩
  rw [hrounds] at hrounds'
  cases hrounds'
  rfl

/-- Rounds that come to their end have had trees all the way. -/
theorem EndsAs.not_losesTree (h : EndsAs lint rounds text final) :
    ¬ LosesTree lint rounds text := by
  rintro ⟨round, hle, reached, count, hreached, hlost⟩
  rcases h with ⟨fixes, hrounds, hfinal⟩
  have hsplit : rounds = round + (rounds - round) := by omega
  rw [hsplit, fullRounds_add, hreached, Option.bind_some] at hrounds
  cases hrest : rounds - round with
  | zero =>
    rw [hrest] at hrounds
    cases hrounds
    simp [hlost] at hfinal
  -- A further round would have needed a tree for the text that was reached.
  | succ rest =>
    rw [hrest, fullRounds, fullRound, hlost] at hrounds
    cases hrounds

/-- Rounds break off exactly if a text on the way has no tree. -/
theorem repair_eq_none_iff (hcurrent : draft.IsCurrent lint) :
    repair lint rounds draft = none ↔ ∃ round ≤ rounds, ∃ reached count,
      fullRounds lint round (draft.text, draft.fixes) = some (reached, count) ∧
        lint reached = none := by
  have hlint : lint draft.text = some draft.violations := hcurrent
  induction rounds generalizing draft with
  | zero =>
    simp [repair, fullRounds, hlint]
  | succ rounds ih =>
    by_cases hzero : draft.outcome.applied = 0
    -- An idle round reaches nothing but the text itself, which has a tree.
    · simp [repair, hzero, fullRounds_of_applied_eq_zero hcurrent hzero, hlint]
    · have hround : ∀ round, fullRounds lint (round + 1) (draft.text, draft.fixes) =
          fullRounds lint round (draft.outcome.output, draft.fixes + draft.outcome.applied) := by
        intro round
        rw [fullRounds, hcurrent.fullRound_eq, Option.bind_some]
      rw [repair, if_neg hzero]
      cases hnext : lint draft.outcome.output with
      | none =>
        refine iff_of_true rfl ⟨1, by omega, draft.outcome.output, _, hround 0, hnext⟩
      | some violations =>
        refine Iff.trans (@ih ⟨draft.outcome.output, violations,
          draft.fixes + draft.outcome.applied⟩ hnext hnext) ?_
        constructor
        · rintro ⟨round, hle, reached, count, hreached, hlost⟩
          exact ⟨round + 1, by omega, reached, count, by rw [hround, hreached], hlost⟩
        · rintro ⟨round, hle, reached, count, hreached, hlost⟩
          cases round with
          | zero =>
            obtain ⟨rfl, rfl⟩ : draft.text = reached ∧ draft.fixes = count := by
              simpa [fullRounds] using hreached
            rw [hlint] at hlost
            cases hlost
          | succ round =>
            rw [hround] at hreached
            exact ⟨round, by omega, reached, count, hreached, hlost⟩

theorem examine_eq_none_iff :
    examine fixes lint text = none ↔ LosesTree lint (roundsOf fixes) text := by
  rw [examine_eq_bind]
  cases hlint : lint text with
  | none =>
    have hlost : LosesTree lint (roundsOf fixes) text := ⟨0, Nat.zero_le _, text, 0, rfl, hlint⟩
    simp [hlost]
  | some violations => exact repair_eq_none_iff hlint

theorem endsAs_of_examine (h : examine fixes lint text = some draft) :
    EndsAs lint (roundsOf fixes) text draft.text := by
  rw [examine_eq_bind, Option.bind_eq_some_iff] at h
  rcases h with ⟨violations, hlint, hrepair⟩
  rcases fullRounds_of_repair hrepair hlint with ⟨hrounds, hcurrent⟩
  have hsome : lint draft.text = some draft.violations := hcurrent
  exact ⟨draft.fixes, hrounds, by simp [hsome]⟩

/-! ## Sources that end a run -/

/-- The violations of a text, as if it were that of a source. -/
def lintAt (analysis : Analysis) (store : FileStore) (source : Source) :
    String → Option (List Violation) :=
  analysis.lint ((analysis.base store).reportedFrom source.path) source.language

/-- A source that a run cannot deal with: its content is no text, or it loses its tree and that is
not tolerated. -/
inductive Fails (analysis : Analysis) (store : FileStore) (source : Source) : AnalysisFault → Prop
  | notText (read : store.read [] source.path = .error .notText) :
      Fails analysis store source (.file .notText)
  | noTree {text : String} (read : store.read [] source.path = .ok text)
      (lost : LosesTree (analysis.lintAt store source) (roundsOf analysis.fixes) text)
      (strict : analysis.failsWithoutTree = true) :
      Fails analysis store source (.noTree source.path source.language.id)

/-- A source that a run passes over: it loses its tree, and that is tolerated. -/
structure IsSkipped (analysis : Analysis) (store : FileStore) (source : Source) : Prop where
  lost : ∃ text, store.read [] source.path = .ok text ∧
    LosesTree (analysis.lintAt store source) (roundsOf analysis.fixes) text
  tolerant : analysis.failsWithoutTree = false

/-- The fault that ends a run at a source. -/
def stop? (analysis : Analysis) (base : Path) (store : FileStore) (source : Source) :
    Option AnalysisFault :=
  match analysis.draftOf base store source with
  | .error fault => some (.file fault)
  | .ok none =>
    if analysis.failsWithoutTree then some (.noTree source.path source.language.id) else none
  | .ok (some _) => none

theorem draftOf_eq_none_iff :
    analysis.draftOf (analysis.base store) store source = .ok none ↔
      ∃ text, store.read [] source.path = .ok text ∧
        LosesTree (analysis.lintAt store source) (roundsOf analysis.fixes) text := by
  rw [draftOf_eq_ok_iff]
  simp only [examine_eq_none_iff]
  rfl

/-- A source that leads to a file can only be unreadable for holding no text. -/
theorem draftOf_eq_error_iff {names : Names} {found : FileFault}
    (hleads : store.LeadsToFile [] source.path names) :
    analysis.draftOf base store source = .error found ↔
      found = .notText ∧ store.read [] source.path = .error .notText := by
  rcases Option.isSome_iff_exists.1 hleads.2 with ⟨content, hcontent⟩
  have hfind := FileStore.find_eq_ok_iff.2
    ⟨names, hleads.1, FileStore.entry?_eq_file_iff.2 hcontent⟩
  cases content with
  | text s => simp [draftOf, FileStore.read, hfind]
  | bytes data => simp [draftOf, FileStore.read, hfind, eq_comm]

theorem stop?_eq_some_iff {names : Names} (hleads : store.LeadsToFile [] source.path names) :
    analysis.stop? (analysis.base store) store source = some fault ↔
      analysis.Fails store source fault := by
  rw [stop?]
  constructor
  · intro h
    split at h
    · rename_i found hdraft
      cases h
      rcases (draftOf_eq_error_iff hleads).1 hdraft with ⟨rfl, hread⟩
      exact Fails.notText hread
    · rename_i hdraft
      rcases draftOf_eq_none_iff.1 hdraft with ⟨text, hread, hlost⟩
      split at h
      · rename_i hstrict
        cases h
        exact Fails.noTree hread hlost hstrict
      · cases h
    · cases h
  · intro h
    cases h with
    | notText hread => simp [(draftOf_eq_error_iff hleads).2 ⟨rfl, hread⟩]
    | noTree hread hlost hstrict => simp [draftOf_eq_none_iff.2 ⟨_, hread, hlost⟩, hstrict]

/-- The drafts of the sources are missing exactly if one of them ends the run; the first of these
says why. -/
theorem drafts_eq_error_iff :
    analysis.drafts base store sources = .error fault ↔
      sources.findSome? (analysis.stop? base store) = some fault := by
  induction sources with
  | nil => simp [drafts]
  | cons source sources ih =>
    rw [drafts, List.findSome?_cons, stop?]
    cases hdraft : analysis.draftOf base store source with
    | error found => simp
    | ok found =>
      cases found with
      | none => cases hstrict : analysis.failsWithoutTree <;> simp [ih]
      | some draft =>
        dsimp only
        rw [← ih]
        cases analysis.drafts base store sources <;> simp [Except.map]

theorem exists_drafts_of_no_stop (h : ∀ g ∈ sources, analysis.stop? base store g = none) :
    ∃ ds, analysis.drafts base store sources = .ok ds := by
  cases hdrafts : analysis.drafts base store sources with
  | ok ds => exact ⟨ds, rfl⟩
  | error fault =>
    rw [drafts_eq_error_iff, List.findSome?_eq_none_iff.2 h] at hdrafts
    cases hdrafts

/-! ## Visits up to a source that ends a run -/

theorem visitAll_append
    (h : analysis.visitAll base result store before = ⟨.ok result', store'⟩) :
    analysis.visitAll base result store (before ++ after) =
      analysis.visitAll base result' store' after := by
  induction before generalizing store result with
  | nil =>
    cases h
    rfl
  | cons source before ih =>
    rw [List.cons_append]
    cases hvisit : analysis.visit base store source with
    | error fault => simp [visitAll, hvisit] at h
    | ok visit =>
      rcases visit with ⟨found, next⟩
      cases found with
      | none =>
        cases hstrict : analysis.failsWithoutTree with
        | true => simp [visitAll, hvisit, hstrict] at h
        | false =>
          simp only [visitAll, hvisit, hstrict, Bool.false_eq_true, if_false] at h ⊢
          exact ih h
      | some draft =>
        simp only [visitAll, hvisit] at h ⊢
        exact ih h

theorem Apart.sublist (h : Apart store base sources) (hsub : before.Sublist sources) :
    Apart store base before where
  leads := fun source hsource => h.leads source (hsub.subset hsource)
  places := h.places.sublist hsub
  shown := h.shown.sublist hsub

/-- The visits before a source that ends the run are all that is done. -/
theorem visitAll_of_stop (hwf : store.WellFormed)
    (hapart : Apart store base (before ++ f :: after))
    (hbefore : ∀ g ∈ before, analysis.stop? base store g = none)
    (hstop : analysis.stop? base store f = some fault) :
    ∃ ds store', analysis.drafts base store before = .ok ds ∧
      IsOutcome analysis base result store before ⟨.ok (ds.foldl addDraft result), store'⟩ ∧
      analysis.visitAll base result store (before ++ f :: after) = ⟨.error fault, store'⟩ := by
  rcases exists_drafts_of_no_stop hbefore with ⟨ds, hds⟩
  have houtcome := @isOutcome_visitAll analysis _ _ _ result hwf
    (hapart.sublist (List.sublist_append_left before (f :: after)))
  have hresult := houtcome.result_eq
  rw [hds] at hresult
  cases hvisits : analysis.visitAll base result store before with
  | mk visited store' =>
  rw [hvisits] at houtcome hresult
  obtain rfl : visited = .ok (ds.foldl addDraft result) := hresult
  refine ⟨ds, store', hds, houtcome, ?_⟩
  rw [visitAll_append hvisits]
  -- The source that ends the run is found as it was at the start.
  have hplaces := (List.pairwise_append.1 hapart.places).2.2
  have hdraft : analysis.draftOf base store' f = analysis.draftOf base store f := by
    refine draftOf_of_modifiesOnly houtcome.frame ?_
    rintro names hnames ⟨g, hg, hplace, -⟩
    exact hplaces g hg f (by simp) (hplace.trans hnames.symm)
  rw [stop?, ← hdraft] at hstop
  cases hfound : analysis.draftOf base store' f with
  | error found =>
    rw [hfound] at hstop
    cases hstop
    rw [visitAll, visit_of_fault hfound]
  | ok found =>
    rw [hfound] at hstop
    cases found with
    | some draft => cases hstop
    | none =>
      dsimp only at hstop
      split at hstop
      · rename_i hstrict
        cases hstop
        simp only [visitAll, visit_of_no_draft hfound, hstrict, if_true]
      · cases hstop

/-! ## The first source that ends a run -/

/-- The first source that ends a run, and the fault that it ends with. -/
structure FailsAt (analysis : Analysis) (store : FileStore) (sources : List Source)
    (source : Source) (fault : AnalysisFault) : Prop where
  mem : source ∈ sources
  fails : analysis.Fails store source fault
  first : ∀ other ∈ sources, other.path.compare source.path = .lt →
    ∀ fault, ¬ analysis.Fails store other fault

/-- In strictly ordered sources those that come before another one are those that precede it. -/
theorem mem_before_iff
    (h : (before ++ f :: after).Pairwise fun a b => a.path.compare b.path = .lt)
    (hg : g ∈ before ++ f :: after) : g ∈ before ↔ g.path.compare f.path = .lt := by
  rcases List.pairwise_append.1 h with ⟨-, hrest, hacross⟩
  constructor
  · intro hg
    exact hacross g hg f (by simp)
  · intro hlt
    rcases List.mem_append.1 hg with hg | hg
    · exact hg
    · rcases List.mem_cons.1 hg with rfl | hg
      · have hself : g.path.compare g.path = .eq := Path.compare_eq_eq_iff.2 rfl
        rw [hself] at hlt
        cases hlt
      · have hgt := (List.pairwise_cons.1 hrest).1 g hg
        rw [← Std.OrientedCmp.gt_iff_lt, hlt] at hgt
        cases hgt

theorem failsAt_iff_exists_split (hwf : store.WellFormed)
    (hsources : analysis.sources store = .ok sources) :
    analysis.FailsAt store sources f fault ↔
      ∃ before after, sources = before ++ f :: after ∧
        analysis.stop? (analysis.base store) store f = some fault ∧
          ∀ g ∈ before, analysis.stop? (analysis.base store) store g = none := by
  have hordered := pairwise_lt_sources hwf hsources
  have hstop : ∀ source ∈ sources, ∀ fault,
      analysis.stop? (analysis.base store) store source = some fault ↔
        analysis.Fails store source fault := by
    intro source hsource fault
    rcases leads_of_mem_sources hwf hsources hsource with ⟨names, hleads⟩
    exact stop?_eq_some_iff hleads
  constructor
  · rintro ⟨hmem, hfails, hfirst⟩
    rcases List.append_of_mem hmem with ⟨before, after, rfl⟩
    refine ⟨before, after, rfl, (hstop f hmem fault).2 hfails, fun g hg => ?_⟩
    have hg' := List.mem_append_left (f :: after) hg
    have hlt := (mem_before_iff hordered hg').1 hg
    exact Option.eq_none_iff_forall_ne_some.2 fun other hother =>
      hfirst g hg' hlt other ((hstop g hg' other).1 hother)
  · rintro ⟨before, after, rfl, hfails, hbefore⟩
    have hmem : f ∈ before ++ f :: after := by simp
    refine ⟨hmem, (hstop f hmem fault).1 hfails, fun g hg hlt other hother => ?_⟩
    have hnone := hbefore g ((mem_before_iff hordered hg).2 hlt)
    rw [(hstop g hg other).2 hother] at hnone
    cases hnone

/-! ## What a run leaves -/

/-- Without fixes no file is written. -/
theorem store_run_of_no_fixes (hfixes : analysis.fixes = false) :
    (analysis.run store).store = store := by
  cases hsources : analysis.sources store with
  | error fault => rw [run, hsources]
  | ok sources =>
    rw [run_of_sources hsources, visitAll_of_unchanged]
    intro source _ draft hdraft
    rcases draftOf_eq_ok_iff.1 hdraft with ⟨text, hread, hexamine⟩
    rcases endsAs_of_examine hexamine with ⟨count, hrounds, -⟩
    obtain ⟨rfl, -⟩ : text = draft.text ∧ 0 = count := by
      simpa [roundsOf, hfixes, fullRounds] using hrounds
    exact hread

/-- Nothing is written but sources with a draft. -/
theorem modifiesOnly_run (hwf : store.WellFormed)
    (hsources : analysis.sources store = .ok sources) :
    ModifiesOnly (analysis.IsDraftPlace (analysis.base store) store sources) store
      (analysis.run store).store := by
  rw [run_of_sources hsources]
  exact (isOutcome_visitAll hwf (apart_sources hwf hsources)).frame

/-- A run that stops has dealt with the sources before, and has touched nothing else. -/
theorem run_of_failsAt (hwf : store.WellFormed) (hsources : analysis.sources store = .ok sources)
    (h : analysis.FailsAt store sources f fault) :
    (analysis.run store).result = .error fault ∧ ∃ before after ds,
      sources = before ++ f :: after ∧
      analysis.drafts (analysis.base store) store before = .ok ds ∧
      IsOutcome analysis (analysis.base store) .empty store before
        ⟨.ok (ds.foldl addDraft .empty), (analysis.run store).store⟩ := by
  rcases (failsAt_iff_exists_split hwf hsources).1 h with ⟨before, after, rfl, hstop, hbefore⟩
  rcases @visitAll_of_stop _ _ _ _ _ _ .empty _ hwf (apart_sources hwf hsources) hbefore hstop with
    ⟨ds, store', hds, houtcome, hvisits⟩
  rw [run_of_sources hsources, hvisits]
  exact ⟨rfl, before, after, ds, rfl, hds, houtcome⟩

theorem result_run_eq_error_iff (hwf : store.WellFormed)
    (hsources : analysis.sources store = .ok sources) :
    (analysis.run store).result = .error fault ↔ ∃ f, analysis.FailsAt store sources f fault := by
  constructor
  · intro h
    have houtcome := @isOutcome_visitAll analysis _ _ _ .empty hwf (apart_sources hwf hsources)
    rw [run_of_sources hsources, houtcome.result_eq] at h
    cases hdrafts : analysis.drafts (analysis.base store) store sources with
    | ok ds =>
      rw [hdrafts] at h
      cases h
    | error found =>
      rw [hdrafts] at h
      cases h
      rw [drafts_eq_error_iff, List.findSome?_eq_some_iff] at hdrafts
      rcases hdrafts with ⟨before, f, after, hsplit, hstop, hbefore⟩
      exact ⟨f, (failsAt_iff_exists_split hwf hsources).2
        ⟨before, after, hsplit, hstop, hbefore⟩⟩
  · rintro ⟨f, hfails⟩
    exact (run_of_failsAt hwf hsources hfails).1

/-- A source that does not end the run is skipped, or left as its rounds end. -/
theorem isSkipped_or_endsAs {ds : List Draft}
    (hds : analysis.drafts (analysis.base store) store before = .ok ds)
    (houtcome : IsOutcome analysis (analysis.base store) result store before
      ⟨.ok result', store'⟩) (hg : g ∈ before) :
    analysis.IsSkipped store g ∨ ∃ text final, store.read [] g.path = .ok text ∧
      EndsAs (analysis.lintAt store g) (roundsOf analysis.fixes) text final ∧
        store'.read [] g.path = .ok final := by
  have hstop : analysis.stop? (analysis.base store) store g = none := by
    have hnone : before.findSome? (analysis.stop? (analysis.base store) store) = none := by
      refine Option.eq_none_iff_forall_ne_some.2 fun fault hfault => ?_
      rw [drafts_eq_error_iff.2 hfault] at hds
      cases hds
    exact List.findSome?_eq_none_iff.1 hnone g hg
  cases hdraft : analysis.draftOf (analysis.base store) store g with
  | error found => simp [stop?, hdraft] at hstop
  | ok found =>
    cases found with
    | none =>
      have htolerant : analysis.failsWithoutTree = false := by
        simpa [stop?, hdraft] using hstop
      exact Or.inl ⟨draftOf_eq_none_iff.1 hdraft, htolerant⟩
    | some draft =>
      rcases draftOf_eq_ok_iff.1 hdraft with ⟨text, hread, hexamine⟩
      have hleft := houtcome.left ⟨ds, hds⟩ g hg draft hdraft
      exact Or.inr ⟨text, draft.text, hread, endsAs_of_examine hexamine, hleft⟩

theorem draftOf_of_isSkipped (h : analysis.IsSkipped store f) :
    analysis.draftOf (analysis.base store) store f = .ok none :=
  draftOf_eq_none_iff.2 h.lost

/-- What becomes of the files of a project whose parsers do not have a tree for every text.

With fixes off no file changes, and files that are not found as sources never change. A run ends
with a fault exactly if some source holds no text, or loses its tree where that is not tolerated;
the first such source in the order of paths decides which fault it is. The sources before it hold
the texts that their rounds end with, unless they are skipped. That source, the ones behind it and
all other files hold what they held. A source that is skipped holds what it held, and apart from
that the run comes to the same as if there was no such file. -/
theorem run_of_partial_parsers (analysis : Analysis) (store : FileStore)
    (hwf : store.WellFormed) :
    (analysis.fixes = false → (analysis.run store).store = store) ∧
    (∀ names, (∀ sources, analysis.sources store = .ok sources →
        ¬ IsSourcePlace store sources names) →
      (analysis.run store).store.file? names = store.file? names) ∧
    ∀ sources, analysis.sources store = .ok sources →
      (∀ fault, (analysis.run store).result = .error fault ↔
        ∃ f, analysis.FailsAt store sources f fault) ∧
      (∀ f fault, analysis.FailsAt store sources f fault →
        (∀ g ∈ sources, g.path.compare f.path = .lt →
          analysis.IsSkipped store g ∨ ∃ text final, store.read [] g.path = .ok text ∧
            EndsAs (analysis.lintAt store g) (roundsOf analysis.fixes) text final ∧
              (analysis.run store).store.read [] g.path = .ok final) ∧
        (∀ g ∈ sources, g.path.compare f.path ≠ .lt →
          ∀ names, store.resolve [] g.path = .ok names →
            (analysis.run store).store.file? names = store.file? names) ∧
        ∀ names, (∀ g ∈ sources, g.path.compare f.path = .lt →
            store.resolve [] g.path ≠ .ok names) →
          (analysis.run store).store.file? names = store.file? names) ∧
      ∀ f ∈ sources, analysis.IsSkipped store f →
        ∀ names, store.resolve [] f.path = .ok names →
          (analysis.run store).store.file? names = store.file? names ∧
          (store.resolve [] analysis.root = .ok names →
            analysis.run store = ⟨.ok .empty, store⟩) ∧
          (store.resolve [] analysis.root ≠ .ok names →
            analysis.run (store.without names) =
              ⟨(analysis.run store).result, (analysis.run store).store.without names⟩) := by
  refine ⟨store_run_of_no_fixes, ?_, ?_⟩
  · intro names hundiscovered
    cases hsources : analysis.sources store with
    | error fault => rw [run, hsources]
    | ok sources =>
      refine (modifiesOnly_run hwf hsources).elsewhere names ?_
      rintro ⟨source, hsource, hplace, -⟩
      exact hundiscovered sources hsources ⟨source, hsource, hplace⟩
  · intro sources hsources
    have hapart := apart_sources hwf hsources
    have hordered := pairwise_lt_sources hwf hsources
    refine ⟨fun fault => result_run_eq_error_iff hwf hsources, ?_, ?_⟩
    · intro f fault hfails
      rcases run_of_failsAt hwf hsources hfails with
        ⟨-, before, after, ds, rfl, hds, houtcome⟩
      have hothers : ∀ names, (∀ g ∈ before ++ f :: after, g.path.compare f.path = .lt →
          store.resolve [] g.path ≠ .ok names) →
            (analysis.run store).store.file? names = store.file? names := by
        intro names hothers
        refine houtcome.frame.elsewhere names ?_
        rintro ⟨g, hg, hplace, -⟩
        have hg' := List.mem_append_left (f :: after) hg
        exact hothers g hg' ((mem_before_iff hordered hg').1 hg) hplace
      refine ⟨fun g hg hlt => ?_, fun g hg hnot names hplace => ?_, hothers⟩
      · exact isSkipped_or_endsAs hds houtcome ((mem_before_iff hordered hg).2 hlt)
      · -- No source that comes before is at the same place.
        refine hothers names fun other hother hlt hsame => hnot ?_
        rw [← hapart.eq_of_resolve_eq hother hg (hsame.trans hplace.symm)]
        exact hlt
    · intro f hf hskipped names hresolve
      have hplace : IsSourcePlace store sources names := ⟨f, hf, hresolve⟩
      -- No other source is at the place of the skipped one.
      have hnone : ∀ source ∈ sources, store.resolve [] source.path = .ok names →
          analysis.draftOf (analysis.base store) store source = .ok none := by
        intro source hsource hsame
        rw [hapart.eq_of_resolve_eq hsource hf (hsame.trans hresolve.symm)]
        exact draftOf_of_isSkipped hskipped
      refine ⟨?_, fun hroot => ?_, fun hroot => ?_⟩
      · refine (modifiesOnly_run hwf hsources).elsewhere names ?_
        rintro ⟨source, hsource, hsame, draft, hdraft⟩
        rw [hnone source hsource hsame] at hdraft
        cases hdraft
      · exact run_of_root hwf hsources hplace hroot hskipped.tolerant hnone
      · exact run_without hwf hsources hplace hroot hskipped.tolerant hnone

/-- The parser of the sample, except that one text has no tree. -/
def partialLanguage : Language :=
  .typeScript fun text => if text = "?" then none else sampleLanguage.parse text

def partialAnalysis (strict : Bool) : Analysis :=
  { sampleAnalysis with languages := [partialLanguage], failsWithoutTree := strict }

/-- Two sources with the banned name, and one without a tree between them. -/
def partialStore : FileStore :=
  ⟨[(["w", "a.ts"], .text "x: String"), (["w", "b.ts"], .text "?"),
    (["w", "c.ts"], .text "x: String")], [], []⟩

def partialSources : List Source :=
  [⟨⟨"/w/a.ts"⟩, partialLanguage⟩, ⟨⟨"/w/b.ts"⟩, partialLanguage⟩, ⟨⟨"/w/c.ts"⟩, partialLanguage⟩]

theorem sources_partialStore (strict : Bool) :
    (partialAnalysis strict).sources partialStore = .ok partialSources := by
  have hroot : (partialAnalysis strict).root = ⟨"/w"⟩ := rfl
  have hresolve : partialStore.resolve [] ⟨"/w"⟩ = .ok ["w"] := rfl
  have hscope : (partialAnalysis strict).scope partialStore ["w"] = ⟨partialStore, ["w"], true⟩ :=
    rfl
  have hvisible : ((partialAnalysis strict).scope partialStore ["w"]).visibleFiles =
      [["a.ts"], ["b.ts"], ["c.ts"]] := by
    rw [hscope]
    decide +kernel
  have hwalks : (partialAnalysis strict).Walks partialStore
      [⟨"/w/a.ts"⟩, ⟨"/w/b.ts"⟩, ⟨"/w/c.ts"⟩] :=
    Walks.of_visibleFiles hroot hresolve rfl rfl hvisible
  exact sources_of_pairwise hwalks rfl (by decide)

theorem read_partialStore :
    partialStore.read [] ⟨"/w/a.ts"⟩ = .ok "x: String" ∧
      partialStore.read [] ⟨"/w/b.ts"⟩ = .ok "?" := by
  decide +kernel

/-- The banned name is replaced under any path, and the texts on the way have trees. -/
theorem endsAs_partialAnalysis (strict : Bool) :
    EndsAs ((partialAnalysis strict).lintAt partialStore ⟨⟨"/w/a.ts"⟩, partialLanguage⟩) 10
      "x: String" "x: string" := by
  have hbase : (partialAnalysis strict).base partialStore = ⟨"/w"⟩ := by
    have hdirectory : partialStore.isFile [] ⟨"/w"⟩ = false := by decide +kernel
    have hroot : (partialAnalysis strict).root = ⟨"/w"⟩ := rfl
    simp only [base, hroot, hdirectory, Bool.false_eq_true, if_false]
  have hshown : Path.reportedFrom ⟨"/w"⟩ ⟨"/w/a.ts"⟩ = ⟨"a.ts"⟩ := by decide +kernel
  -- The other parser has the same trees for these two texts.
  have hlint : ∀ text, text ≠ "?" →
      (partialAnalysis strict).lint ⟨"a.ts"⟩ partialLanguage text =
        sampleAnalysis.lint ⟨"a.ts"⟩ sampleLanguage text := by
    intro text htext
    have hparse : partialLanguage.parse text = sampleLanguage.parse text := by
      simp [partialLanguage, Language.typeScript, htext]
    rw [lint, lint, hparse]
    rfl
  have hbanned := (hlint "x: String" (by decide)).trans lint_sampleAnalysis_banned
  have hreplaced := (hlint "x: string" (by decide)).trans lint_sampleAnalysis_replaced
  have hfirst : fullRound ((partialAnalysis strict).lint ⟨"a.ts"⟩ partialLanguage)
      ("x: String", 0) = some ("x: string", 1) := by
    rw [fullRound, hbanned]
    decide +kernel
  have hidle : Draft.outcome ⟨"x: string", [], 1⟩ = ⟨"x: string", 0, 0⟩ := by decide +kernel
  have hrest := @fullRounds_of_applied_eq_zero _ ⟨"x: string", [], 1⟩ hreplaced (by rw [hidle]) 9
  rw [lintAt, hbase, hshown]
  refine ⟨1, ?_, by simp [hreplaced]⟩
  rw [fullRounds, hfirst, Option.bind_some, hrest]

theorem eq_of_precedes_partialSources (hg : g ∈ partialSources)
    (hlt : g.path.compare ⟨"/w/b.ts"⟩ = .lt) : g = ⟨⟨"/w/a.ts"⟩, partialLanguage⟩ := by
  have hself : Path.compare ⟨"/w/b.ts"⟩ ⟨"/w/b.ts"⟩ ≠ .lt := by decide +kernel
  have hlater : Path.compare ⟨"/w/c.ts"⟩ ⟨"/w/b.ts"⟩ ≠ .lt := by decide +kernel
  simp only [partialSources, List.mem_cons, List.not_mem_nil, or_false] at hg
  rcases hg with rfl | rfl | rfl
  · rfl
  · exact absurd hlt hself
  · exact absurd hlt hlater

theorem failsAt_partialStore :
    (partialAnalysis true).FailsAt partialStore partialSources ⟨⟨"/w/b.ts"⟩, partialLanguage⟩
      (.noTree ⟨"/w/b.ts"⟩ "typescript") where
  mem := by simp [partialSources]
  fails := Fails.noTree read_partialStore.2 ⟨0, by decide, "?", 0, rfl, rfl⟩ rfl
  first := by
    intro other hother hlt fault hfails
    rw [eq_of_precedes_partialSources hother hlt] at hfails
    cases hfails with
    | notText hread =>
      rw [read_partialStore.1] at hread
      cases hread
    | noTree hread hlost =>
      rw [read_partialStore.1] at hread
      cases hread
      exact (endsAs_partialAnalysis true).not_losesTree hlost

/-- A strict run stops at the source without a tree: the one before it is fixed, and the one after
it is not. A tolerant run does to the others what it would do without that source. -/
theorem run_partialStore :
    partialStore.WellFormed ∧
      ((partialAnalysis true).run partialStore).result =
        .error (.noTree ⟨"/w/b.ts"⟩ "typescript") ∧
      ((partialAnalysis true).run partialStore).store.read [] ⟨"/w/a.ts"⟩ = .ok "x: string" ∧
      ((partialAnalysis true).run partialStore).store.file? ["w", "c.ts"] =
        some (.text "x: String") ∧
      (partialAnalysis false).run (partialStore.without ["w", "b.ts"]) =
        ⟨((partialAnalysis false).run partialStore).result,
          ((partialAnalysis false).run partialStore).store.without ["w", "b.ts"]⟩ := by
  have hwf : partialStore.WellFormed := by decide +kernel
  rcases run_of_partial_parsers (partialAnalysis true) partialStore hwf with ⟨-, -, hstrict⟩
  rcases run_of_partial_parsers (partialAnalysis false) partialStore hwf with ⟨-, -, htolerant⟩
  rcases hstrict _ (sources_partialStore true) with ⟨hresult, hstore, -⟩
  rcases hstore _ _ failsAt_partialStore with ⟨hbefore, -, hothers⟩
  refine ⟨hwf, (hresult _).2 ⟨_, failsAt_partialStore⟩, ?_, ?_, ?_⟩
  · have hlt : Path.compare ⟨"/w/a.ts"⟩ ⟨"/w/b.ts"⟩ = .lt := by decide +kernel
    rcases hbefore ⟨⟨"/w/a.ts"⟩, partialLanguage⟩ (by simp [partialSources]) hlt with
      hskipped | ⟨text, final, hread, hends, hleft⟩
    · exact absurd hskipped.tolerant (by decide)
    · rw [read_partialStore.1] at hread
      cases hread
      rw [(endsAs_partialAnalysis true).eq hends]
      exact hleft
  · have helsewhere : partialStore.resolve [] ⟨"/w/a.ts"⟩ ≠ .ok ["w", "c.ts"] := by decide +kernel
    refine (hothers ["w", "c.ts"] ?_).trans (by decide +kernel)
    intro g hg hlt
    rw [eq_of_precedes_partialSources hg hlt]
    exact helsewhere
  · have hplace : partialStore.resolve [] ⟨"/w/b.ts"⟩ = .ok ["w", "b.ts"] := by decide +kernel
    have hroot : partialStore.resolve [] ⟨"/w"⟩ ≠ .ok ["w", "b.ts"] := by decide +kernel
    have hskipped : (partialAnalysis false).IsSkipped partialStore
        ⟨⟨"/w/b.ts"⟩, partialLanguage⟩ :=
      ⟨⟨"?", read_partialStore.2, 0, by decide, "?", 0, rfl, rfl⟩, rfl⟩
    exact ((htolerant _ (sources_partialStore false)).2.2 ⟨⟨"/w/b.ts"⟩, partialLanguage⟩
      (by simp [partialSources]) hskipped _ hplace).2.2 hroot

end Analysis
end TypeNameLint
