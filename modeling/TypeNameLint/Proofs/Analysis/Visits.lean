import TypeNameLint.Analysis.Run
import TypeNameLint.Proofs.Analysis.Discovery

/-!
# Visits — what a run leaves of each file depends on that file only

The visits go from file to file and write on the way, but no visit writes to a file that another one
reads. So the drafts of a run can be told from the store that it starts with. This file defines:

* `draftOf`: what a file comes to, as it is found in a store;
* `drafts`: the drafts of all files, up to the first one that ends the run;
* `IsOutcome`: the result and the store that belong to these drafts.

The main results are `isOutcome_visitAll` and `visitAll_of_unchanged`.
-/

namespace TypeNameLint
namespace Analysis

open FileStore (LeadsToFile ModifiesOnly SameShape)

variable {analysis : Analysis} {base : Path} {store store' after : FileStore} {source : Source}
variable {sources : List Source} {names : Names} {draft : Draft} {result : LintResult}

/-! ## One file -/

/-- What a file comes to: a fault, nothing if a text on the way has no tree, or a draft. -/
def draftOf (analysis : Analysis) (base : Path) (store : FileStore) (source : Source) :
    Except FileFault (Option Draft) :=
  match store.read [] source.path with
  | .error fault => .error fault
  | .ok text => .ok (examine analysis.fixes
      (analysis.lint (base.reportedFrom source.path) source.language) text)

theorem draftOf_eq_ok_iff {outcome : Option Draft} :
    analysis.draftOf base store source = .ok outcome ↔
      ∃ text, store.read [] source.path = .ok text ∧
        examine analysis.fixes (analysis.lint (base.reportedFrom source.path) source.language)
          text = outcome := by
  rw [draftOf]
  cases store.read [] source.path <;> simp

/-- Changes elsewhere do not matter to a file. -/
theorem draftOf_of_modifiesOnly {changed : Names → Prop} (h : ModifiesOnly changed store after)
    (hplace : ∀ names, store.resolve [] source.path = .ok names → ¬ changed names) :
    analysis.draftOf base after source = analysis.draftOf base store source := by
  have hread : after.read [] source.path = store.read [] source.path :=
    h.toSameShape.read_eq fun names hnames => h.elsewhere names (hplace names hnames)
  simp only [draftOf, hread]

theorem visit_of_fault {fault : FileFault} :
    analysis.draftOf base store source = .error fault →
      analysis.visit base store source = .error fault := by
  intro h
  rw [draftOf] at h
  rw [visit]
  cases hread : store.read [] source.path with
  | error found => simpa [hread] using h
  | ok text => simp [hread] at h

theorem visit_of_no_draft :
    analysis.draftOf base store source = .ok none →
      analysis.visit base store source = .ok ⟨none, store⟩ := by
  intro h
  rcases draftOf_eq_ok_iff.1 h with ⟨text, hread, hexamine⟩
  simp only [visit, hread, hexamine]

/-- A draft that changes nothing is not written. -/
theorem visit_of_unchanged (h : analysis.draftOf base store source = .ok (some draft))
    (hsame : store.read [] source.path = .ok draft.text) :
    analysis.visit base store source = .ok ⟨some draft, store⟩ := by
  rcases draftOf_eq_ok_iff.1 h with ⟨text, hread, hexamine⟩
  obtain rfl : text = draft.text := Except.ok.inj (hread.symm.trans hsame)
  simp only [visit, hread, hexamine, if_pos]

/-- A draft is what its file holds after the visit, and no other file is touched. -/
theorem visit_of_draft (hwf : store.WellFormed) (hleads : store.LeadsToFile [] source.path names)
    (h : analysis.draftOf base store source = .ok (some draft)) :
    ∃ store', analysis.visit base store source = .ok ⟨some draft, store'⟩ ∧
      ModifiesOnly (· = names) store store' ∧
        store'.file? names = some (.text draft.text) := by
  rcases draftOf_eq_ok_iff.1 h with ⟨text, hread, hexamine⟩
  -- A text that came out as it was is not written, and is there already.
  by_cases hsame : draft.text = text
  · have hread' : store.read [] source.path = .ok draft.text := by rw [hread, hsame]
    rcases FileStore.read_eq_ok_iff.1 hread' with ⟨others, hresolve, hfile⟩
    obtain rfl : others = names := Except.ok.inj (hresolve.symm.trans hleads.1)
    exact ⟨store, visit_of_unchanged h hread', ModifiesOnly.refl _ store, hfile⟩
  · refine ⟨store.put names (.text draft.text), ?_, ?_, ?_⟩
    · simp only [visit, hread, hexamine, if_neg hsame, FileStore.write_of_leadsToFile hwf hleads]
      rfl
    · exact FileStore.modifiesOnly_put hleads.2 (.text draft.text)
    · simpa using FileStore.file?_put hleads.2 (.text draft.text) names

/-! ## All files -/

/-- The drafts of the files, as they are found in one store. -/
def drafts (analysis : Analysis) (base : Path) (store : FileStore) :
    List Source → Except AnalysisFault (List Draft)
  | [] => .ok []
  | source :: sources =>
    match analysis.draftOf base store source with
    | .error fault => .error (.file fault)
    | .ok none =>
      if analysis.failsWithoutTree then .error (.noTree source.path source.language.id)
      else analysis.drafts base store sources
    | .ok (some draft) => (analysis.drafts base store sources).map (draft :: ·)

theorem violations_foldl_addDraft (result : LintResult) (drafts : List Draft) :
    (drafts.foldl addDraft result).violations =
      result.violations ++ drafts.flatMap Draft.violations := by
  induction drafts generalizing result with
  | nil => simp
  | cons draft drafts ih => simp [ih, addDraft]

theorem filesChecked_foldl_addDraft (result : LintResult) (drafts : List Draft) :
    (drafts.foldl addDraft result).filesChecked = result.filesChecked + drafts.length := by
  induction drafts generalizing result with
  | nil => simp
  | cons draft drafts ih =>
    simp only [List.foldl_cons, ih, addDraft, List.length_cons]
    omega

theorem mem_violations_sorted {drafts : List Draft} {v : Violation} :
    v ∈ (sorted (drafts.foldl addDraft .empty)).violations ↔
      ∃ draft ∈ drafts, v ∈ draft.violations := by
  have hperm : (sorted (drafts.foldl addDraft .empty)).violations.Perm
      (drafts.foldl addDraft .empty).violations := List.mergeSort_perm _ _
  rw [hperm.mem_iff, violations_foldl_addDraft]
  simp [LintResult.empty]

/-- The places of the sources that have a draft. -/
def IsDraftPlace (analysis : Analysis) (base : Path) (store : FileStore) (sources : List Source)
    (names : Names) : Prop :=
  ∃ source ∈ sources, store.resolve [] source.path = .ok names ∧
    ∃ draft, analysis.draftOf base store source = .ok (some draft)

/-- What came of the visits, told from the store that they start with: the result adds up the
drafts, only files with a draft are touched, and in the end each of them holds its draft. -/
structure IsOutcome (analysis : Analysis) (base : Path) (result : LintResult) (store : FileStore)
    (sources : List Source) (outcome : Outcome) : Prop where
  result_eq : outcome.result =
    (analysis.drafts base store sources).map fun drafts => drafts.foldl addDraft result
  frame : ModifiesOnly (analysis.IsDraftPlace base store sources) store outcome.store
  left : (∃ drafts, analysis.drafts base store sources = .ok drafts) →
    ∀ source ∈ sources, ∀ draft, analysis.draftOf base store source = .ok (some draft) →
      outcome.store.read [] source.path = .ok draft.text

theorem drafts_congr (h : ∀ source ∈ sources,
    analysis.draftOf base after source = analysis.draftOf base store source) :
    analysis.drafts base after sources = analysis.drafts base store sources := by
  induction sources with
  | nil => rfl
  | cons source sources ih =>
    have hhead := h source (by simp)
    have htail := ih fun other hother => h other (List.mem_cons_of_mem source hother)
    simp only [drafts, hhead, htail]

/-- After a change in shape only, the other sources are still different files. -/
theorem Apart.tail (h : Apart store base (source :: sources)) (hshape : SameShape store after) :
    Apart after base sources where
  leads := by
    intro other hother
    rcases h.leads other (List.mem_cons_of_mem source hother) with ⟨names, hresolve, hfile⟩
    refine ⟨names, (hshape.resolve_eq [] other.path).trans hresolve, ?_⟩
    rw [hshape.isSome_file?_eq]
    exact hfile
  places := by
    simp only [hshape.resolve_eq]
    exact (List.pairwise_cons.1 h.places).2
  shown := (List.pairwise_cons.1 h.shown).2

/-- What is written to one file is not seen in the others. -/
theorem Apart.draftOf_eq (h : Apart store base (source :: sources))
    (hresolve : store.resolve [] source.path = .ok names)
    (hchange : ModifiesOnly (· = names) store after) :
    ∀ other ∈ sources, analysis.draftOf base after other = analysis.draftOf base store other := by
  intro other hother
  refine draftOf_of_modifiesOnly hchange ?_
  rintro others hothers rfl
  exact (List.pairwise_cons.1 h.places).1 other hother (hresolve.trans hothers.symm)

theorem IsOutcome.cons_of_no_draft {outcome : Outcome}
    (hnone : analysis.draftOf base store source = .ok none)
    (htolerated : analysis.failsWithoutTree = false)
    (h : IsOutcome analysis base result store sources outcome) :
    IsOutcome analysis base result store (source :: sources) outcome where
  result_eq := by
    simp only [drafts, hnone, htolerated, h.result_eq]
    rfl
  frame := h.frame.mono fun names ⟨other, hother, hplace⟩ =>
    ⟨other, List.mem_cons_of_mem source hother, hplace⟩
  left := by
    rintro ⟨ds, hds⟩ other hother draft hdraft
    have hds' : analysis.drafts base store sources = .ok ds := by
      simpa [drafts, hnone, htolerated] using hds
    rcases List.mem_cons.1 hother with rfl | hother
    · rw [hnone] at hdraft
      cases hdraft
    · exact h.left ⟨ds, hds'⟩ other hother draft hdraft

/-- No later visit writes to a file that was visited, so its draft stays. -/
theorem read_of_held (hapart : Apart store base (source :: sources))
    (hresolve : store.resolve [] source.path = .ok names)
    (hshape : SameShape store after) (hheld : after.file? names = some (.text draft.text))
    (hframe : ModifiesOnly (analysis.IsDraftPlace base after sources) after store') :
    store'.read [] source.path = .ok draft.text := by
  refine FileStore.read_eq_ok_iff.2 ⟨names, ?_, ?_⟩
  · rw [hframe.resolve_eq, hshape.resolve_eq, hresolve]
  · rw [hframe.elsewhere names, hheld]
    rintro ⟨later, hlater, hplace, -⟩
    rw [hshape.resolve_eq] at hplace
    exact (List.pairwise_cons.1 hapart.places).1 later hlater (hresolve.trans hplace.symm)

theorem exists_drafts_of_cons {ds : List Draft}
    (hdraft : analysis.draftOf base store source = .ok (some draft))
    (h : analysis.drafts base store (source :: sources) = .ok ds) :
    ∃ rest, analysis.drafts base store sources = .ok rest ∧ ds = draft :: rest := by
  rw [drafts, hdraft] at h
  rcases map_eq_ok_iff.1 h with ⟨rest, hrest, rfl⟩
  exact ⟨rest, hrest, rfl⟩

theorem IsOutcome.cons_of_draft {outcome : Outcome} (hapart : Apart store base (source :: sources))
    (hdraft : analysis.draftOf base store source = .ok (some draft))
    (hleads : store.LeadsToFile [] source.path names)
    (hchange : ModifiesOnly (· = names) store after)
    (hheld : after.file? names = some (.text draft.text))
    (h : IsOutcome analysis base (addDraft result draft) after sources outcome) :
    IsOutcome analysis base result store (source :: sources) outcome := by
  have hothers := @Apart.draftOf_eq analysis _ _ _ _ _ _ hapart hleads.1 hchange
  have hdrafts := drafts_congr hothers
  constructor
  · rw [h.result_eq, hdrafts, drafts, hdraft]
    cases analysis.drafts base store sources <;> rfl
  · refine (hchange.mono ?_).trans (h.frame.mono ?_)
    · rintro others rfl
      exact ⟨source, by simp, hleads.1, draft, hdraft⟩
    · rintro others ⟨other, hother, hplace, found, hfound⟩
      refine ⟨other, List.mem_cons_of_mem source hother, ?_, found, ?_⟩
      · rw [← hchange.resolve_eq, hplace]
      · rw [← hothers other hother, hfound]
  · rintro ⟨ds, hds⟩ other hother found hfound
    rcases exists_drafts_of_cons hdraft hds with ⟨rest, hrest, -⟩
    rcases List.mem_cons.1 hother with rfl | hother
    · have heq : draft = found := Option.some.inj (Except.ok.inj (hdraft.symm.trans hfound))
      rw [← heq]
      exact read_of_held hapart hleads.1 hchange.toSameShape hheld h.frame
    · refine h.left ⟨rest, hdrafts.trans hrest⟩ other hother found ?_
      rw [hothers other hother, hfound]

/-- The visits come to the drafts of the files as they were at the start. -/
theorem isOutcome_visitAll (hwf : store.WellFormed) (hapart : Apart store base sources) :
    IsOutcome analysis base result store sources
      (analysis.visitAll base result store sources) := by
  induction sources generalizing store result with
  | nil =>
    refine ⟨rfl, ModifiesOnly.refl _ store, ?_⟩
    intro _ source hsource
    cases hsource
  | cons source sources ih =>
    -- A run that stops at this file has touched nothing since the state that it is told from.
    have hstopped : ∀ fault, analysis.drafts base store (source :: sources) = .error fault →
        IsOutcome analysis base result store (source :: sources) ⟨.error fault, store⟩ := by
      intro fault hfault
      refine ⟨by rw [hfault]; rfl, ModifiesOnly.refl _ store, ?_⟩
      rintro ⟨ds, hds⟩
      rw [hfault] at hds
      cases hds
    cases hdraft : analysis.draftOf base store source with
    | error fault =>
      rw [visitAll, visit_of_fault hdraft]
      exact hstopped _ (by simp [drafts, hdraft])
    | ok found =>
      cases found with
      | none =>
        rw [visitAll, visit_of_no_draft hdraft]
        cases hfails : analysis.failsWithoutTree with
        | true => exact hstopped _ (by simp [drafts, hdraft, hfails])
        | false =>
          exact (ih hwf (hapart.tail (SameShape.refl store))).cons_of_no_draft hdraft hfails
      | some draft =>
        rcases hapart.leads source (by simp) with ⟨names, hleads⟩
        rcases visit_of_draft hwf hleads hdraft with ⟨after, hvisit, hchange, hheld⟩
        rw [visitAll, hvisit]
        -- The other visits start from the store after this one, where their files are as before.
        have hrest := @ih after (addDraft result draft) (hchange.wellFormed hwf)
          (hapart.tail hchange.toSameShape)
        exact hrest.cons_of_draft hapart hdraft hleads hchange hheld

/-- Visits that find every file as they would leave it change nothing. -/
theorem visitAll_of_unchanged (h : ∀ source ∈ sources, ∀ draft,
    analysis.draftOf base store source = .ok (some draft) →
      store.read [] source.path = .ok draft.text) :
    analysis.visitAll base result store sources =
      ⟨(analysis.drafts base store sources).map fun drafts => drafts.foldl addDraft result,
        store⟩ := by
  induction sources generalizing result with
  | nil => rfl
  | cons source sources ih =>
    have htail := fun result => @ih result fun other hother =>
      h other (List.mem_cons_of_mem source hother)
    cases hdraft : analysis.draftOf base store source with
    | error fault =>
      rw [visitAll, visit_of_fault hdraft, drafts, hdraft]
      rfl
    | ok found =>
      cases found with
      | none =>
        rw [visitAll, visit_of_no_draft hdraft, drafts, hdraft]
        cases analysis.failsWithoutTree with
        | true => rfl
        | false => exact htail result
      | some draft =>
        rw [visitAll, visit_of_unchanged hdraft (h source (by simp) draft hdraft), drafts, hdraft]
        refine (htail (addDraft result draft)).trans ?_
        cases analysis.drafts base store sources <;> rfl

/-! ## The whole run -/

theorem run_of_sources (h : analysis.sources store = .ok sources) :
    analysis.run store =
      { analysis.visitAll (analysis.base store) .empty store sources with
        result :=
          (analysis.visitAll (analysis.base store) .empty store sources).result.map sorted } := by
  rw [run, h]

theorem exists_sources_of_run (h : (analysis.run store).result = .ok result) :
    ∃ sources, analysis.sources store = .ok sources := by
  rw [run] at h
  cases hsources : analysis.sources store with
  | error fault =>
    rw [hsources] at h
    cases h
  | ok sources => exact ⟨sources, rfl⟩

/-- A run that succeeds has the drafts of all its files, and leaves each of them in its file. -/
theorem exists_drafts_of_run (hwf : store.WellFormed)
    (hsources : analysis.sources store = .ok sources)
    (h : (analysis.run store).result = .ok result) :
    ∃ drafts, analysis.drafts (analysis.base store) store sources = .ok drafts ∧
      result = sorted (drafts.foldl addDraft .empty) ∧
        IsOutcome analysis (analysis.base store) .empty store sources
          ⟨.ok (drafts.foldl addDraft .empty), (analysis.run store).store⟩ := by
  have houtcome := @isOutcome_visitAll analysis _ _ _ .empty hwf (apart_sources hwf hsources)
  rw [run_of_sources hsources] at h ⊢
  generalize analysis.visitAll (analysis.base store) .empty store sources = outcome
    at houtcome h ⊢
  rcases outcome with ⟨visited, after⟩
  have hvisited := houtcome.result_eq
  cases hdrafts : analysis.drafts (analysis.base store) store sources with
  | error fault =>
    rw [hdrafts] at hvisited
    rw [hvisited] at h
    cases h
  | ok ds =>
    rw [hdrafts] at hvisited
    obtain rfl : visited = .ok (ds.foldl addDraft .empty) := hvisited
    exact ⟨ds, rfl, (Except.ok.inj h).symm, houtcome⟩

/-- The drafts of a run are those of the sources that have one. -/
theorem mem_drafts_iff {ds : List Draft} (h : analysis.drafts base store sources = .ok ds) :
    draft ∈ ds ↔ ∃ source ∈ sources, analysis.draftOf base store source = .ok (some draft) := by
  induction sources generalizing ds with
  | nil =>
    cases h
    simp
  | cons source sources ih =>
    cases hdraft : analysis.draftOf base store source with
    | error fault =>
      rw [drafts, hdraft] at h
      cases h
    | ok found =>
      cases found with
      | none =>
        -- The run goes on behind a source without a draft only if that is tolerated.
        have hrest : analysis.drafts base store sources = .ok ds := by
          cases hfails : analysis.failsWithoutTree <;> simp [drafts, hdraft, hfails] at h
          exact h
        simp [ih hrest, hdraft]
      | some first =>
        rcases exists_drafts_of_cons hdraft h with ⟨rest, hrest, rfl⟩
        simp [ih hrest, hdraft, eq_comm]

/-- Sources that all have a draft have them in order. -/
theorem forall₂_of_drafts {ds : List Draft}
    (htotal : ∀ source ∈ sources, analysis.draftOf base store source ≠ .ok none)
    (h : analysis.drafts base store sources = .ok ds) :
    List.Forall₂ (fun source draft => analysis.draftOf base store source = .ok (some draft))
      sources ds := by
  induction sources generalizing ds with
  | nil =>
    cases h
    exact List.Forall₂.nil
  | cons source sources ih =>
    cases hdraft : analysis.draftOf base store source with
    | error fault =>
      rw [drafts, hdraft] at h
      cases h
    | ok found =>
      cases found with
      | none => exact absurd hdraft (htotal source (by simp))
      | some draft =>
        rcases exists_drafts_of_cons hdraft h with ⟨rest, hrest, rfl⟩
        exact List.Forall₂.cons hdraft
          (ih (fun other hother => htotal other (List.mem_cons_of_mem source hother)) hrest)

theorem drafts_of_forall₂ {ds : List Draft}
    (h : List.Forall₂ (fun source draft => analysis.draftOf base store source = .ok (some draft))
      sources ds) : analysis.drafts base store sources = .ok ds := by
  induction h with
  | nil => rfl
  | cons hdraft _ ih =>
    rw [drafts, hdraft, ih]
    rfl

end Analysis
end TypeNameLint
