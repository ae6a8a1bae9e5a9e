import Mathlib.Data.Nat.ModEq
import TypeNameLint.Analysis.File
import TypeNameLint.Proofs.Edit.Words

/-!
# Rearrangement — in which order replacements are given

Replacements are sorted by their spans before any is applied, and those of one span keep their
order. So it makes no difference in which order the spans are given. Of several replacements for one
span no more than the first can be applied: if that one does not fit or comes too late, so do the
others. This file defines:

* `HasSpan`: the replacements for one span;
* `Rearranged`: batches that differ in the order of spans only;
* `Analysis.FirstToOffer`: the rule that decides among several ones with a fix for one span.

The main result is `apply_of_rearranged`.
-/

namespace TypeNameLint
namespace Edit

variable {source : List Char} {rs rs' : List Replacement} {r s : Replacement}
variable {offset length : Nat}

/-! ## Spans -/

/-- A replacement for the span of some length at an offset. -/
def HasSpan (offset length : Nat) (r : Replacement) : Prop :=
  r.location.offset = offset ∧ r.location.length = length

instance (offset length : Nat) : DecidablePred (HasSpan offset length) := fun r =>
  inferInstanceAs (Decidable (r.location.offset = offset ∧ r.location.length = length))

/-- The same replacements in another order, but for those of one span. -/
structure Rearranged (rs rs' : List Replacement) : Prop where
  perm : rs'.Perm rs
  spans : ∀ offset length,
    rs'.filter (fun r => HasSpan offset length r) = rs.filter fun r => HasSpan offset length r

theorem HasSpan.stop_eq (hr : HasSpan offset length r) (hs : HasSpan offset length s) :
    r.location.stop = s.location.stop := by
  rw [Location.stop, Location.stop, hr.1, hr.2, hs.1, hs.2]

/-- Lengths of one offset that lead to one end are the same, even if the end has wrapped around. -/
theorem length_eq_of_stop_eq (hr : InWords r) (hs : InWords s)
    (hoffset : r.location.offset = s.location.offset) (hstop : r.location.stop = s.location.stop) :
    r.location.length = s.location.length := by
  rw [Location.stop, Location.stop, hoffset] at hstop
  have hlength : r.location.length ≡ s.location.length [MOD Location.wordSize] :=
    Nat.ModEq.add_left_cancel' s.location.offset hstop
  exact hlength.eq_of_lt_of_lt hr.length_lt hs.length_lt

/-- Ties are the replacements of one span. -/
theorem tie_precedes_iff (hr : InWords r) (hs : InWords s) :
    tie precedes r s = true ↔ HasSpan r.location.offset r.location.length s := by
  constructor
  · intro h
    simp only [tie, precedes, Bool.and_eq_true, Bool.or_eq_true, decide_eq_true_eq] at h
    have hoffset : s.location.offset = r.location.offset := by omega
    have hstop : s.location.stop = r.location.stop := by omega
    exact ⟨hoffset, length_eq_of_stop_eq hs hr hoffset hstop⟩
  · intro h
    have hstop : r.location.stop = s.location.stop := HasSpan.stop_eq ⟨rfl, rfl⟩ h
    simp [tie, precedes, h.1, hstop]

/-! ## Batches in another order -/

/-- Sorting undoes every rearrangement: the sorted batches have the same elements and agree on the
order of all ties. -/
theorem Rearranged.inOrder_eq (h : Rearranged rs rs') (hwords : ∀ r ∈ rs, InWords r) :
    inOrder rs' = inOrder rs := by
  have hperm : (inOrder rs').Perm (inOrder rs) :=
    (inOrder_perm rs').trans (h.perm.trans (inOrder_perm rs).symm)
  have hordered : ∀ r ∈ inOrder rs, InWords r := fun r hr =>
    hwords r ((inOrder_perm rs).mem_iff.1 hr)
  refine eq_of_pairwise_of_filter_eq precedes_total (pairwise_inOrder rs') (pairwise_inOrder rs)
    hperm fun r hr => ?_
  have hspan : ∀ s ∈ inOrder rs, tie precedes r s = decide (HasSpan r.location.offset
      r.location.length s) := by
    intro s hs
    rw [Bool.eq_iff_iff, decide_eq_true_eq]
    exact tie_precedes_iff (hordered r (hperm.mem_iff.1 hr)) (hordered s hs)
  calc
    (inOrder rs').filter (tie precedes r)
        = (inOrder rs').filter fun s => HasSpan r.location.offset r.location.length s :=
          List.filter_congr fun s hs => hspan s (hperm.mem_iff.1 hs)
    _ = (inOrder rs).filter fun s => HasSpan r.location.offset r.location.length s := by
          rw [filter_inOrder, filter_inOrder, h.spans]
    _ = (inOrder rs).filter (tie precedes r) := List.filter_congr fun s hs => (hspan s hs).symm

theorem Rearranged.apply_eq (h : Rearranged rs rs') (hwords : ∀ r ∈ rs, InWords r)
    (source : String) : apply source rs' = apply source rs := by
  rw [apply, apply, h.inOrder_eq hwords, h.perm.length_eq]

/-! ## Replacements of one span -/

theorem filter_span_select_of_late {stop : Nat} (hlate : offset ≤ stop) (rs : List Replacement) :
    (select source (some stop) rs).filter (fun r => HasSpan offset length r) = [] := by
  refine List.filter_eq_nil_iff.2 fun s hs hspan => ?_
  -- All that is selected after an end starts behind it.
  have hlt : stop < s.location.offset := lt_offset_of_mem_select hs stop rfl
  have hoffset : s.location.offset = offset := (of_decide_eq_true hspan).1
  omega

theorem filter_span_select_of_misfit (hspan : HasSpan offset length r)
    (hfits : fits source r = false) (lastEnd : Option Nat) (rs : List Replacement) :
    (select source lastEnd rs).filter (fun r => HasSpan offset length r) = [] := by
  refine List.filter_eq_nil_iff.2 fun s hs hsame => ?_
  have hsame : HasSpan offset length s := of_decide_eq_true hsame
  have hfits' : fits source s = true := fits_of_mem_select hs
  rw [fits, hsame.1, HasSpan.stop_eq hsame hspan, ← hspan.1, ← fits, hfits] at hfits'
  cases hfits'

/-- The first replacement of a span decides for all of them: if it does not fit, the others do not
either, and if it comes too late or is taken, the others come too late. -/
theorem filter_span_select (source : List Char) (lastEnd : Option Nat) (rs : List Replacement)
    (offset length : Nat) :
    (select source lastEnd rs).filter (fun r => HasSpan offset length r) = [] ∨
      ∃ first, rs.find? (fun r => HasSpan offset length r) = some first ∧
        (select source lastEnd rs).filter (fun r => HasSpan offset length r) = [first] := by
  induction rs generalizing lastEnd with
  | nil => exact Or.inl rfl
  | cons r rest ih =>
    rw [select]
    by_cases hspan : HasSpan offset length r
    · split
      -- The first one is left out, for a reason that holds for the others as well.
      · rename_i htest
        left
        rcases Bool.or_eq_true_iff.1 htest with hover | hfits
        · cases lastEnd with
          | none => cases hover
          | some stop =>
            have hlate : r.location.offset ≤ stop := of_decide_eq_true hover
            exact filter_span_select_of_late (hspan.1 ▸ hlate) rest
        · exact filter_span_select_of_misfit hspan (by simpa using hfits) lastEnd rest
      -- The first one is taken, and its end is not in front of where the others start.
      · rename_i htest
        right
        have hfits : fits source r = true := by simp_all
        have hlate : offset ≤ r.location.stop := hspan.1 ▸ offset_le_stop_of_fits hfits
        refine ⟨r, List.find?_cons_of_pos (by simpa using hspan), ?_⟩
        rw [List.filter_cons_of_pos (by simpa using hspan), filter_span_select_of_late hlate rest]
    · rw [List.find?_cons_of_neg (by simpa using hspan)]
      split
      · exact ih lastEnd
      · rw [List.filter_cons_of_neg (by simpa using hspan)]
        exact ih _

/-- Replacements of one span are sorted already. -/
theorem find?_span_inOrder (rs : List Replacement) (offset length : Nat) :
    (inOrder rs).find? (fun r => HasSpan offset length r) =
      rs.find? fun r => HasSpan offset length r := by
  have hsorted : (rs.filter fun r => HasSpan offset length r).Pairwise fun r s =>
      precedes r s = true := by
    refine List.pairwise_of_forall_mem_list fun r hr s hs => ?_
    have hr : HasSpan offset length r := of_decide_eq_true (List.mem_filter.1 hr).2
    have hs : HasSpan offset length s := of_decide_eq_true (List.mem_filter.1 hs).2
    simp [precedes, hr.1, hs.1, HasSpan.stop_eq hr hs]
  rw [← List.head?_filter, filter_inOrder, ← List.head?_filter]
  exact congrArg List.head? (List.mergeSort_of_pairwise hsorted)

/-- Of the replacements for one span none is applied or only the first one that is given. -/
theorem filter_span_chosen (source : String) (rs : List Replacement) (offset length : Nat) :
    (chosen source rs).filter (fun r => HasSpan offset length r) = [] ∨
      ∃ first, rs.find? (fun r => HasSpan offset length r) = some first ∧
        (chosen source rs).filter (fun r => HasSpan offset length r) = [first] := by
  rw [← find?_span_inOrder]
  exact filter_span_select source.toList none (inOrder rs) offset length

/-- So whatever is applied was given as the first one for its span. -/
theorem find?_span_of_mem_chosen {source : String} (h : r ∈ chosen source rs) :
    rs.find? (fun s => HasSpan r.location.offset r.location.length s) = some r := by
  have hmem : r ∈ (chosen source rs).filter
      fun s => HasSpan r.location.offset r.location.length s :=
    List.mem_filter.2 ⟨h, decide_eq_true ⟨rfl, rfl⟩⟩
  rcases filter_span_chosen source rs r.location.offset r.location.length with
    hnil | ⟨first, hfirst, hsingle⟩
  · rw [hnil] at hmem
    cases hmem
  · rw [hsingle] at hmem
    obtain rfl : r = first := List.mem_singleton.1 hmem
    exact hfirst

end Edit

/-! ## Fixes of several rules -/

namespace Analysis

open Edit (HasSpan chosen)

variable {analysis : Analysis} {language : Language} {shown : Path} {text : String} {tree : Tree}
variable {r : Replacement}

/-- The fixes that a rule offers in a parsed file. -/
def offered (analysis : Analysis) (file : SourceFile) (tree : Tree) (rule : Rule) :
    List Replacement :=
  (analysis.applyRule file tree rule).filterMap Violation.fix?

/-- The fix is the first one that a rule offers for its span, and no rule that is registered before
this one offers any for the span. -/
def FirstToOffer (analysis : Analysis) (file : SourceFile) (tree : Tree) (rule : Rule)
    (r : Replacement) : Prop :=
  ∃ before after, analysis.rules = before ++ rule :: after ∧
    (∀ earlier ∈ before, ∀ s ∈ analysis.offered file tree earlier,
      ¬ HasSpan r.location.offset r.location.length s) ∧
    (analysis.offered file tree rule).find?
      (fun s => HasSpan r.location.offset r.location.length s) = some r

/-- What is applied in a round comes from the first rule that offers a fix for its span. -/
theorem exists_firstToOffer_of_mem_chosen
    (h : r ∈ chosen text ((analysis.applyRules ⟨shown, text⟩ tree).filterMap Violation.fix?)) :
    ∃ rule, analysis.FirstToOffer ⟨shown, text⟩ tree rule r := by
  have hfirst := Edit.find?_span_of_mem_chosen h
  rw [applyRules, List.filterMap_flatMap, List.find?_flatMap] at hfirst
  rcases List.findSome?_eq_some_iff.1 hfirst with ⟨before, rule, after, hrules, hrule, hnone⟩
  refine ⟨rule, before, after, hrules, ?_, hrule⟩
  intro earlier hearlier s hs hspan
  have hs' := List.find?_eq_none.1 (hnone earlier hearlier) s hs
  exact hs' (decide_eq_true hspan)

end Analysis

namespace Edit

/-- A batch of replacements that is rearranged without moving those of one span past each other has
the same outcome. Of the replacements for one span only the first can be applied, so among several
rules that offer fixes for it the one that is registered first decides. -/
theorem apply_of_rearranged (source : String) (rs rs' : List Replacement)
    (hwords : ∀ r ∈ rs, InWords r) (h : Rearranged rs rs') :
    apply source rs' = apply source rs ∧
      (apply source rs).applied = (chosen source rs).length ∧
      (∀ offset length, (chosen source rs).filter (fun r => HasSpan offset length r) = [] ∨
        ∃ first, rs.find? (fun r => HasSpan offset length r) = some first ∧
          (chosen source rs).filter (fun r => HasSpan offset length r) = [first]) ∧
      ∀ (analysis : Analysis) (shown : Path) (language : Language) (text : String) (tree : Tree),
        language.parse text = some tree →
          ∃ violations, analysis.lint shown language text = some violations ∧
            ∀ r ∈ chosen text (violations.filterMap Violation.fix?),
              ∃ rule, analysis.FirstToOffer ⟨shown, text⟩ tree rule r := by
  refine ⟨h.apply_eq hwords source, rfl, filter_span_chosen source rs, ?_⟩
  intro analysis shown language text tree hparse
  refine ⟨analysis.applyRules ⟨shown, text⟩ tree, ?_, ?_⟩
  · rw [Analysis.lint, hparse, Option.map_some]
  · intro r hr
    exact Analysis.exists_firstToOffer_of_mem_chosen hr

def callBatch : List Replacement :=
  [overwriting 5 6 "number", overwriting 5 6 "Integer", overwriting 0 1 "g"]

/-- The span at the start is given first, and the two replacements for the other span stay in
order. -/
def callBatchRearranged : List Replacement :=
  [overwriting 0 1 "g", overwriting 5 6 "number", overwriting 5 6 "Integer"]

theorem rearranged_callBatch : Rearranged callBatch callBatchRearranged where
  perm := by decide
  spans := by
    intro offset length
    by_cases hstart : HasSpan offset length (overwriting 0 1 "g")
    · obtain ⟨rfl, rfl⟩ : 0 = offset ∧ 1 = length := hstart
      decide
    · simp [callBatch, callBatchRearranged, List.filter_cons, hstart]

/-- A rule that puts another word in the place of the one at the start of every file. -/
def rewording (newText : String) : Rule where
  name := newText
  code := newText
  description := ""
  severity := .error
  fixable := true
  needsReason := false
  check file _ :=
    let location : Location := ⟨file.path, 1, 1, 0, 3⟩
    [⟨newText, newText, .error, location, "", some ⟨"", some ⟨location, newText⟩⟩, false⟩]

def rivals : Analysis where
  root := ⟨"/w"⟩
  rules := [rewording "const", rewording "var"]
  languages := []
  exclude := []
  config := .default
  failsWithoutTree := false
  fixes := true

/-- The outcome of both batches is the same, and of the two rules the first one decides. -/
theorem apply_callBatch :
    (∀ r ∈ callBatch, InWords r) ∧ Rearranged callBatch callBatchRearranged ∧
      apply "f(a: Number)" callBatchRearranged = ⟨"g(a: number)", 2, 1⟩ ∧
      ∃ violations,
        rivals.lint ⟨"a.ts"⟩ (.typeScript fun _ => some (.node ⟨"program", none, 0, 6⟩ []))
            "let a;" = some violations ∧
          chosen "let a;" (violations.filterMap Violation.fix?) =
            [⟨⟨⟨"a.ts"⟩, 1, 1, 0, 3⟩, "const"⟩] ∧
          ∃ rule, rivals.FirstToOffer ⟨⟨"a.ts"⟩, "let a;"⟩ (.node ⟨"program", none, 0, 6⟩ []) rule
            ⟨⟨⟨"a.ts"⟩, 1, 1, 0, 3⟩, "const"⟩ := by
  have hwords : ∀ r ∈ callBatch, InWords r := by decide
  have horder : inOrder callBatch = callBatchRearranged :=
    (rearranged_callBatch.inOrder_eq hwords).symm.trans (List.mergeSort_of_pairwise (by decide))
  have hbatch : apply "f(a: Number)" callBatch = ⟨"g(a: number)", 2, 1⟩ := by
    rw [apply, horder]
    decide
  rcases apply_of_rearranged "f(a: Number)" callBatch callBatchRearranged hwords
    rearranged_callBatch with ⟨happly, -, -, hrules⟩
  rcases hrules rivals ⟨"a.ts"⟩ (.typeScript fun _ => some (.node ⟨"program", none, 0, 6⟩ []))
    "let a;" _ rfl with ⟨violations, hlint, hfirst⟩
  have hchosen : chosen "let a;" (violations.filterMap Violation.fix?) =
      [⟨⟨⟨"a.ts"⟩, 1, 1, 0, 3⟩, "const"⟩] := by
    obtain rfl := Option.some.inj hlint
    rw [chosen, inOrder, List.mergeSort_of_pairwise (by decide)]
    decide
  refine ⟨hwords, rearranged_callBatch, happly.trans hbatch, violations, hlint, hchosen, ?_⟩
  exact hfirst _ (by simp [hchosen])

end Edit
end TypeNameLint
