import TypeNameLint.Proofs.Data.Sorting
import TypeNameLint.Proofs.Edit.Splice
import Mathlib.Tactic.ByContra

/-!
# Words — spans whose ends wrap around

Offsets and lengths are machine words, and so is the end of a span: that of a long one wraps around
to a small number. Such a span looks short and is sorted in front of others, but it ends before it
starts, which no text does. So it is left out like all spans that end behind the source, and makes
no difference to the others. This file defines:

* `InWords`: the replacements that there are on a machine;
* `Overruns`: replacements whose true ends lie behind the source;
* `chosen`: the replacements of a batch that are applied.

The main result is `apply_without_overruns`.
-/

namespace TypeNameLint
namespace Edit

open Text

variable {source : List Char} {rs : List Replacement} {r : Replacement} {keep : Replacement → Bool}

/-! ## Ends that wrap around -/

/-- A replacement whose offset and length are machine words. Their sum need not be one. -/
structure InWords (r : Replacement) : Prop where
  offset_lt : r.location.offset < Location.wordSize
  length_lt : r.location.length < Location.wordSize

instance : DecidablePred InWords := fun r =>
  decidable_of_iff (r.location.offset < Location.wordSize ∧ r.location.length < Location.wordSize)
    ⟨fun h => ⟨h.1, h.2⟩, fun h => ⟨h.1, h.2⟩⟩

/-- The true end of the span lies behind the source. -/
def Overruns (source : List Char) (r : Replacement) : Prop :=
  byteLength source < stopOf r

instance (source : List Char) : DecidablePred (Overruns source) := fun r =>
  inferInstanceAs (Decidable (byteLength source < stopOf r))

/-- A sum of two words wraps around at most once, and then it is less than each of them. -/
theorem InWords.stop_lt_offset (h : InWords r) (hwraps : ¬ FitsWord r) :
    r.location.stop < r.location.offset := by
  have hlength := h.length_lt
  have hoffset := h.offset_lt
  rw [FitsWord, stopOf, Nat.not_lt] at hwraps
  have hstop : r.location.stop = r.location.offset + r.location.length - Location.wordSize := by
    rw [Location.stop, Nat.mod_eq_sub_mod hwraps]
    exact Nat.mod_eq_of_lt (by omega)
  omega

/-- What fits the source has not wrapped around. -/
theorem InWords.fitsWord_of_fits (h : InWords r) (hfits : fits source r = true) : FitsWord r := by
  by_contra hwraps
  exact absurd (offset_le_stop_of_fits hfits) (Nat.not_le.2 (h.stop_lt_offset hwraps))

theorem stopOf_le_of_liesInside (h : LiesInside source r) : stopOf r ≤ byteLength source := by
  rcases h with ⟨before, text, after, rfl, hoffset, hstop⟩
  simp only [byteLength_append]
  omega

/-- A span that ends behind the source does not fit it, whether its end wraps around or not. -/
theorem InWords.fits_eq_false (h : InWords r) (hover : Overruns source r) :
    fits source r = false := by
  by_contra hfits
  rw [Bool.not_eq_false] at hfits
  have hinside : LiesInside source r := (fits_iff (h.fitsWord_of_fits hfits)).1 hfits
  exact absurd (stopOf_le_of_liesInside hinside) (Nat.not_le.2 hover)

/-! ## Leaving out what does not fit -/

/-- Leaving out replacements before they are ordered or after it comes to the same. -/
theorem filter_inOrder (keep : Replacement → Bool) (rs : List Replacement) :
    (inOrder rs).filter keep = inOrder (rs.filter keep) :=
  filter_mergeSort keep precedes_trans precedes_total rs

/-- What does not fit moves no end, so the selection passes it without a trace. -/
theorem select_filter (h : ∀ r ∈ rs, keep r = false → fits source r = false)
    (lastEnd : Option Nat) :
    select source lastEnd (rs.filter keep) = select source lastEnd rs := by
  induction rs generalizing lastEnd with
  | nil => rfl
  | cons r rest ih =>
    have hrest := ih fun s hs => h s (List.mem_cons_of_mem r hs)
    cases hkeep : keep r with
    | false =>
      have hfits : fits source r = false := h r List.mem_cons_self hkeep
      rw [List.filter_cons_of_neg (by simp [hkeep]), select, if_pos (by simp [hfits])]
      exact hrest lastEnd
    | true =>
      rw [List.filter_cons_of_pos hkeep, select, select]
      split
      · exact hrest lastEnd
      · exact congrArg (r :: ·) (hrest _)

/-- The replacements of a batch that are applied, in their order. -/
def chosen (source : String) (rs : List Replacement) : List Replacement :=
  select source.toList none (inOrder rs)

theorem applied_eq_length_chosen (source : String) (rs : List Replacement) :
    (apply source rs).applied = (chosen source rs).length := rfl

theorem chosen_filter {source : String}
    (h : ∀ r ∈ rs, keep r = false → fits source.toList r = false) :
    chosen source (rs.filter keep) = chosen source rs := by
  rw [chosen, ← filter_inOrder]
  exact select_filter (fun r hr => h r ((inOrder_perm rs).mem_iff.1 hr)) none

/-- Replacements that do not fit only add to the number of those left out. -/
theorem apply_filter {source : String}
    (h : ∀ r ∈ rs, keep r = false → fits source.toList r = false) :
    (apply source rs).output = (apply source (rs.filter keep)).output ∧
      (apply source rs).applied = (apply source (rs.filter keep)).applied ∧
      (apply source rs).skipped =
        (apply source (rs.filter keep)).skipped + rs.countP fun r => !keep r := by
  have hchosen := chosen_filter h
  have happlied : (apply source rs).applied = (apply source (rs.filter keep)).applied := by
    rw [applied_eq_length_chosen, applied_eq_length_chosen, hchosen]
  refine ⟨?_, happlied, ?_⟩
  · show String.ofList (assemble _ 0 (chosen source rs)) =
      String.ofList (assemble _ 0 (chosen source (rs.filter keep)))
    rw [hchosen]
  · have hall := applied_add_skipped source rs
    have hkept := applied_add_skipped source (rs.filter keep)
    have hlength : rs.length = (rs.filter keep).length + rs.countP fun r => !keep r := by
      rw [← List.countP_eq_length_filter]
      simpa using @List.length_eq_countP_add_countP _ keep rs
    omega

/-- Every slice that the output is put together from can be cut, whatever the spans are. -/
theorem assemble?_chosen (source : String) (hwords : ∀ r ∈ rs, InWords r) :
    assemble? source.toList 0 (chosen source rs) = some (apply source rs).output.toList := by
  have hleft : ∀ r ∈ rs, fits source.toList r = false → fits source.toList r = false :=
    fun _ _ h => h
  -- What is applied fits, and among the replacements that fit no end wraps around.
  have hfits : ∀ r ∈ rs.filter (fits source.toList), FitsWord r := by
    intro r hr
    rcases List.mem_filter.1 hr with ⟨hr, hfits⟩
    exact (hwords r hr).fitsWord_of_fits hfits
  have hassemble := (rewrites_output source _ hfits).2
  rwa [← chosen, chosen_filter hleft, ← (apply_filter hleft).1] at hassemble

/-! ## Spans that end behind the source -/

/-- A batch of replacements with any words as offsets and lengths. Every slice on the way can be
cut, and what truly ends behind the source is left out without a difference to the others. -/
theorem apply_without_overruns (source : String) (rs : List Replacement)
    (hwords : ∀ r ∈ rs, InWords r) :
    assemble? source.toList 0 (chosen source rs) = some (apply source rs).output.toList ∧
      (apply source rs).applied = (chosen source rs).length ∧
      (∀ r ∈ chosen source rs, ¬ Overruns source.toList r) ∧
      (apply source rs).output =
        (apply source (rs.filter fun r => ¬ Overruns source.toList r)).output ∧
      (apply source rs).applied =
        (apply source (rs.filter fun r => ¬ Overruns source.toList r)).applied ∧
      (apply source rs).skipped =
        (apply source (rs.filter fun r => ¬ Overruns source.toList r)).skipped +
          rs.countP fun r => Overruns source.toList r := by
  have hover : ∀ r ∈ rs, decide (¬ Overruns source.toList r) = false →
      fits source.toList r = false := by
    intro r hr hkeep
    refine (hwords r hr).fits_eq_false ?_
    simpa using hkeep
  rcases apply_filter hover with ⟨houtput, happlied, hskipped⟩
  refine ⟨assemble?_chosen source hwords, rfl, ?_, houtput, happlied, ?_⟩
  · intro r hr hoverruns
    have hmem : r ∈ rs := (inOrder_perm rs).mem_iff.1 ((select_sublist none _).subset hr)
    have hfits : fits source.toList r = true := fits_of_mem_select hr
    rw [(hwords r hmem).fits_eq_false hoverruns] at hfits
    cases hfits
  · simpa using hskipped

/-- The end of the span with the text `Y` wraps around to 2, so it is sorted in front of the one
with `X`, which starts where it does. The span with `Z` is just too long. -/
def wrappingBatch : List Replacement :=
  [overwriting 4 1 "X", overwriting 4 (Location.wordSize - 2) "Y", overwriting 2 9 "Z",
    overwriting 0 1 "W"]

theorem apply_wrappingBatch :
    (∀ r ∈ wrappingBatch, InWords r) ∧
      (inOrder wrappingBatch).map Replacement.newText = ["W", "Z", "Y", "X"] ∧
      (apply "abcdef" wrappingBatch).output = "WbcdXf" ∧
      (apply "abcdef" wrappingBatch).applied = 2 ∧ (apply "abcdef" wrappingBatch).skipped = 2 := by
  have hwords : ∀ r ∈ wrappingBatch, InWords r := by decide
  have hkept : wrappingBatch.filter (fun r => ¬ Overruns "abcdef".toList r) =
      [overwriting 4 1 "X", overwriting 0 1 "W"] := by decide
  have hcount : wrappingBatch.countP (fun r => Overruns "abcdef".toList r) = 2 := by decide
  have hpair : inOrder [overwriting 4 1 "X", overwriting 0 1 "W"] =
      [overwriting 0 1 "W", overwriting 4 1 "X"] :=
    inOrder_eq_of_perm (by decide) (by decide) (by decide)
  have happly : apply "abcdef" [overwriting 4 1 "X", overwriting 0 1 "W"] = ⟨"WbcdXf", 2, 0⟩ := by
    rw [apply, hpair]
    decide
  have hbatch : inOrder wrappingBatch = [overwriting 0 1 "W", overwriting 2 9 "Z",
      overwriting 4 (Location.wordSize - 2) "Y", overwriting 4 1 "X"] :=
    inOrder_eq_of_perm (by decide) (by decide) (by decide)
  have horder : (inOrder wrappingBatch).map Replacement.newText = ["W", "Z", "Y", "X"] := by
    rw [hbatch]
    rfl
  rcases apply_without_overruns "abcdef" wrappingBatch hwords with
    ⟨-, -, -, houtput, happlied, hskipped⟩
  rw [hkept, happly] at houtput happlied hskipped
  rw [hcount] at hskipped
  exact ⟨hwords, horder, houtput, happlied, hskipped⟩

end Edit
end TypeNameLint
