import TypeNameLint.Analysis.Run
import TypeNameLint.Proofs.Data.Sorting
import TypeNameLint.Proofs.Path.Order

/-!
# Order — violations in the order of reports

Violations are ordered by where they are, and sorting them is stable. So it does not matter whether
some are left out before or after. The main result is `filter_inOrder`.
-/

namespace TypeNameLint

/-! ## Violations -/

namespace Location

theorem compare_eq_compareLex :
    compare = compareLex (compareLex (fun a b => a.file.compare b.file) (compareOn line))
      (compareOn column) := by
  funext a b
  rfl

instance instTransCmpFile : Std.TransCmp fun a b : Location => a.file.compare b.file where
  eq_swap := Path.instTransCmpPath.eq_swap
  isLE_trans := Path.instTransCmpPath.isLE_trans

instance instTransCmpLocation : Std.TransCmp compare := by
  rw [compare_eq_compareLex]
  infer_instance

theorem isLE_compare_trans {a b c : Location} (hab : (a.compare b).isLE = true)
    (hbc : (b.compare c).isLE = true) : (a.compare c).isLE = true :=
  instTransCmpLocation.isLE_trans hab hbc

theorem isLE_compare_total (a b : Location) : (a.compare b).isLE || (b.compare a).isLE := by
  have hswap : b.compare a = (a.compare b).swap := instTransCmpLocation.eq_swap
  rw [hswap]
  cases a.compare b <;> rfl

end Location

theorem filter_inOrder (p : Violation → Bool) (violations : List Violation) :
    (inOrder violations).filter p = inOrder (violations.filter p) := by
  refine filter_mergeSort p ?_ ?_ violations
  · exact fun a b c hab hbc => Location.isLE_compare_trans hab hbc
  · exact fun a b => a.location.isLE_compare_total b.location

theorem pairwise_inOrder (violations : List Violation) :
    (inOrder violations).Pairwise fun a b => (a.location.compare b.location).isLE = true := by
  refine List.pairwise_mergeSort ?_ ?_ violations
  · exact fun a b c hab hbc => Location.isLE_compare_trans hab hbc
  · exact fun a b => a.location.isLE_compare_total b.location

theorem inOrder_of_pairwise {violations : List Violation}
    (h : violations.Pairwise fun a b => (a.location.compare b.location).isLE = true) :
    inOrder violations = violations :=
  List.mergeSort_of_pairwise h

/-- A result whose violations are in order is reported as it is. -/
theorem Analysis.sorted_of_pairwise {result : LintResult}
    (h : result.violations.Pairwise fun a b => (a.location.compare b.location).isLE = true) :
    sorted result = result := by
  rw [sorted, inOrder_of_pairwise h]

end TypeNameLint
