import TypeNameLint.Path

/-!
# Order — paths are ordered by what they are, not by how they are written

The order of paths is the lexicographic one of their components, and components are ordered by kind
and then by text. So it is total and transitive, and two paths are equal in it exactly if they have
the same components. The main results are `instTransCmpPath` and `compare_eq_eq_iff`.
-/

namespace TypeNameLint
namespace Path

variable {p q : Path}

namespace Component

/-- Components of one kind are ordered by their texts. Kinds without a text of their own have just
one component. -/
theorem compare_eq_compareLex :
    Component.compare = compareLex (compareOn Component.rank) (compareOn Component.text) := by
  funext a b
  -- Components of two kinds are decided by rank; of one kind only names have different texts.
  cases a <;> cases b <;> simp [Component.compare, compareLex, compareOn, rank, text] <;> rfl

instance instTransCmpComponent : Std.TransCmp Component.compare := by
  rw [compare_eq_compareLex]
  infer_instance

instance instLawfulEqCmpComponent : Std.LawfulEqCmp Component.compare where
  compare_self {a} := Std.ReflCmp.compare_self
  eq_of_compare {a b} h := by
    rw [compare_eq_compareLex, compareLex, Ordering.then_eq_eq] at h
    rcases h with ⟨hrank, htext⟩
    have hrank' : a.rank = b.rank := Std.LawfulEqOrd.eq_of_compare hrank
    have htext' : a.text = b.text := Std.LawfulEqOrd.eq_of_compare htext
    cases a <;> cases b <;> simp_all [rank, text]

end Component

theorem compareComponents_eq_compareLex :
    compareComponents = List.compareLex Component.compare := by
  funext as bs
  induction as generalizing bs with
  | nil => cases bs <;> rfl
  | cons a as ih =>
    cases bs with
    | nil => rfl
    | cons b bs => rw [compareComponents, List.compareLex_cons_cons, ih]

theorem compare_eq_compareOn :
    compare = fun p q : Path => List.compareLex Component.compare p.components q.components := by
  funext p q
  rw [compare, compareComponents_eq_compareLex]

instance instTransCmpPath : Std.TransCmp compare where
  eq_swap := by
    intro p q
    rw [compare_eq_compareOn]
    exact Std.OrientedCmp.eq_swap
  isLE_trans := by
    intro p q r hpq hqr
    rw [compare_eq_compareOn] at *
    exact Std.TransCmp.isLE_trans hpq hqr

theorem compare_eq_eq_iff : p.compare q = .eq ↔ p.components = q.components := by
  rw [compare_eq_compareOn]
  exact Std.LawfulEqCmp.compare_eq_iff_eq

theorem isLE_compare_trans {r : Path} (hpq : (p.compare q).isLE = true)
    (hqr : (q.compare r).isLE = true) : (p.compare r).isLE = true :=
  instTransCmpPath.isLE_trans hpq hqr

theorem isLE_compare_total (p q : Path) : (p.compare q).isLE || (q.compare p).isLE := by
  have hswap : q.compare p = (p.compare q).swap := Std.OrientedCmp.eq_swap
  rw [hswap]
  cases p.compare q <;> rfl

end Path
end TypeNameLint
