/-!
# Sorting — what a stable sort keeps

A stable sort puts elements in order and leaves ties as they were. So it does not matter whether
some elements are left out before or after, and a sorted list is told by its elements and the order
of its ties. The main results are `filter_mergeSort` and `eq_of_pairwise_of_filter_eq`.
-/

namespace TypeNameLint

variable {α : Type} {le : α → α → Bool} {xs ys : List α}

/-! ## Leaving out -/

/-- A list is split in one way into a part with a property and a part without it. -/
theorem append_inj_of_forall {q : α → Bool} {as bs cs ds : List α} (h : as ++ bs = cs ++ ds)
    (has : ∀ a ∈ as, q a = true) (hbs : ∀ b ∈ bs, q b = false) (hcs : ∀ c ∈ cs, q c = true)
    (hds : ∀ d ∈ ds, q d = false) : as = cs ∧ bs = ds := by
  have hfirst : ∀ {xs ys : List α}, (∀ x ∈ xs, q x = true) → (∀ y ∈ ys, q y = false) →
      (xs ++ ys).filter q = xs := by
    intro xs ys hxs hys
    have hnil : ys.filter q = [] := List.filter_eq_nil_iff.2 fun y hy => by simp [hys y hy]
    rw [List.filter_append, List.filter_eq_self.2 hxs, hnil, List.append_nil]
  have has' : as = cs := by rw [← hfirst has hbs, h, hfirst hcs hds]
  subst has'
  exact ⟨rfl, List.append_cancel_left h⟩

/-- Leaving out elements before a stable sort or after it comes to the same. -/
theorem filter_mergeSort (p : α → Bool) (htrans : ∀ a b c, le a b → le b c → le a c)
    (htotal : ∀ a b, le a b || le b a) (xs : List α) :
    (xs.mergeSort le).filter p = (xs.filter p).mergeSort le := by
  induction xs with
  | nil => simp
  | cons x xs ih =>
    rcases List.mergeSort_cons htrans htotal x xs with ⟨front, back, hsorted, hrest, hfront⟩
    rw [hrest, List.filter_append] at ih
    cases hx : p x with
    | false => rw [hsorted, List.filter_append, List.filter_cons_of_neg (by simp [hx]),
        List.filter_cons_of_neg (by simp [hx]), ih]
    | true =>
      rw [List.filter_cons_of_pos hx]
      rcases List.mergeSort_cons htrans htotal x (xs.filter p) with
        ⟨front', back', hsorted', hrest', hfront'⟩
      -- An element goes behind the smaller ones and in front of all others.
      have hback : ∀ y ∈ back, le x y = true := by
        have hpairwise := List.pairwise_mergeSort htrans htotal (x :: xs)
        rw [hsorted] at hpairwise
        exact (List.pairwise_cons.1 (List.pairwise_append.1 hpairwise).2.1).1
      have hback' : ∀ y ∈ back', le x y = true := by
        have hpairwise := List.pairwise_mergeSort htrans htotal (x :: xs.filter p)
        rw [hsorted'] at hpairwise
        exact (List.pairwise_cons.1 (List.pairwise_append.1 hpairwise).2.1).1
      rcases @append_inj_of_forall α (fun y => !le x y) _ _ _ _ (ih.trans hrest')
        (fun y hy => hfront y (List.mem_filter.1 hy).1)
        (fun y hy => by simp [hback y (List.mem_filter.1 hy).1]) hfront'
        (fun y hy => by simp [hback' y hy]) with ⟨hfronts, hbacks⟩
      rw [hsorted, hsorted', List.filter_append, List.filter_cons_of_pos hx, hfronts, hbacks]

/-! ## Ties -/

/-- Two elements that precede each other. -/
def tie (le : α → α → Bool) (a b : α) : Bool := le a b && le b a

theorem tie_self (htotal : ∀ a b, le a b || le b a) (a : α) : tie le a a = true := by
  simpa [tie] using htotal a a

/-- The first elements of two sorted lists of the same elements tie. -/
theorem tie_of_perm_cons {a b : α} (htotal : ∀ a b, le a b || le b a)
    (hxs : (a :: xs).Pairwise fun a b => le a b = true)
    (hys : (b :: ys).Pairwise fun a b => le a b = true) (hperm : (a :: xs).Perm (b :: ys)) :
    tie le a b = true := by
  have hfirst : ∀ {c : α} {zs : List α}, (c :: zs).Pairwise (fun a b => le a b = true) →
      ∀ d ∈ c :: zs, le c d = true := by
    intro c zs hzs d hd
    rcases List.mem_cons.1 hd with rfl | hd
    · simpa using htotal d d
    · exact List.rel_of_pairwise_cons hzs hd
  have hab : le a b = true := hfirst hxs b (hperm.mem_iff.2 List.mem_cons_self)
  have hba : le b a = true := hfirst hys a (hperm.mem_iff.1 List.mem_cons_self)
  simp [tie, hab, hba]

/-- Two sorted lists of the same elements are one if they agree on the order of all ties: the first
element of either list is the first of those that tie with it. -/
theorem eq_of_pairwise_of_filter_eq (htotal : ∀ a b, le a b || le b a)
    (hxs : xs.Pairwise fun a b => le a b = true) (hys : ys.Pairwise fun a b => le a b = true)
    (hperm : xs.Perm ys) (hties : ∀ a ∈ xs, xs.filter (tie le a) = ys.filter (tie le a)) :
    xs = ys := by
  induction xs generalizing ys with
  | nil => exact hperm.nil_eq
  | cons a xs ih =>
    cases ys with
    | nil => exact absurd hperm.symm (List.not_perm_nil_cons a xs)
    | cons b ys =>
      have hfirst : a = b := by
        have htie := hties a List.mem_cons_self
        rw [List.filter_cons_of_pos (tie_self htotal a),
          List.filter_cons_of_pos (tie_of_perm_cons htotal hxs hys hperm)] at htie
        exact (List.cons.inj htie).1
      subst hfirst
      have hrest : ∀ c ∈ xs, xs.filter (tie le c) = ys.filter (tie le c) := by
        intro c hmem
        have hc := hties c (List.mem_cons_of_mem a hmem)
        rw [List.filter_cons, List.filter_cons] at hc
        split at hc
        · exact (List.cons.inj hc).2
        · exact hc
      rw [ih hxs.of_cons hys.of_cons hperm.cons_inv hrest]

end TypeNameLint
