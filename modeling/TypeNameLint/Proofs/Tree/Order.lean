import TypeNameLint.Proofs.Report.Order
import TypeNameLint.Proofs.Tree.Places

/-!
# Order — document order is the order of reports

In document order a node comes before its children and before the siblings to its right, so no node
starts before an earlier one. Rows and columns grow with offsets. The main results are
`WellFormed.pairwise_start` and `WellFormed.pairwise_locationOf`.
-/

namespace TypeNameLint
namespace Tree

variable {source : List Char} {t inner : Tree} {label : Label} {children : List Tree}

/-! ## Starts -/

theorem forestPreorder_eq_flatMap (ts : List Tree) : forestPreorder ts = ts.flatMap preorder := by
  induction ts with
  | nil => rfl
  | cons t ts ih => rw [forestPreorder, ih, List.flatMap_cons]

theorem preorder_node (label : Label) (children : List Tree) :
    (node label children).preorder = node label children :: children.flatMap preorder := by
  rw [preorder, forestPreorder_eq_flatMap]

theorem self_mem_preorder (t : Tree) : t ∈ t.preorder := by
  rcases t with ⟨label, children⟩
  rw [preorder_node]
  exact List.mem_cons_self

/-- A child of a tree of a source is one as well. -/
theorem WellFormed.of_mem_children (h : (node label children).WellFormed source)
    (hinner : inner ∈ children) : inner.WellFormed source := by
  have hsub : ∀ s ∈ inner.preorder, s ∈ (node label children).preorder := by
    intro s hs
    rw [preorder_node]
    exact List.mem_cons_of_mem _ (List.mem_flatMap.2 ⟨inner, hinner, hs⟩)
  exact ⟨fun s hs => h.span s (hsub s hs), fun s hs => h.word s (hsub s hs),
    fun s hs => h.inside s (hsub s hs), fun s hs => h.inOrder s (hsub s hs)⟩

/-- All nodes of a tree lie inside the top. -/
theorem WellFormed.within :
    ∀ {t : Tree}, t.WellFormed source → ∀ s ∈ t.preorder,
      t.label.start ≤ s.label.start ∧ s.label.stop ≤ t.label.stop
  | node label children, h, s, hs => by
    rw [preorder_node] at hs
    rcases List.mem_cons.1 hs with rfl | hs
    · exact ⟨Nat.le_refl _, Nat.le_refl _⟩
    · rcases List.mem_flatMap.1 hs with ⟨inner, hinner, hs⟩
      have hinside := h.inside _ (self_mem_preorder _) inner hinner
      have hbelow := (h.of_mem_children hinner).within s hs
      exact ⟨Nat.le_trans hinside.1 hbelow.1, Nat.le_trans hbelow.2 hinside.2⟩

theorem WellFormed.start_le_stop (h : t.WellFormed source) (hinner : inner ∈ t.preorder) :
    inner.label.start ≤ inner.label.stop := by
  rcases h.span inner hinner with ⟨before, text, after, -, -, hstop⟩
  omega

/-- In document order no node starts before an earlier one. -/
theorem WellFormed.pairwise_start :
    ∀ {t : Tree}, t.WellFormed source →
      t.preorder.Pairwise fun a b => a.label.start ≤ b.label.start
  | node label children, h => by
    have htop := self_mem_preorder (node label children)
    rw [preorder_node, List.pairwise_cons, List.pairwise_flatMap]
    refine ⟨fun s hs => ?_, fun inner hinner => ?_, ?_⟩
    · exact (h.within s (preorder_node label children ▸ List.mem_cons_of_mem _ hs)).1
    · exact (h.of_mem_children hinner).pairwise_start
    -- The nodes of one child end before the next child starts.
    · refine (h.inOrder _ htop).imp_of_mem ?_
      intro a b ha hb hab s hs r hr
      have hspan := (h.of_mem_children ha).start_le_stop hs
      have hleft := ((h.of_mem_children ha).within s hs).2
      have hright := ((h.of_mem_children hb).within r hr).1
      omega

/-! ## Locations -/

/-- In one file the locations of nodes are ordered as the nodes start. -/
theorem isLE_compare_locationOf (file : Path) {a b : Label} (h : a.start ≤ b.start) :
    ((locationOf file source a).compare (locationOf file source b)).isLE = true := by
  have hfile : file.compare file = .eq := Path.compare_eq_eq_iff.2 rfl
  have hposition := @Text.positionFrom_mono ⟨0, 0⟩ _ _ source h
  simp only [Location.compare, locationOf, hfile, Text.positionAt]
  rcases hposition with hrow | ⟨hrow, hcolumn⟩
  · have hline := Nat.compare_eq_lt.2 (Nat.succ_lt_succ hrow)
    rw [hline]
    rfl
  · rw [hrow]
    simpa [Nat.isLE_compare] using hcolumn

/-- Going through the places of a tree in document order never goes back in the order of reports. -/
theorem WellFormed.pairwise_locationOf (h : t.WellFormed source) (file : Path) :
    t.places.Pairwise fun a b =>
      ((locationOf file source a.focus.label).compare
        (locationOf file source b.focus.label)).isLE = true := by
  have hstarts : (t.places.map Cursor.focus).Pairwise fun a b => a.label.start ≤ b.label.start := by
    rw [map_focus_places]
    exact h.pairwise_start
  exact (List.pairwise_map.1 hstarts).imp fun hab => isLE_compare_locationOf file hab

end Tree
end TypeNameLint
