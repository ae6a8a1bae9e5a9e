import TypeNameLint.Proofs.Path.Steps

/-!
# Reported — reported paths lead back to their files

A reported path is what is left of a path below a base, or the path itself elsewhere. Joined to the
base again it has the components of the path, since what is left starts with neither the root nor a
current directory. The text may be another one: slashes at the end, and what stands for no component
between the base and what is left, do not come back.

The main results are `components_join_reportedFrom` and `exists_concat_pieces_reportedFrom`.
-/

namespace TypeNameLint
namespace Path

variable {p q base : Path} {more : List Component}

/-! ## Paths below a base and elsewhere -/

theorem steps_of_components_eq_append (hbase : base.isAbsolute = true) (hp : p.isAbsolute = true)
    (h : p.components = base.components ++ more) : p.steps = base.steps ++ more := by
  rw [components_of_isAbsolute hbase, components_of_isAbsolute hp, List.cons_append] at h
  exact (List.cons.inj h).2

/-- What is left of an absolute path below a base is relative, and is told by its steps. -/
theorem steps_reportedFrom (hbase : base.isAbsolute = true) (hp : p.isAbsolute = true)
    (h : p.components = base.components ++ more) :
    (base.reportedFrom p).isAbsolute = false ∧ (base.reportedFrom p).steps = more := by
  have hcomponents : (base.reportedFrom p).components = more :=
    components_reportedFrom (text_ne_empty_of_isAbsolute hbase) h
  have hmem : ∀ step ∈ more, step ∈ p.steps := by
    intro step hstep
    rw [steps_of_components_eq_append hbase hp h]
    exact List.mem_append_right _ hstep
  -- What is left begins with a step, and neither the root nor a current directory is one.
  have hrelative : (base.reportedFrom p).isAbsolute = false := by
    cases habsolute : (base.reportedFrom p).isAbsolute with
    | false => rfl
    | true =>
      rw [components_of_isAbsolute habsolute] at hcomponents
      exact absurd (hmem .root (hcomponents ▸ List.mem_cons_self)) (root_not_mem_steps p)
  refine ⟨hrelative, ?_⟩
  rcases components_of_relative hrelative with hsame | hfront
  · exact hsame.symm.trans hcomponents
  · rw [hfront] at hcomponents
    exact absurd (hmem .current (hcomponents ▸ List.mem_cons_self)) (current_not_mem_steps p)

theorem reportedFrom_elsewhere (h : ¬ base.components <+: p.components) :
    base.reportedFrom p = p := by
  have hnone : p.relativeTo? base = none := by
    rw [relativeTo?, if_neg (by simpa using h)]
  rw [reportedFrom, hnone, Option.getD_none]

theorem join_of_isAbsolute (hq : q.isAbsolute = true) : base.join q = q := by
  rw [join, if_pos hq]

/-! ## The way back -/

/-- The path that is reported for an absolute path has its components when it is taken from the base
again. -/
theorem components_join_reportedFrom (hbase : base.isAbsolute = true) (hp : p.isAbsolute = true) :
    (base.join (base.reportedFrom p)).components = p.components := by
  by_cases hbelow : base.components <+: p.components
  · rcases hbelow with ⟨more, hmore⟩
    rcases steps_reportedFrom hbase hp hmore.symm with ⟨hrelative, hsteps⟩
    calc
      (base.join (base.reportedFrom p)).components
          = .root :: (base.join (base.reportedFrom p)).steps :=
            components_of_isAbsolute (isAbsolute_join_of_isAbsolute hbase _)
      _ = .root :: (base.steps ++ more) := by
            rw [steps_join_of_relative (text_ne_empty_of_isAbsolute hbase) hrelative, hsteps]
      _ = base.components ++ more := by
            rw [components_of_isAbsolute hbase, List.cons_append]
      _ = p.components := hmore
  · rw [reportedFrom_elsewhere hbelow, join_of_isAbsolute hp]

/-- So paths with the same report have the same components. -/
theorem components_eq_of_reportedFrom_eq (hbase : base.isAbsolute = true)
    (hp : p.isAbsolute = true) (hq : q.isAbsolute = true)
    (h : base.reportedFrom p = base.reportedFrom q) : p.components = q.components :=
  calc
    p.components = (base.join (base.reportedFrom p)).components :=
      (components_join_reportedFrom hbase hp).symm
    _ = (base.join (base.reportedFrom q)).components := by rw [h]
    _ = q.components := components_join_reportedFrom hbase hq

/-- What is left of a path with more components than its base ends with the piece of one: nothing
stands behind the last name that would need a directory there. -/
theorem exists_concat_pieces_reportedFrom (hbase : base.isAbsolute = true)
    (hp : p.isAbsolute = true) (h : p.components = base.components ++ more) (hmore : more ≠ []) :
    ∃ front last, (base.reportedFrom p).pieces = front ++ [last] ∧ isIdle last = false := by
  rcases relativeTo?_eq_some (text_ne_empty_of_isAbsolute hbase) h with ⟨n, -, hrelative⟩
  rcases exists_pieces_of_isAbsolute hp with ⟨piece, rest, hpieces⟩
  have hreported : base.reportedFrom p =
      ofPieces (trimPieces (dropComponents n (piece :: rest))) := by
    rw [reportedFrom, hrelative, Option.getD_some]
    simp only [afterComponents, hpieces]
  have hne : trimPieces (dropComponents n (piece :: rest)) ≠ [] := by
    intro hnil
    have hcomponents := components_reportedFrom (text_ne_empty_of_isAbsolute hbase) h
    rw [hreported, hnil] at hcomponents
    exact hmore hcomponents.symm
  have hslash : ∀ other ∈ trimPieces (dropComponents n (piece :: rest)), '/' ∉ other := by
    intro other hother
    have hstart := trimPieces_prefix (dropComponents n (piece :: rest))
    have hend := dropComponents_suffix n (piece :: rest)
    have hmem : other ∈ p.pieces := by
      rw [hpieces]
      exact List.mem_cons_of_mem _ (hend.subset (hstart.subset hother))
    exact Text.not_mem_of_mem_splitOn hmem
  rcases exists_concat_trimPieces hne with ⟨front, last, hlast, hbusy⟩
  refine ⟨front, last, ?_, hbusy⟩
  rw [hreported, pieces, ofPieces, String.toList_ofList, Text.splitOn_joinWith hne hslash, hlast]

end Path
end TypeNameLint
