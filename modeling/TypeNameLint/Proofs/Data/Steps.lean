import Mathlib.Data.List.Forall2

/-!
# Steps — sequences of steps that can fail

A sequence of steps comes to a result exactly if each of its steps does. The main results are
`bind_eq_ok_iff` for two steps, and `foldlM_concat_eq_ok_iff` and `mapM_eq_ok_iff` for lists.
-/

namespace TypeNameLint

theorem bind_eq_ok_iff {α β ε : Type} {x : Except ε α} {f : α → Except ε β} {b : β} :
    (x >>= f) = .ok b ↔ ∃ a, x = .ok a ∧ f a = .ok b := by
  cases x with
  | error fault =>
    constructor
    · intro h
      cases h
    · rintro ⟨a, ha, -⟩
      cases ha
  | ok a => simp [bind, Except.bind]

theorem map_eq_ok_iff {α β ε : Type} {x : Except ε α} {f : α → β} {b : β} :
    x.map f = .ok b ↔ ∃ a, x = .ok a ∧ f a = b := by
  cases x <;> simp [Except.map]

theorem foldlM_concat_eq_ok_iff {α β ε : Type} {f : β → α → Except ε β} {init c : β} {xs : List α}
    {x : α} :
    (xs ++ [x]).foldlM f init = .ok c ↔
      ∃ b, xs.foldlM f init = .ok b ∧ f b x = .ok c := by
  simp only [List.foldlM_append, List.foldlM_cons, List.foldlM_nil, bind_eq_ok_iff, pure,
    Except.pure, Except.ok.injEq, exists_eq_right]

/-- What every step keeps holds in the end. -/
theorem foldlM_preserves {α β : Type} {P : β → Prop} {f : β → α → Option β} {xs : List α}
    (hstep : ∀ b x, x ∈ xs → ∀ c, P b → f b x = some c → P c) {init last : β} (hinit : P init)
    (h : xs.foldlM f init = some last) : P last := by
  induction xs generalizing init with
  | nil =>
    obtain rfl : init = last := Option.some.inj h
    exact hinit
  | cons x xs ih =>
    rw [List.foldlM_cons] at h
    rcases Option.bind_eq_some_iff.1 h with ⟨next, hnext, hrest⟩
    exact ih (fun b y hy => hstep b y (List.mem_cons_of_mem x hy))
      (hstep init x List.mem_cons_self next hinit hnext) hrest

theorem mapM_eq_ok_iff {α β ε : Type} {f : α → Except ε β} {xs : List α} {ys : List β} :
    xs.mapM f = .ok ys ↔ List.Forall₂ (fun x y => f x = .ok y) xs ys := by
  induction xs generalizing ys with
  | nil => cases ys <;> simp [pure, Except.pure]
  | cons x xs ih =>
    rw [List.mapM_cons, bind_eq_ok_iff, List.forall₂_cons_left_iff]
    simp only [bind_eq_ok_iff, ih, pure, Except.pure, Except.ok.injEq, exists_and_left,
      @eq_comm _ ys]

end TypeNameLint
