import Mathlib.Data.List.Forall2

/-!
# Lists — related lists, look-ups in entries, and items that give nothing

Facts about lists that hold whatever the items are. This file defines:

* `Padded`: a list with the items of another one, and more in between;

and relates lists item by item through `List.Forall₂` and `List.filterMap`. The main results are
`exists_of_mem_of_forall₂`, `exists_pairs_of_forall₂` and `Padded.forall₂_filterMap`.
-/

namespace TypeNameLint

/-! ## Related lists -/

theorem exists_of_mem_of_forall₂ {α β : Type} {R : α → β → Prop} {xs : List α} {ys : List β}
    (h : List.Forall₂ R xs ys) : ∀ x ∈ xs, ∃ y ∈ ys, R x y := by
  intro x hx
  induction h with
  | nil => cases hx
  | cons hhead _ ih =>
    rcases List.mem_cons.1 hx with rfl | hx
    · exact ⟨_, by simp, hhead⟩
    · rcases ih hx with ⟨y, hy, hxy⟩
      exact ⟨y, List.mem_cons_of_mem _ hy, hxy⟩

theorem forall₂_congr_left {α β : Type} {R S : α → β → Prop} {xs : List α} {ys : List β}
    (h : ∀ x ∈ xs, ∀ y, R x y ↔ S x y) : List.Forall₂ R xs ys ↔ List.Forall₂ S xs ys := by
  induction xs generalizing ys with
  | nil => rw [List.forall₂_nil_left_iff, List.forall₂_nil_left_iff]
  | cons x xs ih =>
    simp only [List.forall₂_cons_left_iff, h x List.mem_cons_self,
      ih fun z hz => h z (List.mem_cons_of_mem x hz)]

theorem forall₂_filterMap {α β : Type} (f : α → Option β) (xs : List α) :
    List.Forall₂ (fun x y => f x = some y) (xs.filter fun x => (f x).isSome) (xs.filterMap f) := by
  induction xs with
  | nil => exact List.Forall₂.nil
  | cons x xs ih => cases hx : f x <;> simp [hx, ih]

/-- Lists that are related item by item have related results at related items. The items with a
result are listed in pairs. -/
theorem exists_pairs_of_forall₂ {α β γ δ : Type} {R : α → β → Prop} {S : γ → δ → Prop}
    {f : α → Option γ} {g : β → Option δ} {xs : List α} {ys : List β} (h : List.Forall₂ R xs ys)
    (hresults : ∀ x y, R x y →
      (f x = none ∧ g y = none) ∨ ∃ v w, f x = some v ∧ g y = some w ∧ S v w) :
    ∃ pairs : List (α × β), pairs.Sublist (xs.zip ys) ∧
      List.Forall₂ (fun v pair => f pair.1 = some v) (xs.filterMap f) pairs ∧
      List.Forall₂ (fun w pair => g pair.2 = some w) (ys.filterMap g) pairs ∧
      List.Forall₂ S (xs.filterMap f) (ys.filterMap g) := by
  induction h with
  | nil => exact ⟨[], List.Sublist.refl [], .nil, .nil, .nil⟩
  | @cons x y xs ys hhead _ ih =>
    rcases ih with ⟨pairs, hsublist, hleft, hright, hboth⟩
    rcases hresults x y hhead with ⟨hf, hg⟩ | ⟨v, w, hf, hg, hvw⟩
    · rw [List.filterMap_cons_none hf, List.filterMap_cons_none hg]
      exact ⟨pairs, hsublist.cons (x, y), hleft, hright, hboth⟩
    · rw [List.filterMap_cons_some hf, List.filterMap_cons_some hg]
      exact ⟨(x, y) :: pairs, hsublist.cons_cons (x, y), .cons hf hleft, .cons hg hright,
        .cons hvw hboth⟩

/-! ## Padded lists -/

/-- The items of the first list are related in order to items of the second one, and all others of
the second list satisfy `P`. -/
inductive Padded {α β : Type} (R : α → β → Prop) (P : β → Prop) : List α → List β → Prop
  | nil : Padded R P [] []
  | item {x : α} {y : β} {xs : List α} {ys : List β} (head : R x y) (tail : Padded R P xs ys) :
      Padded R P (x :: xs) (y :: ys)
  | extra {y : β} {xs : List α} {ys : List β} (head : P y) (tail : Padded R P xs ys) :
      Padded R P xs (y :: ys)

namespace Padded

variable {α β γ δ : Type} {R : α → β → Prop} {P : β → Prop} {S : γ → δ → Prop}
variable {xs xs' : List α} {ys ys' : List β}

theorem append (h : Padded R P xs ys) (h' : Padded R P xs' ys') :
    Padded R P (xs ++ xs') (ys ++ ys') := by
  induction h with
  | nil => exact h'
  | item head _ ih => exact Padded.item head ih
  | extra head _ ih => exact Padded.extra head ih

theorem exists_of_mem (h : Padded R P xs ys) : ∀ x ∈ xs, ∃ y ∈ ys, R x y := by
  induction h with
  | nil => simp
  | item head _ ih =>
    intro x hx
    rcases List.mem_cons.1 hx with rfl | hx
    · exact ⟨_, List.mem_cons_self, head⟩
    · rcases ih x hx with ⟨y, hy, hxy⟩
      exact ⟨y, List.mem_cons_of_mem _ hy, hxy⟩
  | extra _ _ ih =>
    intro x hx
    rcases ih x hx with ⟨y, hy, hxy⟩
    exact ⟨y, List.mem_cons_of_mem _ hy, hxy⟩

/-- Results at related items are related, if the other items have none. -/
theorem forall₂_filterMap {f : α → Option γ} {g : β → Option δ} (h : Padded R P xs ys)
    (hrelated : ∀ x y, R x y →
      (f x = none ∧ g y = none) ∨ ∃ v w, f x = some v ∧ g y = some w ∧ S v w)
    (hextra : ∀ y, P y → g y = none) :
    List.Forall₂ S (xs.filterMap f) (ys.filterMap g) := by
  induction h with
  | nil => exact List.Forall₂.nil
  | @item x y xs ys head _ ih =>
    rcases hrelated x y head with ⟨hf, hg⟩ | ⟨v, w, hf, hg, hvw⟩
    · rw [List.filterMap_cons_none hf, List.filterMap_cons_none hg]
      exact ih
    · rw [List.filterMap_cons_some hf, List.filterMap_cons_some hg]
      exact List.Forall₂.cons hvw ih
  | extra head _ ih =>
    rw [List.filterMap_cons_none (hextra _ head)]
    exact ih

/-- What the other items do not count for is counted among the related items. -/
theorem countP_eq {p : α → Bool} {q : β → Bool} (h : Padded R P xs ys)
    (hrelated : ∀ x y, R x y → p x = q y) (hextra : ∀ y, P y → q y = false) :
    xs.countP p = ys.countP q := by
  induction h with
  | nil => rfl
  | item head _ ih => rw [List.countP_cons, List.countP_cons, hrelated _ _ head, ih]
  | extra head _ ih =>
    rw [List.countP_cons, hextra _ head, ih]
    rfl

/-- A test that all other items pass is decided by the related items. -/
theorem all_eq {p : α → Bool} {q : β → Bool} (h : Padded R P xs ys)
    (hrelated : ∀ x y, R x y → p x = q y) (hextra : ∀ y, P y → q y = true) :
    xs.all p = ys.all q := by
  have hcount : xs.countP (fun x => !p x) = ys.countP fun y => !q y := by
    refine h.countP_eq ?_ ?_
    · intro x y hxy
      rw [hrelated x y hxy]
    · intro y hy
      rw [hextra y hy]
      rfl
  have hall : (∀ x ∈ xs, p x = true) ↔ ∀ y ∈ ys, q y = true := by
    have hzero := congrArg (· = 0) hcount
    simpa [List.countP_eq_zero] using hzero
  rw [Bool.eq_iff_iff, List.all_eq_true, List.all_eq_true, hall]

end Padded

/-! ## Look-ups -/

theorem isSome_lookup_eq {α β : Type} [BEq α] [LawfulBEq α] (entries : List (α × β)) (a : α) :
    (entries.lookup a).isSome = (entries.map Prod.fst).contains a := by
  induction entries with
  | nil => rfl
  | cons entry entries ih =>
    rcases entry with ⟨key, value⟩
    cases hkey : a == key with
    | true => simp [List.lookup_cons, hkey]
    | false =>
      simp only [List.lookup_cons, List.map_cons, List.contains_cons, hkey, Bool.false_or]
      exact ih

theorem lookup_map_of_eq {α β : Type} [DecidableEq α] [BEq α] [LawfulBEq α]
    (entries : List (α × β)) (a b : α) (value : β) :
    (entries.map fun entry => if entry.1 = a then (a, value) else entry).lookup b =
      if b = a then (entries.lookup a).map fun _ => value else entries.lookup b := by
  induction entries with
  | nil => simp
  | cons entry entries ih =>
    rcases entry with ⟨key, old⟩
    -- The replaced entry keeps its key, so the look-up ends where it ended before.
    by_cases hkey : key = a
    · subst hkey
      by_cases hb : b = key
      · simp [hb]
      · have hne : (b == key) = false := by simpa using hb
        rw [if_neg hb] at ih
        simp [List.lookup_cons, hne, ih, hb]
    · by_cases hb : b = key
      · subst hb
        simp [hkey]
      · have hne : (b == key) = false := by simpa using hb
        have hne' : (a == key) = false := by simpa using Ne.symm hkey
        simp [List.lookup_cons, hkey, hne, hne', ih]

theorem lookup_filter_ne {α β : Type} [DecidableEq α] [BEq α] [LawfulBEq α]
    (entries : List (α × β)) (a b : α) :
    (entries.filter fun entry => entry.1 ≠ a).lookup b =
      if b = a then none else entries.lookup b := by
  induction entries with
  | nil => simp
  | cons entry entries ih =>
    rcases entry with ⟨key, value⟩
    by_cases hkey : key = a
    · subst hkey
      by_cases hb : b = key
      · simpa [hb] using ih
      · have hne : (b == key) = false := by simpa using hb
        simpa [List.lookup_cons, hne] using ih
    · by_cases hb : b = key
      · subst hb
        simp [hkey]
      · have hne : (b == key) = false := by simpa using hb
        simpa [List.lookup_cons, hkey, hne] using ih

/-! ## Items that give nothing -/

theorem flatMap_ite_nil {α β : Type} (p : α → Bool) (f : α → List β) (xs : List α) :
    (xs.flatMap fun x => if p x then [] else f x) = (xs.filter fun x => !p x).flatMap f := by
  induction xs with
  | nil => rfl
  | cons x xs ih => cases hx : p x <;> simp [hx, ih]

end TypeNameLint
