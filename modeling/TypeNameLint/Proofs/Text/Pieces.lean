import TypeNameLint.Text.Lines

/-!
# Pieces — splitting a text and joining it again

* `splitOn_append_cons`: a separator splits a text into two whose pieces are those of the whole;
* `splitOn_append`: without a separator between them two texts have one piece in common;
* `not_mem_of_mem_splitOn`: no piece has the separator in it;
* `splitOn_joinWith`: pieces without separators are what their joined text is split into;
* `joinWith_splitOn`: the pieces of a text, joined, are the text.
-/

namespace TypeNameLint
namespace Text

variable {sep : Char} {cs piece : List Char}

theorem splitOn_of_not_mem : sep ∉ cs → splitOn sep cs = [cs] := by
  intro h
  induction cs with
  | nil => rfl
  | cons c cs ih =>
    have hc : c ≠ sep := fun heq => h (by simp [heq])
    have hcs : sep ∉ cs := fun hmem => h (List.mem_cons_of_mem c hmem)
    simp [splitOn, hc, ih hcs]

/-- Every separator makes one more piece. -/
theorem length_splitOn_le (sep : Char) (cs : List Char) :
    (splitOn sep cs).length ≤ cs.length + 1 := by
  induction cs with
  | nil => simp [splitOn]
  | cons c cs ih =>
    rcases List.exists_cons_of_ne_nil (splitOn_ne_nil sep cs) with ⟨piece, pieces, hpieces⟩
    rw [hpieces] at ih
    simp only [splitOn, hpieces]
    split <;> simp at * <;> omega

theorem length_splitOn (sep : Char) (cs : List Char) :
    (splitOn sep cs).length = cs.count sep + 1 := by
  induction cs with
  | nil => rfl
  | cons c cs ih =>
    rcases List.exists_cons_of_ne_nil (splitOn_ne_nil sep cs) with ⟨piece, pieces, hpieces⟩
    rw [hpieces] at ih
    by_cases hc : c = sep
    · simp [splitOn, hc, hpieces, ih]
    · simpa [splitOn, hc, hpieces] using ih

theorem splitOn_append_cons (sep : Char) (before after : List Char) :
    splitOn sep (before ++ sep :: after) = splitOn sep before ++ splitOn sep after := by
  induction before with
  | nil => simp [splitOn]
  | cons c before ih =>
    by_cases hc : c = sep
    · simp [splitOn, hc, ih]
    -- The character goes to the first piece, which the split of the rest has.
    · rcases List.exists_cons_of_ne_nil (splitOn_ne_nil sep before) with ⟨piece, pieces, hpieces⟩
      simp [splitOn, hc, ih, hpieces]

/-- The last piece of a text and the first of the next one are one piece of both together. -/
theorem splitOn_append {before after : List (List Char)} {front back x y : List Char}
    (hfront : splitOn sep front = before ++ [x]) (hback : splitOn sep back = y :: after) :
    splitOn sep (front ++ back) = before ++ (x ++ y) :: after := by
  induction front generalizing before x with
  | nil =>
    have hsingle : before ++ [x] = [] ++ [[]] := hfront.symm
    rcases List.append_inj' hsingle rfl with ⟨rfl, hx⟩
    rw [List.singleton_inj.1 hx]
    exact hback
  | cons c front ih =>
    rcases List.exists_cons_of_ne_nil (splitOn_ne_nil sep front) with ⟨piece, pieces, hpieces⟩
    by_cases hc : c = sep
    · rw [splitOn, if_pos hc] at hfront
      cases before with
      | nil => simp [hpieces] at hfront
      | cons first before =>
        rcases List.cons.inj hfront with ⟨rfl, hrest⟩
        rw [List.cons_append, splitOn, if_pos hc, ih hrest, List.cons_append]
    · rw [splitOn, if_neg hc, hpieces] at hfront
      cases before with
      | nil =>
        rcases List.cons.inj hfront with ⟨rfl, rfl⟩
        have hjoined : splitOn sep (front ++ back) = [] ++ (piece ++ y) :: after := ih hpieces
        simp [splitOn, hc, hjoined]
      | cons first before =>
        rcases List.cons.inj hfront with ⟨rfl, rfl⟩
        have hjoined : splitOn sep (front ++ back) = (piece :: before) ++ (x ++ y) :: after :=
          ih hpieces
        simp [splitOn, hc, hjoined]

theorem not_mem_of_mem_splitOn : piece ∈ splitOn sep cs → sep ∉ piece := by
  intro h
  induction cs generalizing piece with
  | nil =>
    have hpiece : piece = [] := by simpa [splitOn] using h
    simp [hpiece]
  | cons c cs ih =>
    by_cases hc : c = sep
    · have hcases : piece = [] ∨ piece ∈ splitOn sep cs := by simpa [splitOn, hc] using h
      rcases hcases with rfl | hmem
      · simp
      · exact ih hmem
    · rcases List.exists_cons_of_ne_nil (splitOn_ne_nil sep cs) with ⟨first, pieces, hpieces⟩
      have hcases : piece = c :: first ∨ piece ∈ pieces := by simpa [splitOn, hc, hpieces] using h
      rcases hcases with rfl | hmem
      · have hfirst : sep ∉ first := ih (by simp [hpieces])
        simpa [hfirst] using Ne.symm hc
      · exact ih (by simp [hpieces, hmem])

theorem splitOn_joinWith {pieces : List (List Char)} (hne : pieces ≠ [])
    (h : ∀ piece ∈ pieces, sep ∉ piece) : splitOn sep (joinWith sep pieces) = pieces := by
  induction pieces with
  | nil => exact absurd rfl hne
  | cons piece pieces ih =>
    -- The separators of the joined text are those between the pieces.
    have hpiece : splitOn sep piece = [piece] := splitOn_of_not_mem (h piece (by simp))
    cases pieces with
    | nil => exact hpiece
    | cons next pieces =>
      have hrest : splitOn sep (joinWith sep (next :: pieces)) = next :: pieces :=
        ih (by simp) fun other hother => h other (List.mem_cons_of_mem piece hother)
      calc
        splitOn sep (joinWith sep (piece :: next :: pieces))
            = splitOn sep (piece ++ sep :: joinWith sep (next :: pieces)) := rfl
        _ = splitOn sep piece ++ splitOn sep (joinWith sep (next :: pieces)) :=
            splitOn_append_cons sep piece _
        _ = piece :: next :: pieces := by rw [hpiece, hrest, List.singleton_append]

theorem joinWith_eq_intercalate (sep : Char) (pieces : List (List Char)) :
    joinWith sep pieces = [sep].intercalate pieces := by
  induction pieces with
  | nil => rfl
  | cons piece pieces ih =>
    cases pieces with
    | nil => simp [joinWith, List.intercalate]
    | cons next pieces => simp [joinWith, ih, List.intercalate_cons_cons]

theorem joinWith_append {xs ys : List (List Char)} (hxs : xs ≠ []) (hys : ys ≠ []) :
    joinWith sep (xs ++ ys) = joinWith sep xs ++ sep :: joinWith sep ys := by
  induction xs with
  | nil => exact absurd rfl hxs
  | cons x xs ih =>
    cases xs with
    | nil =>
      rcases List.exists_cons_of_ne_nil hys with ⟨y, ys, rfl⟩
      rfl
    | cons next xs =>
      have hrest := ih (by simp)
      simp only [List.cons_append, joinWith] at hrest ⊢
      rw [hrest, List.append_assoc, List.cons_append]

theorem not_mem_joinWith {pieces : List (List Char)} {c : Char} (hc : c ≠ sep)
    (h : ∀ piece ∈ pieces, c ∉ piece) : c ∉ joinWith sep pieces := by
  induction pieces with
  | nil => simp [joinWith]
  | cons piece pieces ih =>
    have hpiece : c ∉ piece := h piece List.mem_cons_self
    have hrest := ih fun other hother => h other (List.mem_cons_of_mem piece hother)
    cases pieces with
    | nil => simpa [joinWith] using hpiece
    | cons next pieces => simp [joinWith, hpiece, hc, hrest]

theorem joinWith_splitOn (sep : Char) (cs : List Char) : joinWith sep (splitOn sep cs) = cs := by
  induction cs with
  | nil => rfl
  | cons c cs ih =>
    rcases List.exists_cons_of_ne_nil (splitOn_ne_nil sep cs) with ⟨piece, pieces, hpieces⟩
    rw [hpieces] at ih
    by_cases hc : c = sep
    · simp [splitOn, hc, hpieces, joinWith, ih]
    · cases pieces <;> simpa [splitOn, hc, hpieces, joinWith] using ih

end Text
end TypeNameLint
