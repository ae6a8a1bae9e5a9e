import TypeNameLint.Proofs.Edit.Splice
import TypeNameLint.Text.Blank
import Mathlib.Algebra.Ring.Int.Defs

/-!
# Weight — what replacements take away from a text

Characters are given weights, and a replacement that is lighter than the text of its span makes the
whole text lighter. So no text comes back from replacements that are all lighter, and the weight
that is lost bounds their number. This file defines:

* `weigh`: the weight of a text without its blanks;
* `Lightens`: replacements that are lighter than the text of their span.

The main result is `weigh_output_add_applied_le`.
-/

namespace TypeNameLint
namespace Edit

open Text

/-! ## Weights -/

/-- The weights of the characters of a text that are not blank, added up. -/
def weigh (w : Char → ℤ) (cs : List Char) : ℤ :=
  ((cs.filter fun c => !isBlank c).map w).sum

variable {w : Char → ℤ}

@[simp] theorem weigh_append (w : Char → ℤ) (xs ys : List Char) :
    weigh w (xs ++ ys) = weigh w xs + weigh w ys := by
  simp [weigh]

/-- Blanks weigh nothing. -/
@[simp] theorem weigh_filter (w : Char → ℤ) (cs : List Char) :
    weigh w (cs.filter fun c => !isBlank c) = weigh w cs := by
  simp [weigh, List.filter_filter]

/-! ## Replacements -/

/-- The new text is lighter than the text of the span. -/
def Lightens (w : Char → ℤ) (source : List Char) (r : Replacement) : Prop :=
  ∀ old, slice? source r.location.offset (stopOf r) = some old →
    weigh w r.newText.toList < weigh w old

/-- Every replacement takes at least one from the weight. The induction moves the cursor behind a
text `before` which the source begins with, as the spans are those of the whole source. -/
theorem Rewrites.weigh_add_length_le {cursor : Nat} {rs : List Replacement} {text new : List Char}
    (h : Rewrites cursor rs text new) (before : List Char) (hbefore : byteLength before = cursor)
    (hlight : ∀ r ∈ rs, Lightens w (before ++ text) r) :
    weigh w new + rs.length ≤ weigh w text := by
  induction h generalizing before with
  | rest cursor text => simp
  | @step cursor r rs gap old text new hgap hold _ ih =>
    have hspan : slice? (before ++ (gap ++ old ++ text)) r.location.offset (stopOf r) =
        some old := by
      have hslice := slice?_append (before ++ gap) old text
      rw [byteLength_append, hbefore, hgap, hold] at hslice
      simpa using hslice
    have hfirst : weigh w r.newText.toList < weigh w old :=
      hlight r List.mem_cons_self old hspan
    have hlater : weigh w new + rs.length ≤ weigh w text := by
      refine ih (before ++ gap ++ old) ?_ fun s hs => ?_
      · rw [byteLength_append, byteLength_append, hbefore, hgap, hold]
      · have hs := hlight s (List.mem_cons_of_mem r hs)
        simpa using hs
    calc
      weigh w (gap ++ r.newText.toList ++ new) + (r :: rs).length =
          weigh w gap + (weigh w r.newText.toList + 1) + (weigh w new + rs.length) := by
        simp only [weigh_append, List.length_cons]
        omega
      _ ≤ weigh w gap + weigh w old + weigh w text := by omega
      _ = weigh w (gap ++ old ++ text) := by simp only [weigh_append]

/-- A batch of replacements that are lighter takes at least their number from the weight. -/
theorem weigh_output_add_applied_le {source : String} {rs : List Replacement}
    (hwords : ∀ r ∈ rs, FitsWord r) (hlight : ∀ r ∈ rs, Lightens w source.toList r) :
    weigh w (apply source rs).output.toList + (apply source rs).applied ≤
      weigh w source.toList := by
  refine (rewrites_output source rs hwords).1.weigh_add_length_le [] rfl fun r hr => ?_
  have hmem : r ∈ inOrder rs := (select_sublist none (inOrder rs)).subset hr
  exact hlight r ((inOrder_perm rs).mem_iff.1 hmem)

end Edit
end TypeNameLint
