import TypeNameLint.Text.Blank
import TypeNameLint.Text.Search
import TypeNameLint.Proofs.Text.Occurrences

/-!
# Trimming — blanks around a text

Blanks in front of a text and behind it are lost when it is trimmed, and nothing else is. This file
defines:

* `AllBlank`: a text of blanks only;

and proves how trimming and the search for a mark go on over such a text.
-/

namespace TypeNameLint
namespace Text

/-- A text of blanks only. -/
def AllBlank (cs : List Char) : Prop :=
  cs.all isBlank = true

instance (cs : List Char) : Decidable (AllBlank cs) :=
  inferInstanceAs (Decidable (cs.all isBlank = true))

variable {blanks blanks' cs after mark : List Char} {c : Char}

theorem allBlank_iff : AllBlank cs ↔ ∀ c ∈ cs, isBlank c = true :=
  List.all_eq_true

theorem not_mem_of_allBlank (h : AllBlank cs) (hc : isBlank c = false) : c ∉ cs := by
  intro hmem
  rw [allBlank_iff.1 h c hmem] at hc
  cases hc

/-! ## The start of a text -/

theorem trimStart_eq_nil_iff : trimStart cs = [] ↔ AllBlank cs := by
  rw [allBlank_iff, trimStart]
  induction cs with
  | nil => simp
  | cons c cs ih =>
    cases hc : isBlank c with
    | true => simp [List.dropWhile_cons_of_pos hc, hc, ih]
    | false => simp [List.dropWhile_cons_of_neg, hc]

theorem trimStart_append_of_allBlank (h : AllBlank blanks) :
    trimStart (blanks ++ cs) = trimStart cs :=
  List.dropWhile_append_of_pos (allBlank_iff.1 h)

theorem trimStart_cons (h : isBlank c = false) : trimStart (c :: cs) = c :: cs :=
  List.dropWhile_cons_of_neg (by simp [h])

/-- Only the blanks at the start of a text are taken off, whatever follows the text. -/
theorem trimStart_append_of_not_allBlank (h : ¬ AllBlank cs) :
    trimStart (cs ++ after) = trimStart cs ++ after := by
  have hne : ¬ (cs.dropWhile isBlank).isEmpty = true := by
    rw [List.isEmpty_iff]
    exact fun hnil => h (trimStart_eq_nil_iff.1 hnil)
  rw [trimStart, List.dropWhile_append, if_neg hne]
  rfl

/-! ## The end of a text -/

theorem trimEnd_append_of_allBlank (h : AllBlank blanks) : trimEnd (cs ++ blanks) = trimEnd cs := by
  rw [trimEnd, trimEnd, List.reverse_append, List.dropWhile_append_of_pos]
  intro c hc
  exact allBlank_iff.1 h c (List.mem_reverse.1 hc)

theorem trimEnd_concat (h : isBlank c = false) : trimEnd (cs ++ [c]) = cs ++ [c] := by
  rw [trimEnd, List.reverse_append, List.reverse_singleton, List.singleton_append,
    List.dropWhile_cons_of_neg (by simp [h])]
  simp

/-! ## Both ends -/

theorem trim_append_of_allBlank (h : AllBlank blanks) : trim (cs ++ blanks) = trim cs := by
  rw [trim, trim]
  by_cases hcs : AllBlank cs
  · rw [trimStart_append_of_allBlank hcs, trimStart_eq_nil_iff.2 h, trimStart_eq_nil_iff.2 hcs]
  · rw [trimStart_append_of_not_allBlank hcs]
    exact trimEnd_append_of_allBlank h

/-- Trimming takes off the blanks around a text. -/
theorem trim_between (h : AllBlank blanks) (h' : AllBlank blanks') :
    trim (blanks ++ cs ++ blanks') = trim cs := by
  rw [trim_append_of_allBlank h', trim, trimStart_append_of_allBlank h, trim]

/-! ## Marks behind blanks -/

/-- A mark that starts with no blank is found behind any blanks. -/
theorem stripStart?_trimStart (h : AllBlank blanks) (hmark : mark.head?.map isBlank = some false) :
    stripStart? mark (trimStart (blanks ++ (mark ++ cs))) = some cs := by
  rcases Option.map_eq_some_iff.1 hmark with ⟨c, hhead, hc⟩
  rcases List.head?_eq_some_iff.1 hhead with ⟨rest, rfl⟩
  rw [trimStart_append_of_allBlank h, List.cons_append, trimStart_cons hc, stripStart?_eq_some_iff]
  rfl

/-- A mark without blanks does not reach into blanks at the end of a text. -/
theorem stripStart?_append_of_allBlank (h : AllBlank blanks)
    (hmark : mark.all (fun c => !isBlank c) = true) :
    stripStart? mark (cs ++ blanks) = (stripStart? mark cs).map (· ++ blanks) := by
  induction mark generalizing cs with
  | nil => rfl
  | cons m mark ih =>
    simp only [List.all_cons, Bool.and_eq_true, Bool.not_eq_true'] at hmark
    cases cs with
    | nil =>
      cases blanks with
      | nil => rfl
      | cons c blanks =>
        have hne : m ≠ c := fun heq => not_mem_of_allBlank h hmark.1 (by simp [heq])
        simp [stripStart?, hne]
    | cons c cs =>
      simp only [List.cons_append, stripStart?]
      split
      · exact ih hmark.2
      · rfl

/-- The same for a mark that is looked for behind blanks. -/
theorem stripStart?_trimStart_append (h : AllBlank blanks) (hne : mark ≠ [])
    (hmark : mark.all (fun c => !isBlank c) = true) :
    stripStart? mark (trimStart (cs ++ blanks)) =
      (stripStart? mark (trimStart cs)).map (· ++ blanks) := by
  by_cases hcs : AllBlank cs
  · rcases List.exists_cons_of_ne_nil hne with ⟨m, ms, rfl⟩
    rw [trimStart_append_of_allBlank hcs, trimStart_eq_nil_iff.2 h, trimStart_eq_nil_iff.2 hcs]
    rfl
  · rw [trimStart_append_of_not_allBlank hcs]
    exact stripStart?_append_of_allBlank h hmark

end Text
end TypeNameLint
