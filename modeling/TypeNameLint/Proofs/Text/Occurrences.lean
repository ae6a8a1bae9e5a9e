import TypeNameLint.Proofs.Text.Pieces
import TypeNameLint.Text.Search

/-!
# Occurrences — texts found inside other texts

Searching and splitting only cut a text, so whatever they give back occurs in it. This file defines:

* `fence`: a word with separators at its ends;
* `Fits`: where such a word stands in a piece.

The main results are:

* `stripStart?_eq_some_iff`, `eq_append_of_splitOnce?`: what a search finds, put together again;
* `splitOnce?_append`: a search finds the first occurrence;
* `contains_iff_infix`: a search finds what occurs in the text;
* `pair_infix_append_iff`: where two neighbouring characters stand in a text made of two;
* `infix_of_mem_splitOn`, `infix_of_mem_lines`: pieces and lines occur in their text;
* `fence_infix_iff`: a word with separators at its ends occurs where it fits a piece.
-/

namespace TypeNameLint
namespace Text

variable {mark cs rest before after piece line : List Char} {sep : Char}

/-! ## Search -/

theorem stripStart?_eq_some_iff : stripStart? mark cs = some rest ↔ cs = mark ++ rest := by
  induction mark generalizing cs with
  | nil => simp [stripStart?]
  | cons m mark ih =>
    cases cs with
    | nil => simp [stripStart?]
    | cons c cs =>
      by_cases hc : m = c
      · subst hc
        simp [stripStart?, ih]
      · have hne : ¬ c = m := fun heq => hc heq.symm
        simp [stripStart?, hc, hne]

theorem startsWith_iff_prefix : startsWith mark cs = true ↔ mark <+: cs := by
  rw [startsWith, Option.isSome_iff_exists]
  exact exists_congr fun rest => stripStart?_eq_some_iff.trans eq_comm

/-- A text is put together again from what stands before and after a mark in it. -/
theorem eq_append_of_splitOnce? :
    splitOnce? mark cs = some (before, after) → cs = before ++ mark ++ after := by
  intro h
  induction cs generalizing before with
  | nil =>
    rw [splitOnce?] at h
    split at h
    · rename_i hempty
      cases h
      simpa using hempty
    · cases h
  | cons c cs ih =>
    rw [splitOnce?] at h
    cases hstrip : stripStart? mark (c :: cs) with
    | some rest =>
      rw [hstrip] at h
      cases h
      exact stripStart?_eq_some_iff.1 hstrip
    | none =>
      rw [hstrip] at h
      rcases Option.map_eq_some_iff.1 h with ⟨⟨front, back⟩, hfound, heq⟩
      cases heq
      rw [ih hfound]
      rfl

/-- A text contains the texts that occur in it. -/
theorem contains_iff_infix : contains mark cs = true ↔ mark <:+: cs := by
  induction cs with
  | nil => cases mark <;> simp [contains, splitOnce?]
  | cons c cs ih =>
    rw [List.infix_cons_iff, ← startsWith_iff_prefix, ← ih, contains, splitOnce?, startsWith]
    cases stripStart? mark (c :: cs) with
    | none => simp [contains]
    | some rest => simp

/-- The first occurrence of a mark is one that does not overlap with what stands in front of it. -/
theorem splitOnce?_append (h : ¬ mark <:+: before ++ mark.dropLast) :
    splitOnce? mark (before ++ mark ++ after) = some (before, after) := by
  have hmark : mark ≠ [] := by
    rintro rfl
    exact h List.nil_infix
  induction before with
  | nil =>
    rcases List.exists_cons_of_ne_nil hmark with ⟨m, ms, rfl⟩
    have hstrip : stripStart? (m :: ms) (m :: (ms ++ after)) = some after :=
      stripStart?_eq_some_iff.2 rfl
    simp only [List.nil_append, List.cons_append, splitOnce?, hstrip]
  | cons c before ih =>
    have hrest : ¬ mark <:+: before ++ mark.dropLast := fun hmem =>
      h (hmem.trans (List.suffix_cons c _).isInfix)
    -- A mark at the start would end in front of the last character of the one that is split at.
    have hstrip : stripStart? mark (c :: (before ++ mark ++ after)) = none := by
      rw [Option.eq_none_iff_forall_not_mem]
      intro rest hfound
      have hstart : mark <+: c :: (before ++ mark ++ after) :=
        ⟨rest, (stripStart?_eq_some_iff.1 hfound).symm⟩
      have hfront : c :: before ++ mark.dropLast <+: c :: (before ++ mark ++ after) := by
        have hlast : mark.dropLast <+: mark ++ after :=
          (List.dropLast_prefix mark).trans (List.prefix_append mark after)
        simpa [List.append_assoc] using (List.prefix_append_right_inj (c :: before)).2 hlast
      have hlength : mark.length ≤ (c :: before ++ mark.dropLast).length := by
        simp
        omega
      exact h (List.prefix_of_prefix_length_le hstart hfront hlength).isInfix
    simp only [List.cons_append, splitOnce?, hstrip, ih hrest, Option.map_some]

theorem not_infix_of_splitOnce? (hmark : mark ≠ []) :
    splitOnce? mark cs = some (before, after) → ¬ mark <:+: before ++ mark.dropLast := by
  intro h
  have hshort : mark.dropLast.length < mark.length := by
    have hpos := List.length_pos_iff.2 hmark
    simp
    omega
  induction cs generalizing before with
  | nil =>
    rw [splitOnce?, if_neg (by simpa using hmark)] at h
    cases h
  | cons c cs ih =>
    rw [splitOnce?] at h
    cases hstrip : stripStart? mark (c :: cs) with
    | some rest =>
      rw [hstrip] at h
      cases h
      intro hmem
      exact absurd hmem.length_le (Nat.not_le.2 hshort)
    | none =>
      rw [hstrip] at h
      rcases Option.map_eq_some_iff.1 h with ⟨⟨front, back⟩, hfound, heq⟩
      cases heq
      rw [List.cons_append, List.infix_cons_iff]
      rintro (hstart | hmem)
      -- At the start of the text the mark would have been found.
      · have hfront : front ++ mark.dropLast <+: cs := by
          rw [eq_append_of_splitOnce? hfound, List.append_assoc]
          exact (List.prefix_append_right_inj front).2
            ((List.dropLast_prefix mark).trans (List.prefix_append mark after))
        rcases hstart.trans (List.cons_prefix_cons.2 ⟨rfl, hfront⟩) with ⟨rest, hrest⟩
        rw [stripStart?_eq_some_iff.2 hrest.symm] at hstrip
        cases hstrip
      · exact ih hfound hmem

theorem splitOnce?_singleton {c : Char} (h : c ∉ before) :
    splitOnce? [c] (before ++ c :: after) = some (before, after) := by
  have hfirst : ¬ [c] <:+: before ++ [c].dropLast := by
    intro hmem
    rw [List.dropLast_singleton, List.append_nil] at hmem
    exact h (hmem.subset (List.mem_singleton_self c))
  have hsplit : splitOnce? [c] (before ++ [c] ++ after) = some (before, after) :=
    splitOnce?_append hfirst
  simpa using hsplit

theorem splitOnce?_eq_none_iff : splitOnce? mark cs = none ↔ ¬ mark <:+: cs := by
  rw [← contains_iff_infix, contains]
  simp

/-- A text without the mark, put behind another one, changes only what stands behind the mark. -/
theorem splitOnce?_singleton_append {c : Char} (h : c ∉ after) :
    splitOnce? [c] (cs ++ after) =
      (splitOnce? [c] cs).map fun parts => (parts.1, parts.2 ++ after) := by
  induction cs with
  | nil =>
    have hnone : splitOnce? [c] after = none :=
      splitOnce?_eq_none_iff.2 fun hmem => h (hmem.subset (List.mem_singleton_self c))
    rw [List.nil_append, hnone]
    rfl
  | cons d cs ih =>
    by_cases hd : c = d
    · simp [splitOnce?, stripStart?, hd]
    · simp [splitOnce?, stripStart?, hd, ih, Function.comp_def]

/-! ## Neighbouring characters -/

section Pairs

variable {a b c : Char} {xs ys : List Char}

/-- Two neighbouring characters stand in one of two texts, or where these meet. -/
theorem pair_infix_append_iff :
    [a, b] <:+: xs ++ ys ↔
      [a, b] <:+: xs ∨ [a, b] <:+: ys ∨ (xs.getLast? = some a ∧ ys.head? = some b) := by
  rw [List.infix_append_iff_ne_nil]
  refine or_congr_right (or_congr_right ?_)
  rw [← List.singleton_suffix_iff_getLast?_eq_some, ← List.singleton_prefix_iff_head?_eq_some]
  constructor
  · rintro ⟨front, back, hfront, hback, hpair, hxs, hys⟩
    -- Neither part is empty, so each has one of the two characters.
    rcases List.exists_cons_of_ne_nil hfront with ⟨x, front, rfl⟩
    rcases List.exists_cons_of_ne_nil hback with ⟨y, back, rfl⟩
    rcases List.cons.inj hpair with ⟨rfl, hpair⟩
    have hempty : front = [] := by
      have hlength := congrArg List.length hpair
      simp at hlength
      exact List.eq_nil_of_length_eq_zero (by omega)
    subst hempty
    cases hpair
    exact ⟨hxs, hys⟩
  · rintro ⟨hxs, hys⟩
    exact ⟨[a], [b], List.cons_ne_nil _ _, List.cons_ne_nil _ _, rfl, hxs, hys⟩

theorem pair_infix_append_of_not_mem_left (h : a ∉ xs) :
    [a, b] <:+: xs ++ ys ↔ [a, b] <:+: ys := by
  rw [pair_infix_append_iff]
  constructor
  · rintro (hxs | hys | ⟨hlast, -⟩)
    · exact absurd (hxs.subset (by simp)) h
    · exact hys
    · exact absurd (List.mem_of_getLast? hlast) h
  · intro hys
    exact Or.inr (Or.inl hys)

theorem pair_infix_append_of_not_mem_right (h : b ∉ ys) :
    [a, b] <:+: xs ++ ys ↔ [a, b] <:+: xs := by
  rw [pair_infix_append_iff]
  constructor
  · rintro (hxs | hys | ⟨-, hhead⟩)
    · exact hxs
    · exact absurd (hys.subset (by simp)) h
    · exact absurd (List.mem_of_head? hhead) h
  · exact Or.inl

/-- Another character between two texts keeps the pairs of the two apart. -/
theorem pair_infix_append_cons_iff (ha : c ≠ a) (hb : c ≠ b) :
    [a, b] <:+: xs ++ c :: ys ↔ [a, b] <:+: xs ∨ [a, b] <:+: ys := by
  have hcons : [a, b] <:+: [c] ++ ys ↔ [a, b] <:+: ys :=
    pair_infix_append_of_not_mem_left (by simpa using ha.symm)
  rw [List.singleton_append] at hcons
  rw [pair_infix_append_iff, hcons]
  simp [hb]

end Pairs

/-! ## Words between separators -/

/-- A word, with a separator in front of it and behind it where that is asked for. -/
def fence (sep : Char) (front back : Bool) (word : List Char) : List Char :=
  (if front then [sep] else []) ++ word ++ (if back then [sep] else [])

/-- A word stands in a piece, at the start and at the end of it where that is asked for. -/
def Fits (front back : Bool) (word piece : List Char) : Prop :=
  ∃ before after, piece = before ++ word ++ after ∧ (front = true → before = []) ∧
    (back = true → after = [])

theorem splitOn_word {word before after : List Char} (h : sep ∉ word) :
    ∃ first x y last, splitOn sep before = first ++ [x] ∧ splitOn sep after = y :: last ∧
      splitOn sep (before ++ word ++ after) = first ++ (x ++ word ++ y) :: last := by
  rcases List.eq_nil_or_concat (splitOn sep before) with hnil | ⟨first, x, hbefore⟩
  · exact absurd hnil (splitOn_ne_nil sep before)
  · rcases List.exists_cons_of_ne_nil (splitOn_ne_nil sep after) with ⟨y, last, hafter⟩
    rw [List.concat_eq_append] at hbefore
    have hword := splitOn_append hbefore (splitOn_of_not_mem h)
    exact ⟨first, x, y, last, hbefore, hafter, splitOn_append hword hafter⟩

theorem piece_prefix_joinWith (sep : Char) (piece : List Char) {back : Bool}
    {last : List (List Char)} (h : back = true → last ≠ []) :
    (piece ++ if back then [sep] else []) <+: joinWith sep (piece :: last) := by
  cases last with
  | nil =>
    cases back with
    | false => simp [joinWith]
    | true => exact absurd rfl (h rfl)
  | cons next last => cases back <;> simp [joinWith]

theorem joinWith_suffix (sep : Char) {front : Bool} {first pieces : List (List Char)}
    (hne : pieces ≠ []) (h : front = true → first ≠ []) :
    ((if front then [sep] else []) ++ joinWith sep pieces) <:+ joinWith sep (first ++ pieces) := by
  by_cases hfirst : first = []
  · cases front with
    | false => simp [hfirst]
    | true => exact absurd hfirst (h rfl)
  · rw [joinWith_append hfirst hne]
    refine List.suffix_append_of_suffix ?_
    cases front with
    | false => exact List.suffix_cons sep _
    | true => exact List.suffix_rfl

/-- A word with separators at its ends occurs in a text exactly where it fits a piece, one behind
another piece for the separator in front, and one before another piece for the separator behind. -/
theorem fence_infix_iff {front back : Bool} {word : List Char} (h : sep ∉ word) :
    fence sep front back word <:+: cs ↔
      ∃ first piece last, splitOn sep cs = first ++ piece :: last ∧
        (front = true → first ≠ []) ∧ (back = true → last ≠ []) ∧ Fits front back word piece := by
  constructor
  · rintro ⟨u, v, rfl⟩
    rcases @splitOn_word sep word (u ++ if front then [sep] else [])
      ((if back then [sep] else []) ++ v) h with ⟨first, x, y, last, hu, hv, hsplit⟩
    refine ⟨first, x ++ word ++ y, last, ?_, ?_, ?_, x, y, rfl, ?_, ?_⟩
    · simpa [fence, List.append_assoc] using hsplit
    -- A separator at an end of the word ends a piece there.
    · rintro rfl
      rw [if_pos rfl, splitOn_append_cons] at hu
      rcases List.append_inj' hu rfl with ⟨rfl, -⟩
      exact splitOn_ne_nil sep u
    · rintro rfl
      rw [if_pos rfl, List.singleton_append, splitOn, if_pos rfl] at hv
      rcases List.cons.inj hv with ⟨-, rfl⟩
      exact splitOn_ne_nil sep v
    · rintro rfl
      rw [if_pos rfl, splitOn_append_cons] at hu
      exact (List.singleton_inj.1 (List.append_inj' hu rfl).2).symm
    · rintro rfl
      rw [if_pos rfl, List.singleton_append, splitOn, if_pos rfl] at hv
      exact (List.cons.inj hv).1.symm
  · rintro ⟨first, piece, last, hsplit, hfront, hback, x, y, rfl, hx, hy⟩
    have hfence : fence sep front back word <:+:
        (if front then [sep] else []) ++ (x ++ word ++ y ++ if back then [sep] else []) := by
      rw [fence]
      refine ⟨if front then [] else x, if back then [] else y, ?_⟩
      cases front <;> cases back <;> simp_all
    -- What stands around the piece is joined to it by separators.
    have hpiece := piece_prefix_joinWith sep (x ++ word ++ y) hback
    have hpieces := joinWith_suffix sep (List.cons_ne_nil (x ++ word ++ y) last) hfront
    rw [← joinWith_splitOn sep cs, hsplit]
    exact (hfence.trans ((List.prefix_append_right_inj _).2 hpiece).isInfix).trans hpieces.isInfix

/-- Behind a separator at the start of a text, a word between two separators is a piece of the text,
and not the last one. -/
theorem fence_infix_iff_mem {word : List Char} (h : sep ∉ word) (hne : word ≠ [])
    (hstart : cs.head? = some sep) :
    fence sep true true word <:+: cs ↔ word ∈ (splitOn sep cs).dropLast := by
  rw [fence_infix_iff h]
  constructor
  · rintro ⟨first, piece, last, hsplit, -, hlast, before, after, rfl, hbefore, hafter⟩
    rcases List.exists_cons_of_ne_nil (hlast rfl) with ⟨next, others, rfl⟩
    rw [hbefore rfl, hafter rfl] at hsplit
    rw [hsplit, List.dropLast_append_of_ne_nil (List.cons_ne_nil _ _), List.dropLast_cons_cons]
    simp
  · intro hmem
    rcases List.append_of_mem hmem with ⟨first, more, hfront⟩
    have hpieces := List.dropLast_concat_getLast (splitOn_ne_nil sep cs)
    rw [hfront, List.append_assoc, List.cons_append] at hpieces
    refine ⟨first, word, _, hpieces.symm, fun _ => ?_, fun _ => by simp, [], [], by simp,
      fun _ => rfl, fun _ => rfl⟩
    -- The first piece of the text is empty, and the word is not.
    rintro rfl
    rcases List.head?_eq_some_iff.1 hstart with ⟨rest, rfl⟩
    have hfirst : splitOn sep (sep :: rest) = [] :: splitOn sep rest := by simp [splitOn]
    exact hne (List.cons.inj (hpieces.trans hfirst)).1

/-- A word without the separator occurs in one of the pieces of which a text is joined. -/
theorem infix_joinWith_iff {word : List Char} {pieces : List (List Char)} (hword : sep ∉ word)
    (hne : pieces ≠ []) (hpieces : ∀ piece ∈ pieces, sep ∉ piece) :
    word <:+: joinWith sep pieces ↔ ∃ piece ∈ pieces, word <:+: piece := by
  have hfence : fence sep false false word = word := by simp [fence]
  rw [← hfence, fence_infix_iff hword, splitOn_joinWith hne hpieces, hfence]
  constructor
  · rintro ⟨first, piece, last, rfl, -, -, before, after, rfl, -, -⟩
    exact ⟨_, by simp, before, after, rfl⟩
  · rintro ⟨piece, hmem, before, after, rfl⟩
    rcases List.append_of_mem hmem with ⟨first, last, rfl⟩
    exact ⟨first, _, last, rfl, by simp, by simp, before, after, rfl, by simp, by simp⟩

/-! ## Pieces and lines -/

/-- The first piece is the start of the text. -/
theorem prefix_of_splitOn_eq_cons {pieces : List (List Char)} :
    splitOn sep cs = piece :: pieces → piece <+: cs := by
  intro h
  induction cs generalizing piece pieces with
  | nil =>
    cases h
    exact List.nil_prefix
  | cons c cs ih =>
    by_cases hc : c = sep
    · rw [splitOn, if_pos hc] at h
      cases h
      exact List.nil_prefix
    · rcases List.exists_cons_of_ne_nil (splitOn_ne_nil sep cs) with ⟨first, others, hsplit⟩
      rw [splitOn, if_neg hc, hsplit] at h
      cases h
      exact List.cons_prefix_cons.2 ⟨rfl, ih hsplit⟩

theorem infix_of_mem_splitOn : piece ∈ splitOn sep cs → piece <:+: cs := by
  intro h
  induction cs with
  | nil =>
    obtain rfl : piece = [] := List.mem_singleton.1 h
    exact List.infix_rfl
  | cons c cs ih =>
    rcases List.exists_cons_of_ne_nil (splitOn_ne_nil sep cs) with ⟨first, others, hsplit⟩
    have hlater : piece ∈ splitOn sep cs → piece <:+: c :: cs := fun hmem =>
      (ih hmem).trans (List.suffix_cons c cs).isInfix
    by_cases hc : c = sep
    · rw [splitOn, if_pos hc] at h
      rcases List.mem_cons.1 h with rfl | hmem
      · exact List.nil_infix
      · exact hlater hmem
    · rw [splitOn, if_neg hc, hsplit] at h
      rcases List.mem_cons.1 h with rfl | hmem
      · -- The character is added to the first piece, with which the rest starts.
        exact (List.cons_prefix_cons.2 ⟨rfl, prefix_of_splitOn_eq_cons hsplit⟩).isInfix
      · exact hlater (by simp [hsplit, hmem])

theorem prefix_dropReturn (line : List Char) : dropReturn line <+: line := by
  rw [dropReturn]
  split
  · exact List.dropLast_prefix line
  · exact List.prefix_rfl

theorem exists_piece_of_mem_linesOfPieces {pieces : List (List Char)} :
    line ∈ linesOfPieces pieces → ∃ piece ∈ pieces, line <+: piece := by
  intro h
  induction pieces with
  | nil => cases h
  | cons first pieces ih =>
    cases pieces with
    | nil =>
      rw [linesOfPieces] at h
      split at h
      · cases h
      · rw [List.mem_singleton.1 h]
        exact ⟨first, by simp, List.prefix_rfl⟩
    | cons second pieces =>
      rcases List.mem_cons.1 h with rfl | hmem
      · exact ⟨first, by simp, prefix_dropReturn first⟩
      · rcases ih hmem with ⟨piece, hpiece, hprefix⟩
        exact ⟨piece, List.mem_cons_of_mem first hpiece, hprefix⟩

theorem infix_of_mem_lines (h : line ∈ lines cs) : line <:+: cs := by
  rcases exists_piece_of_mem_linesOfPieces h with ⟨piece, hpiece, hprefix⟩
  exact hprefix.isInfix.trans (infix_of_mem_splitOn hpiece)

end Text
end TypeNameLint
