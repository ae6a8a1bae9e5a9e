import TypeNameLint.Proofs.Text.Offsets
import TypeNameLint.Proofs.Text.Occurrences
import TypeNameLint.Proofs.Text.Trimming

/-!
# LineEnds — a text around one of its lines

A line feed ends a line, and a carriage return just in front of it is not a part of the line. This
file defines:

* `IsLine`: a text cut in front of a line and behind it;
* `lineText`: the line as it is listed among the lines of the text;
* `HoldsOffset`: the line to which the byte at an offset belongs;

and proves which line of the text this is (`IsLine.getElem?_lines`), that every byte belongs to one
(`exists_isLine_of_lt`), where in its line the byte is (`IsLine.positionAt_eq`), and that no row lies
farther away than just behind the last line (`row_le_length_lines`).
-/

namespace TypeNameLint
namespace Text

variable {cs before line rest : List Char} {offset : Nat}

/-! ## Lines of two texts -/

theorem linesOfPieces_append {front back : List (List Char)} (h : back ≠ []) :
    linesOfPieces (front ++ back) = front.map dropReturn ++ linesOfPieces back := by
  induction front with
  | nil => rfl
  | cons piece front ih =>
    have hne : front ++ back ≠ [] := fun hnil => h (List.append_eq_nil_iff.1 hnil).2
    rcases List.exists_cons_of_ne_nil hne with ⟨next, others, hrest⟩
    rw [List.cons_append, hrest, linesOfPieces, ← hrest, ih]
    · rfl
    · exact List.cons_ne_nil next others

theorem lines_append_cons (front cs : List Char) :
    lines (front ++ '\n' :: cs) = (splitOn '\n' front).map dropReturn ++ lines cs := by
  rw [lines, splitOn_append_cons, linesOfPieces_append (splitOn_ne_nil '\n' cs), lines]

/-- Whole lines are listed in front of the lines of what follows them. -/
theorem lines_append (h : before = [] ∨ before.getLast? = some '\n') :
    lines (before ++ cs) = lines before ++ lines cs := by
  rcases h with rfl | h
  · rfl
  · rcases List.getLast?_eq_some_iff.1 h with ⟨front, rfl⟩
    have hnil : lines [] = [] := rfl
    rw [List.append_assoc, List.singleton_append, lines_append_cons, lines_append_cons, hnil,
      List.append_nil]

/-- Every line feed ends a line. -/
theorem length_lines (h : before = [] ∨ before.getLast? = some '\n') :
    (lines before).length = before.count '\n' := by
  rcases h with rfl | h
  · rfl
  · rcases List.getLast?_eq_some_iff.1 h with ⟨front, rfl⟩
    have hnil : lines [] = [] := rfl
    rw [lines_append_cons, hnil, List.append_nil, List.length_map, length_splitOn]
    simp

/-! ## A line and what is around it -/

/-- A text around one of its lines: the lines in front of it with their line feeds, the line up to
its line feed, and the rest from there on. -/
structure IsLine (cs before line rest : List Char) : Prop where
  text_eq : cs = before ++ line ++ rest
  starts : before = [] ∨ before.getLast? = some '\n'
  same_line : '\n' ∉ line
  ends : rest = [] ∨ rest.head? = some '\n'

/-- A line without the carriage return that belongs to its line end. -/
def lineText (line rest : List Char) : List Char :=
  if rest.isEmpty then line else dropReturn line

theorem exists_blanks_dropReturn (line : List Char) :
    ∃ blanks, AllBlank blanks ∧ line = dropReturn line ++ blanks := by
  rw [dropReturn]
  split
  · rename_i h
    rcases List.getLast?_eq_some_iff.1 h with ⟨front, rfl⟩
    exact ⟨['\r'], by decide, by rw [List.dropLast_concat]⟩
  · exact ⟨[], rfl, (List.append_nil line).symm⟩

theorem exists_blanks_lineText (line rest : List Char) :
    ∃ blanks, AllBlank blanks ∧ line = lineText line rest ++ blanks := by
  rw [lineText]
  split
  · exact ⟨[], rfl, (List.append_nil line).symm⟩
  · exact exists_blanks_dropReturn line

theorem not_mem_lineText (h : '\n' ∉ line) : '\n' ∉ lineText line rest := by
  rcases exists_blanks_lineText line rest with ⟨blanks, -, hline⟩
  intro hmem
  exact h (by rw [hline]; exact List.mem_append_left blanks hmem)

namespace IsLine

/-- The line is listed, then those behind its line feed. -/
theorem lines_eq (h : IsLine cs before line rest) (hne : line ++ rest ≠ []) :
    lines cs = lines before ++ lineText line rest :: lines (rest.drop 1) := by
  rw [h.text_eq, List.append_assoc, lines_append h.starts]
  congr 1
  have hsplit : splitOn '\n' line = [line] := splitOn_of_not_mem h.same_line
  cases rest with
  | nil =>
    rw [List.append_nil] at hne ⊢
    rw [lines, hsplit, linesOfPieces, if_neg (by simpa using hne)]
    rfl
  | cons c rest =>
    obtain rfl : c = '\n' := by simpa using h.ends
    rw [lines_append_cons, hsplit]
    rfl

theorem getElem?_lines (h : IsLine cs before line rest) (hne : line ++ rest ≠ []) :
    (lines cs)[before.count '\n']? = some (lineText line rest) := by
  rw [h.lines_eq hne, ← length_lines h.starts]
  simp

/-- What is found in the line, by a search that finds nothing in an empty one. -/
theorem bind_getElem?_lines {α : Type} {search : List Char → Option α}
    (h : IsLine cs before line rest) (hsearch : search [] = none) :
    (lines cs)[before.count '\n']?.bind search = search (lineText line rest) := by
  by_cases hne : line ++ rest = []
  -- An empty line at the end of the text is not listed.
  · rcases List.append_eq_nil_iff.1 hne with ⟨rfl, rfl⟩
    have hnone : (lines cs)[before.count '\n']? = none := by
      rw [h.text_eq, List.append_nil, List.append_nil, ← length_lines h.starts]
      exact List.getElem?_eq_none (Nat.le_refl _)
    rw [hnone]
    exact hsearch.symm
  · rw [h.getElem?_lines hne]
    rfl

/-- Behind the line the text goes on with the lines of the rest. -/
theorem getElem?_lines_succ (h : IsLine cs before line rest) :
    (lines cs)[before.count '\n' + 1]? = (lines (rest.drop 1)).head? := by
  by_cases hne : line ++ rest = []
  · rcases List.append_eq_nil_iff.1 hne with ⟨rfl, rfl⟩
    rw [h.text_eq, List.append_nil, List.append_nil, ← length_lines h.starts]
    simp [lines, splitOn, linesOfPieces]
  · rw [h.lines_eq hne, ← length_lines h.starts, List.head?_eq_getElem?]
    simp [List.getElem?_append_right]

theorem count_below (h : IsLine cs before line rest) :
    (before ++ line ++ ['\n']).count '\n' = before.count '\n' + 1 := by
  rw [List.count_append, List.count_append, List.count_eq_zero_of_not_mem h.same_line]
  rfl

/-- In front of a line there are none, or a whole line ends there. -/
theorem eq_nil_or_exists_above (h : IsLine cs before line rest) :
    before = [] ∨ ∃ front above, before = front ++ above ++ ['\n'] ∧
      IsLine cs front above ('\n' :: (line ++ rest)) := by
  rcases h.starts with hnil | hlast
  · exact Or.inl hnil
  · rcases List.getLast?_eq_some_iff.1 hlast with ⟨x, rfl⟩
    rcases exists_lines_append x with ⟨front, above, rfl, hstarts, hsame⟩
    refine Or.inr ⟨front, above, rfl, ?_, hstarts, hsame, Or.inr rfl⟩
    rw [h.text_eq]
    simp

end IsLine

/-! ## The line of an offset -/

/-- The byte at an offset belongs to a line, or to the line feed that ends it. -/
def HoldsOffset (before line rest : List Char) (offset : Nat) : Prop :=
  byteLength before ≤ offset ∧ offset < byteLength (before ++ line ++ rest.take 1)

theorem exists_char_of_lt (h : offset < byteLength cs) :
    ∃ front c back, cs = front ++ c :: back ∧ byteLength front ≤ offset ∧
      offset < byteLength (front ++ [c]) := by
  induction cs generalizing offset with
  | nil => exact absurd h (Nat.not_lt_zero offset)
  | cons c cs ih =>
    rw [byteLength_cons] at h
    by_cases hfirst : offset < c.utf8Size
    · exact ⟨[], c, cs, rfl, Nat.zero_le offset, by simpa using hfirst⟩
    · have hrest : offset - c.utf8Size < byteLength cs := by omega
      rcases ih hrest with ⟨front, d, back, rfl, hle, hlt⟩
      refine ⟨c :: front, d, back, rfl, ?_, ?_⟩
      · rw [byteLength_cons]
        omega
      · rw [List.cons_append, byteLength_cons]
        omega

theorem exists_line_append (cs : List Char) :
    ∃ line rest, cs = line ++ rest ∧ '\n' ∉ line ∧ (rest = [] ∨ rest.head? = some '\n') := by
  induction cs with
  | nil => exact ⟨[], [], rfl, by simp, Or.inl rfl⟩
  | cons c cs ih =>
    by_cases hc : c = '\n'
    · exact ⟨[], c :: cs, rfl, by simp, Or.inr (by rw [hc]; rfl)⟩
    · rcases ih with ⟨line, rest, rfl, hline, hrest⟩
      exact ⟨c :: line, rest, rfl, by simp [hline, Ne.symm hc], hrest⟩

/-- Every byte of a text belongs to a line. -/
theorem exists_isLine_of_lt (h : offset < byteLength cs) :
    ∃ before line rest, IsLine cs before line rest ∧ HoldsOffset before line rest offset := by
  rcases exists_char_of_lt h with ⟨front, c, back, rfl, hle, hlt⟩
  rcases exists_lines_append front with ⟨before, start, rfl, hstarts, hstart⟩
  rcases exists_line_append (c :: back) with ⟨line, rest, hback, hline, hends⟩
  have hbefore : byteLength before ≤ offset := by
    rw [byteLength_append] at hle
    omega
  refine ⟨before, start ++ line, rest, ⟨?_, hstarts, ?_, hends⟩, hbefore, ?_⟩
  · rw [hback]
    simp
  · simp [hstart, hline]
  -- The character at the offset is in the line or ends it.
  · have hchar : c.utf8Size ≤ byteLength (line ++ rest.take 1) := by
      cases line with
      | nil =>
        rw [List.nil_append] at hback
        rw [← hback]
        simp
      | cons d line =>
        rcases List.cons.inj hback with ⟨rfl, -⟩
        simp only [List.cons_append, byteLength_cons]
        omega
    simp only [byteLength_append, byteLength_cons, byteLength_nil] at hlt hchar ⊢
    omega

theorem HoldsOffset.ne_nil (h : HoldsOffset before line rest offset) : line ++ rest ≠ [] := by
  intro hnil
  rcases List.append_eq_nil_iff.1 hnil with ⟨rfl, rfl⟩
  rcases h with ⟨hle, hlt⟩
  simp at hlt
  omega

/-- The row of an offset is that of its line, and the column counts the bytes of the line in front
of it, whether or not it falls between characters. -/
theorem IsLine.positionAt_eq (h : IsLine cs before line rest)
    (hholds : HoldsOffset before line rest offset) :
    positionAt cs offset = ⟨before.count '\n', offset - byteLength before⟩ := by
  rcases hholds with ⟨hle, hlt⟩
  have hcolumn : offset - byteLength before ≤ byteLength line := by
    have hfeed : byteLength (rest.take 1) ≤ 1 := by
      rcases h.ends with rfl | hhead
      · simp
      · rcases List.head?_eq_some_iff.1 hhead with ⟨after, rfl⟩
        simp [Char.utf8Size]
    simp only [byteLength_append] at hlt
    omega
  have hrow := Position.row_past ⟨0, 0⟩ before
  have hstart := Position.column_past h.starts
  calc
    positionAt cs offset
        = positionFrom ⟨0, 0⟩ (byteLength before + (offset - byteLength before))
            (before ++ (line ++ rest)) := by
          rw [positionAt, h.text_eq, List.append_assoc, Nat.add_sub_cancel' hle]
    _ = positionFrom (Position.past ⟨0, 0⟩ before) (offset - byteLength before) (line ++ rest) :=
          positionFrom_byteLength_add _ before _ _
    _ = ⟨(Position.past ⟨0, 0⟩ before).row,
          (Position.past ⟨0, 0⟩ before).column + (offset - byteLength before)⟩ :=
          positionFrom_of_not_mem rest h.same_line hcolumn
    _ = ⟨before.count '\n', offset - byteLength before⟩ := by simp [hrow, hstart]

/-! ## Rows -/

/-- There are no more line feeds than lines. -/
theorem count_le_length_lines (cs : List Char) : cs.count '\n' ≤ (lines cs).length := by
  rcases exists_lines_append cs with ⟨before, last, rfl, hbefore, hlast⟩
  rw [lines_append hbefore, List.length_append, length_lines hbefore, List.count_append,
    List.count_eq_zero_of_not_mem hlast]
  exact Nat.le_add_right _ _

/-- What starts in front of the end of a text starts on one of its lines. -/
theorem row_lt_length_lines (h : offset < byteLength cs) :
    (positionAt cs offset).row < (lines cs).length := by
  rcases exists_isLine_of_lt h with ⟨before, line, rest, hline, hholds⟩
  rw [hline.positionAt_eq hholds]
  exact (List.getElem?_eq_some_iff.1 (hline.getElem?_lines hholds.ne_nil)).1

theorem row_le_length_lines (cs : List Char) (offset : Nat) :
    (positionAt cs offset).row ≤ (lines cs).length := by
  calc
    (positionAt cs offset).row = ((bytes cs).take offset).count 10 := by
      rw [positionAt, row_positionFrom, Nat.zero_add]
    _ ≤ (bytes cs).count 10 := (List.take_sublist offset (bytes cs)).count_le 10
    _ = cs.count '\n' := count_bytes cs
    _ ≤ (lines cs).length := count_le_length_lines cs

end Text
end TypeNameLint
