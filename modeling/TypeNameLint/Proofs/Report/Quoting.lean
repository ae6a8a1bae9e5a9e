import TypeNameLint.Report.Snippet

/-!
# Quoting — a report with the source quotes the line that it is about

The frame of a report goes over the line of the violation and its neighbours. Whatever stands around
it, the line itself is in the report, with spaces in place of its tabs. The main result is
`Diagnostic.shownLine_infix_render`.
-/

namespace TypeNameLint

variable {s : String} {ss : List String} {line : List Char}

theorem toList_infix_join (h : s ∈ ss) : s.toList <:+: (String.join ss).toList := by
  rw [String.toList_join, List.flatMap_def]
  exact List.infix_of_mem_flatten (List.mem_map_of_mem h)

namespace Diagnostic

/-- The row of a line with its number is the line behind a margin. -/
theorem exists_row_lineWithMark (width marked : Nat) (mark : Snippet.Mark) (label : String)
    (line : List Char) (index : Nat) :
    ∃ margin, margin ++ Snippet.shownLine line ∈
      Snippet.lineWithMark width marked mark label (line, index) := by
  refine ⟨Snippet.numbered width (index + 1), ?_⟩
  rw [Snippet.lineWithMark]
  split
  · exact List.mem_cons_self
  · exact List.mem_singleton_self _

/-- The line on which the span starts is one of those in the frame. -/
theorem exists_row_frame (d : Diagnostic) (name : String) {content : List Char}
    (hline : (Text.lines content)[(Text.positionAt content d.offset).row]? = some line) :
    ∃ margin, margin ++ Snippet.shownLine line ∈ d.frame name content := by
  have hentry : (line, (Text.positionAt content d.offset).row) ∈ (Text.lines content).zipIdx :=
    List.mem_zipIdx_iff_getElem?.2 hline
  have hnear : (line, (Text.positionAt content d.offset).row) ∈
      (Text.lines content).zipIdx.filter fun entry =>
        (Text.positionAt content d.offset).row ≤ entry.2 + 1 &&
          entry.2 ≤ (Text.positionAt content d.offset).row + 1 :=
    List.mem_filter.2 ⟨hentry, by simp⟩
  rcases exists_row_lineWithMark _ _ _ _ line _ with ⟨margin, hrow⟩
  refine ⟨margin, ?_⟩
  rw [frame]
  exact List.mem_append_left _ (List.mem_append_right _ (List.mem_flatMap.2 ⟨_, hnear, hrow⟩))

/-- A report with the source quotes the line on which its span starts. -/
theorem shownLine_infix_render (d : Diagnostic) (name : String) {text : String}
    (hline : (Text.lines text.toList)[(Text.positionAt text.toList d.offset).row]? = some line) :
    (Snippet.shownLine line).toList <:+: (d.render name (some text)).toList := by
  rcases d.exists_row_frame name hline with ⟨margin, hrow⟩
  have hquoted : (Snippet.shownLine line).toList <:+:
      (margin ++ Snippet.shownLine line ++ "\n").toList := by
    rw [String.toList_append, String.toList_append]
    exact List.infix_append _ _ _
  refine hquoted.trans (toList_infix_join ?_)
  refine List.mem_map_of_mem (f := fun row => row ++ "\n") ?_
  exact List.mem_append_left _ (List.mem_cons_of_mem _ hrow)

end Diagnostic
end TypeNameLint
