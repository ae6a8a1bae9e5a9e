import TypeNameLint.Directive
import TypeNameLint.Proofs.Text.Occurrences

/-!
# Marker — no line is exempt without the marker of directives

Whatever the reader takes for a comment occurs in the text, and a directive needs the marker in its
comment. So the lines of a text without the marker are denied, wherever its line ends are. The main
result is `exemption_of_no_marker`.
-/

namespace TypeNameLint
namespace Directive

variable {line comment body : List Char} {directive : Directive}

/-! ## Comments -/

theorem prefix_blockBody (cs : List Char) : blockBody cs <+: cs := by
  rw [blockBody]
  cases hsplit : Text.splitOnce? ['*', '/'] cs with
  | none => exact List.prefix_rfl
  | some parts =>
    have hcs := Text.eq_append_of_splitOnce? hsplit
    rw [hcs, List.append_assoc]
    exact List.prefix_append parts.1 _

theorem infix_of_commentText? : commentText? line = some comment → comment <:+: line := by
  intro h
  -- A comment opens at the first mark; before that, it is looked for in the rest of the line.
  fun_induction commentText? line with
  | case1 rest =>
    cases h
    exact (List.suffix_append ['/', '/'] comment).isInfix
  | case2 rest =>
    cases h
    exact (prefix_blockBody rest).isInfix.trans (List.suffix_append ['/', '*'] rest).isInfix
  | case3 c rest _ _ ih => exact (ih h).trans (List.suffix_cons c rest).isInfix
  | case4 => cases h

/-! ## Directives -/

theorem marker_infix_of_ofComment? :
    ofComment? comment = some directive → marker <:+: comment := by
  intro h
  rcases Option.bind_eq_some_iff.1 h with ⟨body, hbody, -⟩
  have hstart : Text.trimStart comment = marker ++ body := Text.stripStart?_eq_some_iff.1 hbody
  have htrimmed : Text.trimStart comment <:+ comment := List.dropWhile_suffix _
  have hmarker : marker <+: Text.trimStart comment := by
    rw [hstart]
    exact List.prefix_append marker body
  exact hmarker.isInfix.trans htrimmed.isInfix

theorem parse?_of_no_marker (h : ¬ marker <:+: line) : parse? line = none := by
  rw [parse?, Option.bind_eq_none_iff]
  intro comment hcomment
  cases hdirective : ofComment? comment with
  | none => rfl
  | some directive =>
    exact absurd ((marker_infix_of_ofComment? hdirective).trans (infix_of_commentText? hcomment)) h

end Directive

/-! ## Exemptions -/

theorem mem_of_mem_exemptingLines {lines : List (List Char)} {index : Nat} {line : List Char} :
    line ∈ exemptingLines lines index → line ∈ lines := by
  intro h
  rcases List.mem_append.1 h with hbefore | hown
  · have hmem := (List.mem_filter.1 hbefore).1
    split at hmem
    · cases hmem
    · exact List.mem_of_getElem? (Option.mem_toList.1 hmem)
  · exact List.mem_of_getElem? (Option.mem_toList.1 hown)

/-- A text without the marker exempts none of its lines. -/
theorem exemption_of_no_marker {content : String} (h : ¬ Directive.marker <:+: content.toList)
    (line : Nat) (rule : String) : exemption content line rule = .denied := by
  cases line with
  | zero => rfl
  | succ index =>
    have hnone : (exemptingLines (Text.lines content.toList) index).filterMap Directive.parse? =
        [] := by
      refine List.filterMap_eq_nil_iff.2 fun line hline => Directive.parse?_of_no_marker ?_
      intro hmarker
      exact h (hmarker.trans (Text.infix_of_mem_lines (mem_of_mem_exemptingLines hline)))
    rw [exemption, hnone]
    rfl

end TypeNameLint
