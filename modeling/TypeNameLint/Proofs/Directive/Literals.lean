import TypeNameLint.Proofs.Directive.Comments

/-!
# Literals — directives behind code with string literals

The mark of a comment is looked for in string literals too. Code in whose literals there is none is
passed over, and in other code the first mark in a literal takes the place of the comment. This file
defines:

* `IsCode`: plain code with string literals in it;
* `OpensInLiteral`: the first mark in the literals of code, with what is around it.

The main result is `parse?_of_isCode`.
-/

namespace TypeNameLint
namespace Directive

variable {code lead text body after : List Char} {literals : List (List Char)}

/-! ## Code -/

/-- Code outside of string literals: no quotation mark of any kind is in it, and no comment opens in
it. -/
structure IsPlainCode (cs : List Char) : Prop where
  no_quotes : ∀ c ∈ cs, c ∉ "\"'`".toList
  opensNone : OpensNone cs

/-- The text of a literal in double quotes, without escapes. -/
structure IsLiteralText (cs : List Char) : Prop where
  no_quote : '"' ∉ cs
  no_backslash : '\\' ∉ cs

/-- Plain code with string literals in it, and the texts of these. -/
inductive IsCode : List (List Char) → List Char → Prop
  | plain {cs : List Char} (isPlain : IsPlainCode cs) : IsCode [] cs
  | literal {cs literal code : List Char} {literals : List (List Char)}
      (isPlain : IsPlainCode cs) (isText : IsLiteralText literal) (behind : IsCode literals code) :
      IsCode (literal :: literals) (cs ++ '"' :: (literal ++ '"' :: code))

/-- No comment opens in code exactly if none opens in its literals. -/
theorem IsCode.opensNone_iff (h : IsCode literals code) :
    OpensNone code ↔ ∀ literal ∈ literals, OpensNone literal := by
  induction h with
  | plain isPlain => simp [isPlain.opensNone]
  | literal isPlain _ _ ih =>
    rw [opensNone_append_cons_iff (by decide) (by decide),
      opensNone_append_cons_iff (by decide) (by decide), ih, List.forall_mem_cons,
      and_iff_right isPlain.opensNone]

/-! ## Marks in literals -/

/-- The first mark that opens a comment in some code stands in a literal: the code in front of the
mark, the mark, the rest of the literal, and the code behind the literal. -/
structure OpensInLiteral (literals : List (List Char)) (code lead mark inner behind : List Char) :
    Prop where
  isMark : mark = ['/', '/'] ∨ mark = ['/', '*']
  isLead : IsLead lead
  code_eq : code = lead ++ (mark ++ (inner ++ '"' :: behind))
  inLiteral : ∃ literal ∈ literals, mark ++ inner <:+ literal

theorem IsLead.append_cons {cs : List Char} {c : Char} (hslash : c ≠ '/') (hstar : c ≠ '*')
    (hcs : OpensNone cs) (h : IsLead code) : IsLead (cs ++ c :: code) := by
  refine ⟨(opensNone_append_cons_iff hslash hstar).2 ⟨hcs, h.opensNone⟩, ?_⟩
  cases hlast : code.getLast? with
  | none =>
    rw [List.getLast?_eq_none_iff] at hlast
    simpa [hlast] using hslash
  | some d =>
    have hd : d ≠ '/' := fun hd => h.no_slash (hd ▸ hlast)
    simpa [List.getLast?_cons, hlast] using hd

theorem StartsComment.exists_mark (h : StartsComment text body after) :
    ∃ mark inner, (mark = ['/', '/'] ∨ mark = ['/', '*']) ∧ text = mark ++ inner := by
  cases h with
  | line => exact ⟨_, _, Or.inl rfl, rfl⟩
  | block => exact ⟨_, _, Or.inr rfl, rfl⟩
  | openBlock => exact ⟨_, _, Or.inr rfl, rfl⟩

theorem IsCode.exists_opensInLiteral (h : IsCode literals code)
    (hopens : ∃ literal ∈ literals, ¬ OpensNone literal) :
    ∃ lead mark inner behind, OpensInLiteral literals code lead mark inner behind := by
  induction h with
  | plain => simp at hopens
  | @literal cs literal code literals isPlain _ _ ih =>
    by_cases hnone : OpensNone literal
    -- The mark is in a later literal.
    · have hlater : ∃ other ∈ literals, ¬ OpensNone other := by
        rcases hopens with ⟨other, hother, hne⟩
        rcases List.mem_cons.1 hother with rfl | hother
        · exact absurd hnone hne
        · exact ⟨other, hother, hne⟩
      rcases ih hlater with ⟨lead, mark, inner, behind, hmark, hlead, rfl, other, hother, hsuffix⟩
      have hquoted : IsLead (literal ++ '"' :: lead) :=
        hlead.append_cons (by decide) (by decide) hnone
      exact ⟨cs ++ '"' :: (literal ++ '"' :: lead), mark, inner, behind, hmark,
        hquoted.append_cons (by decide) (by decide) isPlain.opensNone, by simp, other,
        List.mem_cons_of_mem literal hother, hsuffix⟩
    -- The mark is in this literal, of which a part stands in front of it.
    · have hcomment : commentText? literal ≠ none := fun hnil =>
        hnone (commentText?_eq_none_iff.1 hnil)
      rcases Option.ne_none_iff_exists'.1 hcomment with ⟨body, hbody⟩
      rcases commentText?_eq_some_iff.1 hbody with ⟨front, text, after, rfl, hfront, hstarts⟩
      rcases hstarts.exists_mark with ⟨mark, inner, hmark, rfl⟩
      exact ⟨cs ++ '"' :: front, mark, inner, code, hmark,
        hfront.append_cons (by decide) (by decide) isPlain.opensNone, by simp, _,
        List.mem_cons_self, List.suffix_append front _⟩

/-! ## Directives behind code -/

/-- If no comment opens in the literals of code, there is no directive in the code, and behind it
the directive of the comment is read. Otherwise the first mark in a literal counts, and what is read
is what stands behind that mark, the end of the literal and all that follows it included. -/
theorem parse?_of_isCode (h : IsCode literals code) :
    ((∀ literal ∈ literals, OpensNone literal) →
      parse? code = none ∧
      ∀ comment, parse? (code ++ ' ' :: '/' :: '/' :: comment) = parse? ('/' :: '/' :: comment)) ∧
    ((∃ literal ∈ literals, ¬ OpensNone literal) →
      ∃ lead mark inner behind, OpensInLiteral literals code lead mark inner behind ∧
        ∀ tail, parse? (code ++ tail) =
          parse? (mark ++ (inner ++ '"' :: (behind ++ tail)))) := by
  constructor
  · intro hnone
    have hcode : OpensNone code := h.opensNone_iff.2 hnone
    refine ⟨?_, ?_⟩
    · rw [parse?, commentText?_eq_none_iff.2 hcode]
      rfl
    · intro comment
      have hlead : IsLead (code ++ [' ']) := isLead_nil.append_cons (by decide) (by decide) hcode
      have hspace : code ++ ' ' :: '/' :: '/' :: comment =
          (code ++ [' ']) ++ '/' :: '/' :: comment := by simp
      rw [hspace, parse?, commentText?_append_of_isLead hlead, ← parse?]
  · intro hopens
    rcases h.exists_opensInLiteral hopens with ⟨lead, mark, inner, behind, hliteral⟩
    refine ⟨lead, mark, inner, behind, hliteral, ?_⟩
    intro tail
    have hcode : code ++ tail = lead ++ (mark ++ (inner ++ '"' :: (behind ++ tail))) := by
      rw [hliteral.code_eq]
      simp
    rw [hcode, parse?, commentText?_append_of_isLead hliteral.isLead, ← parse?]

/-- Code that declares a text, which stands in a literal. -/
theorem isCode_declaration {literal : List Char} (h : IsLiteralText literal) :
    IsCode [literal] ("let u = ".toList ++ '"' :: (literal ++ '"' :: ";".toList)) := by
  have hstart : IsPlainCode "let u = ".toList := ⟨by simp, by decide⟩
  have hend : IsPlainCode ";".toList := ⟨by simp, by decide⟩
  exact .literal hstart h (.plain hend)

/-- A single slash in a literal hides no directive. -/
theorem parse?_slash_in_literal :
    IsCode ["http:/x".toList] "let u = \"http:/x\";".toList ∧
      (∀ literal ∈ ["http:/x".toList], OpensNone literal) ∧
      parse? "let u = \"http:/x\"; // typeban: allow(all)".toList = some ⟨["all"], none⟩ := by
  have hcode : IsCode ["http:/x".toList] "let u = \"http:/x\";".toList :=
    isCode_declaration ⟨by decide, by decide⟩
  have hnone : ∀ literal ∈ ["http:/x".toList], OpensNone literal := by decide
  have hcomment : parse? "// typeban: allow(all)".toList = some ⟨["all"], none⟩ := by decide
  refine ⟨hcode, hnone, ?_⟩
  rw [← hcomment]
  exact ((parse?_of_isCode hcode).1 hnone).2 " typeban: allow(all)".toList

/-- An address in a literal hides the directive of the comment, and a literal with the text of a
comment is read as a directive, although no comment follows. -/
theorem parse?_mark_in_literal :
    IsCode ["http://x".toList] "let u = \"http://x\";".toList ∧
      parse? "let u = \"http://x\"; // typeban: allow(all)".toList = none ∧
      parse? "// typeban: allow(all)".toList = some ⟨["all"], none⟩ ∧
      IsCode ["// typeban: allow(all)".toList] "let u = \"// typeban: allow(all)\";".toList ∧
      parse? "let u = \"// typeban: allow(all)\";".toList = some ⟨["all"], none⟩ :=
  ⟨isCode_declaration ⟨by decide, by decide⟩, by decide, by decide,
    isCode_declaration ⟨by decide, by decide⟩, by decide⟩

end Directive
end TypeNameLint
