import TypeNameLint.Proofs.Directive.Reach

/-!
# NextLine — what a line says about the next one

A directive exempts the next line too if only blanks stand in front of its comment. What stands
behind the comment on the same line is not looked at. This file defines:

* `Directive.StandsIn`: a directive in the comment of a line, with the code in front and behind.

The main result is `exemption_below_line`.
-/

namespace TypeNameLint

variable {content : String} {rule : String} {before line rest code text body after : List Char}
variable {d : Directive}

namespace Directive

/-- A directive stands in the first comment of a line, with code in front of the comment and behind
it. -/
inductive StandsIn (d : Directive) : List Char → List Char → List Char → Prop
  | mk {code text body after : List Char} (lead : IsLead code)
      (starts : StartsComment text body after) (reads : ofComment? body = some d) :
      StandsIn d (code ++ text) code after

/-- The directive that is read in a line stands in it. -/
theorem parse?_eq_some_iff : parse? line = some d ↔ ∃ code after, d.StandsIn line code after := by
  constructor
  · intro h
    rcases Option.bind_eq_some_iff.1 h with ⟨body, hcomment, hreads⟩
    rcases commentText?_eq_some_iff.1 hcomment with ⟨code, text, after, rfl, hlead, hstarts⟩
    exact ⟨code, after, .mk hlead hstarts hreads⟩
  · rintro ⟨code, after, hstands⟩
    cases hstands with
    | mk lead starts reads => rw [parse?_of_startsComment lead starts, reads]

/-! ## Lines that start with a comment -/

theorem startsWithComment_iff :
    startsWithComment line = true ↔
      ∃ c cs, Text.trimStart line = c :: cs ∧ OpensAt c cs := by
  have hstarts : startsWithComment line = true ↔
      ['/', '/'] <+: Text.trimStart line ∨ ['/', '*'] <+: Text.trimStart line := by
    simp only [startsWithComment, Bool.or_eq_true, Text.startsWith_iff_prefix]
  rw [hstarts]
  cases Text.trimStart line with
  | nil => simp
  | cons c cs =>
    rw [pair_prefix_cons_iff, pair_prefix_cons_iff, ← and_or_left]
    constructor
    · intro hopens
      exact ⟨c, cs, rfl, hopens⟩
    · rintro ⟨_, _, heq, hopens⟩
      cases heq
      exact hopens

/-- A line starts with its comment if there are only blanks in front of that. -/
theorem startsWithComment_append_iff (hlead : IsLead code)
    (hstarts : StartsComment text body after) :
    startsWithComment (code ++ text) = true ↔ Text.AllBlank code := by
  rw [startsWithComment_iff]
  constructor
  · rintro ⟨c, cs, htrim, hopens⟩
    by_cases hcode : Text.AllBlank code
    · exact hcode
    -- Otherwise code is left, and its first character opens no comment.
    · rw [Text.trimStart_append_of_not_allBlank hcode] at htrim
      cases hrest : Text.trimStart code with
      | nil => exact Text.trimStart_eq_nil_iff.1 hrest
      | cons e code' =>
        have hsuffix : e :: code' <:+ code := by
          rw [← hrest]
          exact List.dropWhile_suffix _
        rw [hrest] at htrim
        cases htrim
        exact absurd hopens (hlead.of_suffix hsuffix).not_opensAt
  · intro hcode
    rw [Text.trimStart_append_of_allBlank hcode]
    cases hstarts with
    | line => exact ⟨'/', _, Text.trimStart_cons (by decide), rfl, Or.inl rfl⟩
    | block => exact ⟨'/', _, Text.trimStart_cons (by decide), rfl, Or.inr rfl⟩
    | openBlock => exact ⟨'/', _, Text.trimStart_cons (by decide), rfl, Or.inr rfl⟩

theorem coveringBelow?_eq_none (h : ∀ d, parse? line = some d → d.covers rule = false) :
    coveringBelow? rule line = none := by
  have hnone : covering? rule line = none := by
    cases hparse : parse? line with
    | none => simp [covering?, hparse]
    | some d => simp [covering?, hparse, h d hparse]
  rw [coveringBelow?, hnone, ite_self]

theorem StandsIn.coveringBelow?_of_not_allBlank (h : d.StandsIn line code after)
    (hcode : ¬ Text.AllBlank code) : coveringBelow? rule line = none := by
  cases h with
  | mk lead starts reads =>
    rw [coveringBelow?, if_neg]
    exact fun hstarts => hcode ((startsWithComment_append_iff lead starts).1 hstarts)

theorem StandsIn.coveringBelow?_of_allBlank (h : d.StandsIn line code after)
    (hcode : Text.AllBlank code) (hcovers : d.covers rule = true) :
    coveringBelow? rule line = some d := by
  have hparse := parse?_eq_some_iff.2 ⟨code, after, h⟩
  cases h with
  | mk lead starts reads =>
    rw [coveringBelow?, if_pos ((startsWithComment_append_iff lead starts).2 hcode), covering?,
      hparse]
    simp [hcovers]

end Directive

/-! ## The next line -/

/-- What a line says about the next one counts before what the next one says itself. -/
theorem exemption_of_isLine (h : Text.IsLine content.toList before line rest) (rule : String) :
    exemption content (before.count '\n' + 2) rule = .ofDirective?
      ((Directive.coveringBelow? rule line).or
        ((Text.lines (rest.drop 1)).head?.bind (Directive.covering? rule))) := by
  rcases Text.exists_blanks_lineText line rest with ⟨blanks, hblanks, hline⟩
  have habove : Directive.coveringBelow? rule (Text.lineText line rest) =
      Directive.coveringBelow? rule line := by
    rw [← Directive.coveringBelow?_append_of_allBlank hblanks, ← hline]
  rw [exemption_succ, h.bind_getElem?_lines (Directive.coveringBelow?_nil rule),
    h.getElem?_lines_succ, habove]

/-- A line is replaced by an empty one. -/
theorem exemption_emptied (h : Text.IsLine content.toList before line rest) (rule : String) :
    exemption (String.ofList (before ++ rest)) (before.count '\n' + 2) rule = .ofDirective?
      ((Text.lines (rest.drop 1)).head?.bind (Directive.covering? rule)) := by
  have hempty : Text.IsLine (String.ofList (before ++ rest)).toList before [] rest :=
    ⟨by simp, h.starts, by simp, h.ends⟩
  rw [exemption_of_isLine hempty, Directive.coveringBelow?_nil, Option.none_or]

/-- A line without a directive for a rule, and one with code in front of its comment, say as much
about the next line as an empty one. With only blanks in front of the comment the directive
exempts the next line, whatever code stands behind the comment. -/
theorem exemption_below_line (h : Text.IsLine content.toList before line rest) (rule : String) :
    ((∀ d, Directive.parse? line = some d → d.covers rule = false) →
      exemption content (before.count '\n' + 2) rule =
        exemption (String.ofList (before ++ rest)) (before.count '\n' + 2) rule) ∧
    ∀ (d : Directive) (code after : List Char),
      d.StandsIn line code after → d.covers rule = true →
      (¬ Text.AllBlank code →
        exemption content (before.count '\n' + 2) rule =
          exemption (String.ofList (before ++ rest)) (before.count '\n' + 2) rule) ∧
      (Text.AllBlank code →
        exemption content (before.count '\n' + 2) rule = .allowed d.reason) := by
  have hsame : Directive.coveringBelow? rule line = none →
      exemption content (before.count '\n' + 2) rule =
        exemption (String.ofList (before ++ rest)) (before.count '\n' + 2) rule := by
    intro hnone
    rw [exemption_of_isLine h, exemption_emptied h, hnone, Option.none_or]
  refine ⟨fun hnone => hsame (Directive.coveringBelow?_eq_none hnone), ?_⟩
  intro d code after hstands hcovers
  refine ⟨fun hcode => hsame (hstands.coveringBelow?_of_not_allBlank hcode), ?_⟩
  intro hcode
  rw [exemption_of_isLine h, hstands.coveringBelow?_of_allBlank hcode hcovers]
  rfl

/-- Code in front of the directive of the first line. -/
def codeFirstText : String :=
  "let a: A; // typeban: allow(all)\nlet b: B;\n"

/-- Code behind the directive of the first line. -/
def codeLastText : String :=
  "/* typeban: allow(all) */ let a: A;\nlet b: B;\n"

/-- A directive for all rules without a reason. -/
def allowAll : Directive :=
  ⟨["all"], none⟩

/-- With code in front of the directive the second line is not exempt, as if the first were
empty. -/
theorem exemption_codeFirstText :
    Text.IsLine codeFirstText.toList [] "let a: A; // typeban: allow(all)".toList
        "\nlet b: B;\n".toList ∧
      allowAll.StandsIn "let a: A; // typeban: allow(all)".toList "let a: A; ".toList [] ∧
      allowAll.covers "ban-types" = true ∧ ¬ Text.AllBlank "let a: A; ".toList ∧
      exemption codeFirstText 2 "ban-types" = exemption "\nlet b: B;\n" 2 "ban-types" := by
  have hline : Text.IsLine codeFirstText.toList [] "let a: A; // typeban: allow(all)".toList
      "\nlet b: B;\n".toList := ⟨rfl, Or.inl rfl, by decide, Or.inr rfl⟩
  have hlead : Directive.IsLead "let a: A; ".toList := by decide
  have hstands :
      allowAll.StandsIn "let a: A; // typeban: allow(all)".toList "let a: A; ".toList [] :=
    .mk hlead (.line " typeban: allow(all)".toList) (by decide)
  have hcovers : allowAll.covers "ban-types" = true := by decide
  have hcode : ¬ Text.AllBlank "let a: A; ".toList := by decide
  refine ⟨hline, hstands, hcovers, hcode, ?_⟩
  exact ((exemption_below_line hline "ban-types").2 _ _ _ hstands hcovers).1 hcode

/-- With code behind the directive the second line is exempt, which it is not if the first line is
empty. -/
theorem exemption_codeLastText :
    Text.IsLine codeLastText.toList [] "/* typeban: allow(all) */ let a: A;".toList
        "\nlet b: B;\n".toList ∧
      allowAll.StandsIn "/* typeban: allow(all) */ let a: A;".toList [] " let a: A;".toList ∧
      ¬ Text.AllBlank " let a: A;".toList ∧
      exemption codeLastText 2 "ban-types" = .allowed none ∧
      exemption "\nlet b: B;\n" 2 "ban-types" = .denied := by
  have hopen : ¬ ['*', '/'] <:+: " typeban: allow(all) ".toList := by
    rw [← Text.contains_iff_infix]
    decide
  exact ⟨⟨rfl, Or.inl rfl, by decide, Or.inr rfl⟩,
    .mk Directive.isLead_nil (.block " let a: A;".toList hopen) (by decide), by decide, by decide,
    by decide⟩

end TypeNameLint
