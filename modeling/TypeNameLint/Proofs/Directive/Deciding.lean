import TypeNameLint.Proofs.Directive.NextLine

/-!
# Deciding — which directive decides about a line

Two lines can exempt a line from a rule: the one above it, if only blanks stand in front of its
comment, and the line itself. If both do, the directive of the line above decides. The line behind
the last one has a line above it too, so there the last line decides. This file defines:

* `Text.line?`: the line of a number, counted from one;
* `Directive.ExemptsBelow`: a directive with which a line exempts the one below it;
* `Directive.IsAbove`, `Directive.IsOn`: the directives that can exempt a line;
* `Directive.Decides`: the one of them that does.

The main results are `exemption_eq_allowed_iff` and `exemption_beyond_lines`.
-/

namespace TypeNameLint

/-! ## Lines by their numbers -/

namespace Text

variable {cs : List Char} {number : Nat}

/-- The line of a number, counted from one. -/
def line? (cs : List Char) : Nat → Option (List Char)
  | 0 => none
  | index + 1 => (lines cs)[index]?

theorem line?_eq_none_iff : line? cs number = none ↔ number = 0 ∨ (lines cs).length < number := by
  cases number with
  | zero => simp [line?]
  | succ index =>
    rw [line?, List.getElem?_eq_none_iff]
    omega

theorem line?_length (cs : List Char) : line? cs (lines cs).length = (lines cs).getLast? := by
  rw [List.getLast?_eq_getElem?]
  cases hlength : (lines cs).length with
  | zero => simp [line?, List.length_eq_zero_iff.1 hlength]
  | succ index => rfl

end Text

variable {content rule : String} {number : Nat} {line : List Char} {d : Directive}
variable {reason : Option String}

/-! ## The directives that can exempt a line -/

namespace Directive

/-- A directive with which a line exempts the one below it from a rule: it covers the rule, and only
blanks stand in front of its comment. -/
def ExemptsBelow (d : Directive) (rule : String) (line : List Char) : Prop :=
  ∃ code after, d.StandsIn line code after ∧ Text.AllBlank code ∧ d.covers rule = true

theorem covering?_eq_some_iff :
    covering? rule line = some d ↔ parse? line = some d ∧ d.covers rule = true := by
  rw [covering?, Option.filter_eq_some_iff]

theorem coveringBelow?_eq_some_iff :
    coveringBelow? rule line = some d ↔ d.ExemptsBelow rule line := by
  constructor
  · intro h
    rw [coveringBelow?] at h
    split at h
    · rename_i hstarts
      rcases covering?_eq_some_iff.1 h with ⟨hparse, hcovers⟩
      rcases parse?_eq_some_iff.1 hparse with ⟨code, after, hstands⟩
      refine ⟨code, after, hstands, ?_, hcovers⟩
      cases hstands with
      | mk lead starts reads => exact (startsWithComment_append_iff lead starts).1 hstarts
    · cases h
  · rintro ⟨code, after, hstands, hcode, hcovers⟩
    exact hstands.coveringBelow?_of_allBlank hcode hcovers

/-- A directive of the line above exempts the line of a number. -/
def IsAbove (d : Directive) (content : String) (number : Nat) (rule : String) : Prop :=
  ∃ above, Text.line? content.toList (number - 1) = some above ∧ d.ExemptsBelow rule above

/-- A directive on the line of a number exempts that line. -/
def IsOn (d : Directive) (content : String) (number : Nat) (rule : String) : Prop :=
  ∃ own, Text.line? content.toList number = some own ∧ parse? own = some d ∧
    d.covers rule = true

/-- The directive that decides about the line of a number. -/
inductive Decides (content : String) (number : Nat) (rule : String) : Directive → Prop
  | above {d : Directive} (isAbove : d.IsAbove content number rule) :
      Decides content number rule d
  | own {d : Directive} (isOn : d.IsOn content number rule)
      (none_above : ∀ e : Directive, ¬ e.IsAbove content number rule) :
      Decides content number rule d

theorem isAbove_iff :
    d.IsAbove content number rule ↔
      (Text.line? content.toList (number - 1)).bind (coveringBelow? rule) = some d := by
  simp only [IsAbove, Option.bind_eq_some_iff, coveringBelow?_eq_some_iff]

theorem isOn_iff :
    d.IsOn content number rule ↔
      (Text.line? content.toList number).bind (covering? rule) = some d := by
  simp only [IsOn, Option.bind_eq_some_iff, covering?_eq_some_iff]

theorem decides_iff :
    Decides content number rule d ↔
      ((Text.line? content.toList (number - 1)).bind (coveringBelow? rule)).or
        ((Text.line? content.toList number).bind (covering? rule)) = some d := by
  rw [Option.or_eq_some_iff, ← isAbove_iff, ← isOn_iff, Option.eq_none_iff_forall_ne_some]
  simp only [ne_eq, ← isAbove_iff]
  constructor
  · rintro (habove | ⟨hown, hnone⟩)
    · exact Or.inl habove
    · exact Or.inr ⟨hnone, hown⟩
  · rintro (habove | ⟨hnone, hown⟩)
    · exact .above habove
    · exact .own hown hnone

end Directive

/-! ## The exemption of a line -/

/-- Every line is searched in the same way, as there is no line in front of the first one. -/
theorem exemption_eq_or (content : String) (number : Nat) (rule : String) :
    exemption content number rule = .ofDirective?
      (((Text.line? content.toList (number - 1)).bind (Directive.coveringBelow? rule)).or
        ((Text.line? content.toList number).bind (Directive.covering? rule))) := by
  match number with
  | 0 => rfl
  | 1 =>
    rw [exemption_one]
    rfl
  | index + 2 =>
    rw [exemption_succ]
    rfl

theorem exemption_eq_allowed_iff :
    exemption content number rule = .allowed reason ↔
      ∃ d, Directive.Decides content number rule d ∧ d.reason = reason := by
  rw [exemption_eq_or, Exemption.ofDirective?_eq_allowed_iff]
  simp only [Directive.decides_iff]

theorem exemption_eq_denied_iff :
    exemption content number rule = .denied ↔
      ∀ d, ¬ Directive.Decides content number rule d := by
  rw [exemption_eq_or, Exemption.ofDirective?_eq_denied_iff, Option.eq_none_iff_forall_ne_some]
  simp only [ne_eq, Directive.decides_iff]

/-! ## Lines that do not exist -/

/-- About a line that does not exist only a line above it can decide. -/
theorem decides_beyond_lines_iff
    (h : number = 0 ∨ (Text.lines content.toList).length < number) :
    Directive.Decides content number rule d ↔
      number = (Text.lines content.toList).length + 1 ∧
        ∃ last, (Text.lines content.toList).getLast? = some last ∧ d.ExemptsBelow rule last := by
  have hnone : ∀ e : Directive, ¬ e.IsOn content number rule := by
    rintro e ⟨own, hown, -⟩
    rw [Text.line?_eq_none_iff.2 h] at hown
    cases hown
  constructor
  · rintro (⟨above, habove, hexempts⟩ | ⟨hown, -⟩)
    · have hlisted : ¬ (number - 1 = 0 ∨ (Text.lines content.toList).length < number - 1) := by
        rw [← Text.line?_eq_none_iff, habove]
        exact Option.some_ne_none above
      have hnumber : number = (Text.lines content.toList).length + 1 := by omega
      refine ⟨hnumber, above, ?_, hexempts⟩
      rw [← habove, hnumber, Nat.add_sub_cancel, Text.line?_length]
    · exact absurd hown (hnone d)
  · rintro ⟨rfl, last, hlast, hexempts⟩
    refine .above ⟨last, ?_, hexempts⟩
    rw [Nat.add_sub_cancel, Text.line?_length, hlast]

/-- A line that does not exist is not exempt from any rule, with one exception: the line behind the
last one is exempt if the last line has a directive that exempts the line below. It is the line of
what starts at the end of a text, and no location has a line that is farther away. -/
theorem exemption_beyond_lines (content rule : String) (number : Nat)
    (h : number = 0 ∨ (Text.lines content.toList).length < number) :
    (number ≠ (Text.lines content.toList).length + 1 →
      exemption content number rule = .denied) ∧
    (number = (Text.lines content.toList).length + 1 →
      (∀ last (d : Directive), (Text.lines content.toList).getLast? = some last →
        d.ExemptsBelow rule last → exemption content number rule = .allowed d.reason) ∧
      ((∀ last (d : Directive), (Text.lines content.toList).getLast? = some last →
        ¬ d.ExemptsBelow rule last) → exemption content number rule = .denied)) ∧
    ∀ file label, (locationOf file content.toList label).line = number →
      number = (Text.lines content.toList).length + 1 ∧
        Text.byteLength content.toList ≤ label.start := by
  refine ⟨?_, ?_, ?_⟩
  · intro hother
    rw [exemption_eq_denied_iff]
    intro d hdecides
    exact hother ((decides_beyond_lines_iff h).1 hdecides).1
  · intro hnumber
    refine ⟨?_, ?_⟩
    · intro last d hlast hexempts
      rw [exemption_eq_allowed_iff]
      exact ⟨d, (decides_beyond_lines_iff h).2 ⟨hnumber, last, hlast, hexempts⟩, rfl⟩
    · intro hnone
      rw [exemption_eq_denied_iff]
      intro d hdecides
      rcases (decides_beyond_lines_iff h).1 hdecides with ⟨-, last, hlast, hexempts⟩
      exact hnone last d hlast hexempts
  · intro file label hline
    have hrow : (Text.positionAt content.toList label.start).row + 1 = number := hline
    have hle := Text.row_le_length_lines content.toList label.start
    refine ⟨by omega, Nat.le_of_not_lt fun hinside => ?_⟩
    have hlt := Text.row_lt_length_lines hinside
    omega

/-- A last line with code in front of its directive. -/
def codeAtEndText : String :=
  "let a;\nlet b: B; // typeban: allow(all)\n"

/-- A last line with nothing but its directive. -/
def commentAtEndText : String :=
  "let a;\n// typeban: allow(all)\n"

/-- With code in front of it the directive of the last line does not exempt what follows. -/
theorem exemption_codeAtEndText :
    (Text.lines codeAtEndText.toList).length = 2 ∧ exemption codeAtEndText 3 "ban-types" = .denied ∧
      exemption codeAtEndText 0 "ban-types" = .denied := by
  have hlength : (Text.lines codeAtEndText.toList).length = 2 := by decide
  have hbeyond : (Text.lines codeAtEndText.toList).length < 3 := by rw [hlength]; decide
  have hlast : (Text.lines codeAtEndText.toList).getLast? =
      some "let b: B; // typeban: allow(all)".toList := by decide
  have hnone : ∀ last (d : Directive), (Text.lines codeAtEndText.toList).getLast? = some last →
      ¬ d.ExemptsBelow "ban-types" last := by
    intro last d hsame hexempts
    rw [hlast, Option.some.injEq] at hsame
    rw [← hsame, ← Directive.coveringBelow?_eq_some_iff] at hexempts
    have hcode : Directive.coveringBelow? "ban-types" "let b: B; // typeban: allow(all)".toList =
      none := by decide
    rw [hcode] at hexempts
    cases hexempts
  refine ⟨hlength, ?_, ?_⟩
  · exact ((exemption_beyond_lines codeAtEndText "ban-types" 3 (Or.inr hbeyond)).2.1
      (by rw [hlength])).2 hnone
  · exact (exemption_beyond_lines codeAtEndText "ban-types" 0 (Or.inl rfl)).1 (by decide)

/-- A directive alone on the last line exempts the line behind it, which does not exist, although a
node that is missing at the end of the text is there. -/
theorem exemption_commentAtEndText :
    (Text.lines commentAtEndText.toList).length = 2 ∧
      (locationOf ⟨"a.ts"⟩ commentAtEndText.toList ⟨"type_identifier", none, 30, 30⟩).line = 3 ∧
      exemption commentAtEndText 3 "ban-types" = .allowed none :=
  ⟨by decide, by decide, by decide⟩

end TypeNameLint
