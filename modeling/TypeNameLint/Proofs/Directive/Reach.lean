import TypeNameLint.Proofs.Directive.Comments
import TypeNameLint.Proofs.Text.LineEnds
import TypeNameLint.Tree.TypeUse

/-!
# Reach — the lines that a directive exempts

Whether a line is exempt depends on that line and the one above it, and on the latter only if it
starts with its comment. This file defines:

* `Directive.covering?`, `Directive.coveringBelow?`: the directive of a line that exempts it, or
  the line below;
* `exemptionOfLines`: what is said about a line in a text of this line and the one above;
* `LinesAt`: the line that holds the byte at an offset, and the line above;
* `Location.IsOnLine`: a location that agrees with the lines as they are listed.

The main result is `exemption_linesAt`, what is said about the line of a node.
-/

namespace TypeNameLint

variable {content : String} {rule : String} {before line rest own blanks : List Char}
variable {offset index : Nat}

/-! ## Two lines -/

namespace Directive

/-- The directive of a line, if it covers a rule. -/
def covering? (rule : String) (line : List Char) : Option Directive :=
  (parse? line).filter fun directive => directive.covers rule

/-- The directive with which a line exempts the one below it from a rule. -/
def coveringBelow? (rule : String) (line : List Char) : Option Directive :=
  if startsWithComment line then covering? rule line else none

theorem covering?_nil (rule : String) : covering? rule [] = none := rfl

theorem coveringBelow?_nil (rule : String) : coveringBelow? rule [] = none := rfl

theorem covering?_append_of_allBlank (h : Text.AllBlank blanks) :
    covering? rule (line ++ blanks) = covering? rule line := by
  rw [covering?, covering?, parse?_append_of_allBlank h]

theorem startsWithComment_append_of_allBlank (h : Text.AllBlank blanks) :
    startsWithComment (line ++ blanks) = startsWithComment line := by
  simp only [startsWithComment, Text.startsWith,
    Text.stripStart?_trimStart_append h (by decide : ['/', '/'] ≠ []) (by decide),
    Text.stripStart?_trimStart_append h (by decide : ['/', '*'] ≠ []) (by decide),
    Option.isSome_map]

theorem coveringBelow?_append_of_allBlank (h : Text.AllBlank blanks) :
    coveringBelow? rule (line ++ blanks) = coveringBelow? rule line := by
  rw [coveringBelow?, coveringBelow?, startsWithComment_append_of_allBlank h,
    covering?_append_of_allBlank h]

theorem coveringBelow?_dropReturn (rule : String) (line : List Char) :
    coveringBelow? rule (Text.dropReturn line) = coveringBelow? rule line := by
  rcases Text.exists_blanks_dropReturn line with ⟨blanks, hblanks, hline⟩
  calc
    coveringBelow? rule (Text.dropReturn line)
        = coveringBelow? rule (Text.dropReturn line ++ blanks) :=
          (coveringBelow?_append_of_allBlank hblanks).symm
    _ = coveringBelow? rule line := by rw [← hline]

theorem find?_parse?_toList (line? : Option (List Char)) :
    (line?.toList.filterMap parse?).find? (fun directive => directive.covers rule) =
      line?.bind (covering? rule) := by
  cases line? with
  | none => rfl
  | some line => cases hline : parse? line <;> simp [covering?, hline, Option.filter]

theorem find?_parse?_filter (line? : Option (List Char)) :
    ((line?.toList.filter startsWithComment).filterMap parse?).find?
        (fun directive => directive.covers rule) = line?.bind (coveringBelow? rule) := by
  cases line? with
  | none => rfl
  | some line =>
    cases hstarts : startsWithComment line with
    | false => simp [coveringBelow?, hstarts]
    | true =>
      have hfilter : (some line).toList.filter startsWithComment = (some line).toList := by
        simp [hstarts]
      rw [hfilter, find?_parse?_toList]
      simp [coveringBelow?, hstarts]

end Directive

namespace Exemption

/-- What a directive says about a line that it exempts, and what is said without one. -/
def ofDirective? : Option Directive → Exemption
  | none => denied
  | some directive => allowed directive.reason

theorem ofDirective?_eq_allowed_iff {found : Option Directive} {reason : Option String} :
    ofDirective? found = allowed reason ↔ ∃ d, found = some d ∧ d.reason = reason := by
  cases found with
  | none => simp [ofDirective?]
  | some d => simp [ofDirective?]

theorem ofDirective?_eq_denied_iff {found : Option Directive} :
    ofDirective? found = denied ↔ found = none := by
  cases found with
  | none => simp [ofDirective?]
  | some d => simp [ofDirective?]

end Exemption

theorem exemption_eq_ofDirective? (content : String) (index : Nat) (rule : String) :
    exemption content (index + 1) rule = .ofDirective?
      (((exemptingLines (Text.lines content.toList) index).filterMap Directive.parse?).find?
        fun directive => directive.covers rule) := by
  rw [exemption]
  split <;> rename_i hfound <;> rw [hfound] <;> rfl

/-- The first line has none above it. -/
theorem exemption_one (content : String) (rule : String) :
    exemption content 1 rule = .ofDirective?
      ((Text.lines content.toList)[0]?.bind (Directive.covering? rule)) := by
  rw [exemption_eq_ofDirective?, exemptingLines, if_pos rfl, List.filter_nil, List.nil_append,
    Directive.find?_parse?_toList]

/-- On any other line the one above counts first, then the line itself. -/
theorem exemption_succ (content : String) (index : Nat) (rule : String) :
    exemption content (index + 2) rule = .ofDirective?
      (((Text.lines content.toList)[index]?.bind (Directive.coveringBelow? rule)).or
        ((Text.lines content.toList)[index + 1]?.bind (Directive.covering? rule))) := by
  rw [exemption_eq_ofDirective?, exemptingLines, if_neg (Nat.succ_ne_zero index),
    Nat.add_sub_cancel, List.filterMap_append, List.find?_append, Directive.find?_parse?_toList,
    Directive.find?_parse?_filter]

/-! ## The line of an offset -/

/-- What is said about the last one of one or two lines. -/
def exemptionOfLines (rule : String) : Option (List Char) → List Char → Exemption
  | none, own => exemption (String.ofList own) 1 rule
  | some above, own => exemption (String.ofList (above ++ '\n' :: own)) 2 rule

/-- The text in front of the line that holds the byte at an offset, the line above it, if there is
one, and the line itself. The line above may be taken with the carriage return that ends it. -/
inductive LinesAt (cs : List Char) (offset : Nat) :
    List Char → Option (List Char) → List Char → Prop
  | first {line rest : List Char} (isLine : Text.IsLine cs [] line rest)
      (holds : Text.HoldsOffset [] line rest offset) :
      LinesAt cs offset [] none (Text.lineText line rest)
  | below {front prev above line rest : List Char}
      (isAbove : Text.IsLine cs front prev ('\n' :: (line ++ rest)))
      (isLine : Text.IsLine cs (front ++ prev ++ ['\n']) line rest)
      (holds : Text.HoldsOffset (front ++ prev ++ ['\n']) line rest offset)
      (above_eq : above = prev ∨ above = Text.dropReturn prev) :
      LinesAt cs offset (front ++ prev ++ ['\n']) (some above) (Text.lineText line rest)

namespace LinesAt

variable {cs : List Char} {above : Option (List Char)}

theorem exists_of_lt (h : offset < Text.byteLength cs) :
    ∃ before above own, LinesAt cs offset before above own := by
  rcases Text.exists_isLine_of_lt h with ⟨before, line, rest, hline, hholds⟩
  rcases hline.eq_nil_or_exists_above with rfl | ⟨front, prev, rfl, habove⟩
  · exact ⟨_, _, _, .first hline hholds⟩
  · exact ⟨_, _, _, .below habove hline hholds (Or.inl rfl)⟩

theorem exists_isLine (h : LinesAt cs offset before above own) :
    ∃ line rest, Text.IsLine cs before line rest ∧ Text.HoldsOffset before line rest offset ∧
      own = Text.lineText line rest := by
  cases h with
  | first isLine holds => exact ⟨_, _, isLine, holds, rfl⟩
  | below _ isLine holds _ => exact ⟨_, _, isLine, holds, rfl⟩

end LinesAt

/-- On the first line only that line counts. -/
theorem exemption_firstLine (h : Text.IsLine content.toList [] line rest) (rule : String) :
    exemption content 1 rule =
      .ofDirective? (Directive.covering? rule (Text.lineText line rest)) := by
  rw [exemption_one]
  exact congrArg _ (h.bind_getElem?_lines (Directive.covering?_nil rule))

/-- On a line with another one above it these two count. -/
theorem exemption_lineBelow {front above : List Char}
    (habove : Text.IsLine content.toList front above ('\n' :: (line ++ rest)))
    (hline : Text.IsLine content.toList (front ++ above ++ ['\n']) line rest) (rule : String) :
    exemption content (front.count '\n' + 2) rule = .ofDirective?
      ((Directive.coveringBelow? rule above).or
        (Directive.covering? rule (Text.lineText line rest))) := by
  have hbelow := habove.bind_getElem?_lines (Directive.coveringBelow?_nil rule)
  have hown := hline.bind_getElem?_lines (Directive.covering?_nil rule)
  rw [habove.count_below] at hown
  rw [exemption_succ, hbelow, hown]
  refine congrArg (fun found => Exemption.ofDirective? (Option.or found _)) ?_
  exact Directive.coveringBelow?_dropReturn rule above

theorem exemptionOfLines_none (hown : '\n' ∉ own) :
    exemptionOfLines rule none own = .ofDirective? (Directive.covering? rule own) := by
  have hline : Text.IsLine (String.ofList own).toList [] own [] :=
    ⟨by simp, Or.inl rfl, hown, Or.inl rfl⟩
  exact exemption_firstLine hline rule

theorem exemptionOfLines_some {above : List Char} (habove : '\n' ∉ above) (hown : '\n' ∉ own) :
    exemptionOfLines rule (some above) own = .ofDirective?
      ((Directive.coveringBelow? rule above).or (Directive.covering? rule own)) := by
  have hfirst :
      Text.IsLine (String.ofList (above ++ '\n' :: own)).toList [] above ('\n' :: (own ++ [])) :=
    ⟨by simp, Or.inl rfl, habove, Or.inr rfl⟩
  have hsecond :
      Text.IsLine (String.ofList (above ++ '\n' :: own)).toList ([] ++ above ++ ['\n']) own [] :=
    ⟨by simp, Or.inr (by simp), hown, Or.inl rfl⟩
  exact exemption_lineBelow hfirst hsecond rule

/-- What is said about a line is said by that line and the one above it. -/
theorem LinesAt.exemption_eq {above : Option (List Char)}
    (h : LinesAt content.toList offset before above own) (rule : String) :
    exemption content (before.count '\n' + 1) rule = exemptionOfLines rule above own := by
  cases h with
  | @first line rest isLine holds =>
    rw [exemptionOfLines_none (Text.not_mem_lineText isLine.same_line)]
    exact exemption_firstLine isLine rule
  | @below front prev above line rest isAbove isLine holds above_eq =>
    have hown : '\n' ∉ Text.lineText line rest := Text.not_mem_lineText isLine.same_line
    rw [isAbove.count_below, exemption_lineBelow isAbove isLine]
    -- A carriage return at the end of the line above makes no difference.
    rcases above_eq with rfl | rfl
    · rw [exemptionOfLines_some isAbove.same_line hown]
    · have habove : '\n' ∉ Text.dropReturn prev := fun hmem =>
        isAbove.same_line ((Text.prefix_dropReturn prev).subset hmem)
      rw [exemptionOfLines_some habove hown, Directive.coveringBelow?_dropReturn]

/-- A location counts the lines of its text as they are listed: its line number is one more than
the line feeds among the bytes in front of it, the line of that number is listed, and the column
counts the bytes from the start of that line. -/
structure Location.IsOnLine (location : Location) (source before own : List Char) : Prop where
  line_eq : location.line = ((Text.bytes source).take location.offset).count 10 + 1
  listed : (Text.lines source)[location.line - 1]? = some own
  offset_eq : location.offset = Text.byteLength before + (location.column - 1)

theorem LinesAt.isOnLine {source : List Char} {label : Label} {above : Option (List Char)}
    (h : LinesAt source label.start before above own) (file : Path) :
    (locationOf file source label).line = before.count '\n' + 1 ∧
      (locationOf file source label).IsOnLine source before own := by
  rcases h.exists_isLine with ⟨line, rest, hline, hholds, rfl⟩
  have hposition := hline.positionAt_eq hholds
  have hrow : (locationOf file source label).line = before.count '\n' + 1 := by
    rw [locationOf, hposition]
  have hbytes := Text.row_positionFrom ⟨0, 0⟩ label.start source
  rw [← Text.positionAt, hposition] at hbytes
  refine ⟨hrow, ?_, ?_, ?_⟩
  · rw [hrow]
    exact congrArg (· + 1) (hbytes.trans (Nat.zero_add _))
  · rw [hrow, Nat.add_sub_cancel]
    exact hline.getElem?_lines hholds.ne_nil
  · have hcolumn : (locationOf file source label).column =
        label.start - Text.byteLength before + 1 := by
      rw [locationOf, hposition]
    rw [hcolumn, Nat.add_sub_cancel, Nat.add_sub_cancel' hholds.1]
    rfl

/-- Every node inside a text starts on a line of it. Its location counts the lines as they are
listed, and what is said about its line is said by that line and the one above it. So it is the
same in every text with these two lines. -/
theorem exemption_linesAt (content : String) (file : Path) (label : Label)
    (h : label.start < (Text.bytes content.toList).length) :
    (∃ before above own, LinesAt content.toList label.start before above own) ∧
      ∀ before above own, LinesAt content.toList label.start before above own →
        (locationOf file content.toList label).IsOnLine content.toList before own ∧
        ∀ rule,
          exemption content (locationOf file content.toList label).line rule =
            exemptionOfLines rule above own ∧
          ∀ (content' : String) (file' : Path) (label' : Label) (before' : List Char),
            LinesAt content'.toList label'.start before' above own →
              exemption content' (locationOf file' content'.toList label').line rule =
                exemption content (locationOf file content.toList label).line rule := by
  rw [Text.length_bytes] at h
  refine ⟨LinesAt.exists_of_lt h, ?_⟩
  intro before above own hlines
  rcases hlines.isOnLine file with ⟨hrow, honLine⟩
  refine ⟨honLine, ?_⟩
  intro rule
  have hown : exemption content (locationOf file content.toList label).line rule =
      exemptionOfLines rule above own := by
    rw [hrow]
    exact hlines.exemption_eq rule
  refine ⟨hown, ?_⟩
  intro content' file' label' before' hlines'
  rw [(hlines'.isOnLine file').1, hlines'.exemption_eq rule, hown]

/-- A directive on the line above a type, with carriage returns at the ends of both lines. -/
def returnText : String :=
  "let a;\r\n  // typeban: allow(ban-types)\r\nlet b: A;\r\n"

/-- The type on the last line. -/
def returnLabel : Label :=
  ⟨"type_identifier", none, 47, 48⟩

theorem linesAt_returnText :
    LinesAt returnText.toList 47 "let a;\r\n  // typeban: allow(ban-types)\r\n".toList
      (some "  // typeban: allow(ban-types)".toList) "let b: A;".toList := by
  have habove : Text.IsLine returnText.toList "let a;\r\n".toList
      "  // typeban: allow(ban-types)\r".toList ('\n' :: ("let b: A;\r".toList ++ ['\n'])) :=
    ⟨rfl, Or.inr rfl, by decide, Or.inr rfl⟩
  have hline : Text.IsLine returnText.toList ("let a;\r\n".toList ++
      "  // typeban: allow(ban-types)\r".toList ++ ['\n']) "let b: A;\r".toList ['\n'] :=
    ⟨rfl, Or.inr rfl, by decide, Or.inr rfl⟩
  exact .below habove hline ⟨by decide, by decide⟩ (Or.inr rfl)

/-- The directive exempts the line of the type. -/
theorem exemption_returnText :
    returnLabel.start < (Text.bytes returnText.toList).length ∧
      (locationOf ⟨"a.ts"⟩ returnText.toList returnLabel).line = 3 ∧
      exemption returnText 3 "ban-types" = .allowed none ∧
      exemptionOfLines "ban-types" (some "  // typeban: allow(ban-types)".toList)
        "let b: A;".toList = .allowed none := by
  have hinside : returnLabel.start < (Text.bytes returnText.toList).length := by decide
  have hline : (locationOf ⟨"a.ts"⟩ returnText.toList returnLabel).line = 3 := by decide
  have hown : exemptionOfLines "ban-types" (some "  // typeban: allow(ban-types)".toList)
      "let b: A;".toList = .allowed none := by decide
  have hall := (exemption_linesAt returnText ⟨"a.ts"⟩ returnLabel hinside).2 _ _ _
    linesAt_returnText
  have hexempt := (hall.2 "ban-types").1
  rw [hline, hown] at hexempt
  exact ⟨hinside, hline, hexempt, hown⟩

end TypeNameLint
