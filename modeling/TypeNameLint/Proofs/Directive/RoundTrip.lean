import TypeNameLint.Proofs.Directive.Comments
import Mathlib.Data.String.Basic

/-!
# RoundTrip — directives are read back as they are written

A directive can be written with blanks of all kinds between its parts, behind any code and in
comments of both kinds. This file defines:

* `ListedName`, `QuotedReason`: a name and a reason as they can be written, with blanks around;
* `Spelling`: a whole directive with all of its blanks, and `Spelling.text`, its text;
* `Style`: the two kinds of comments, and what can be written in them.

The main result is `parse?_spelled`: the names and the reason that are written are those that are
read.
-/

namespace TypeNameLint
namespace Directive

variable {code : List Char} {name other : String} {list : List String}

/-! ## Names in order -/

theorem mem_insertName : other ∈ insertName name list ↔ other = name ∨ other ∈ list := by
  induction list with
  | nil => simp [insertName]
  | cons first list ih =>
    rw [insertName]
    split
    · rename_i heq
      simp [heq]
    · split
      · simp
      · simp only [List.mem_cons, ih]
        exact or_left_comm

theorem pairwise_insertName (h : list.Pairwise (· < ·)) :
    (insertName name list).Pairwise (· < ·) := by
  induction list with
  | nil => simp [insertName]
  | cons first list ih =>
    rcases List.pairwise_cons.1 h with ⟨hfirst, hlist⟩
    rw [insertName]
    split
    · exact h
    · rename_i hne
      split
      · rename_i hlt
        refine List.pairwise_cons.2 ⟨?_, h⟩
        intro other hother
        rcases List.mem_cons.1 hother with rfl | hother
        · exact hlt
        · exact lt_trans hlt (hfirst other hother)
      · rename_i hnot
        refine List.pairwise_cons.2 ⟨?_, ih hlist⟩
        intro other hother
        rcases mem_insertName.1 hother with rfl | hother
        · exact lt_of_le_of_ne (not_lt.1 hnot) (Ne.symm hne)
        · exact hfirst other hother

theorem mem_foldr_insertName : name ∈ list.foldr insertName [] ↔ name ∈ list := by
  induction list with
  | nil => rfl
  | cons first list ih => rw [List.foldr_cons, mem_insertName, ih, List.mem_cons]

theorem pairwise_foldr_insertName (list : List String) :
    (list.foldr insertName []).Pairwise (· < ·) := by
  induction list with
  | nil => exact .nil
  | cons first list ih => exact pairwise_insertName ih

/-! ## Spellings -/

/-- A name in the list of a directive, with the blanks around it. -/
structure ListedName where
  front : List Char
  name : String
  back : List Char
  front_blank : Text.AllBlank front
  back_blank : Text.AllBlank back
  nonempty : name ≠ ""
  trimmed : Text.trim name.toList = name.toList
  no_comma : ',' ∉ name.toList
  no_paren : ')' ∉ name.toList

def ListedName.text (n : ListedName) : List Char :=
  n.front ++ n.name.toList ++ n.back

/-- A reason in its quotes, with the blanks in front of it. -/
structure QuotedReason where
  front : List Char
  reason : String
  front_blank : Text.AllBlank front
  no_quote : '"' ∉ reason.toList

def QuotedReason.text (r : QuotedReason) : List Char :=
  r.front ++ ("reason=\"".toList ++ r.reason.toList ++ ['"'])

/-- A directive as it can be written: at least one name, a reason or none, and blanks in front of
the marker, behind it, in front of the list and at the end. -/
structure Spelling where
  opening : List Char
  afterMarker : List Char
  beforeList : List Char
  first : ListedName
  others : List ListedName
  reason : Option QuotedReason
  closing : List Char
  opening_blank : Text.AllBlank opening
  afterMarker_blank : Text.AllBlank afterMarker
  beforeList_blank : Text.AllBlank beforeList
  closing_blank : Text.AllBlank closing

namespace Spelling

def listed (s : Spelling) : List ListedName :=
  s.first :: s.others

def names (s : Spelling) : List String :=
  s.listed.map ListedName.name

def listText (s : Spelling) : List Char :=
  Text.joinWith ',' (s.listed.map ListedName.text)

/-- What follows the list: the reason, if there is one, and blanks. -/
def tail (s : Spelling) : List Char :=
  (s.reason.map QuotedReason.text).getD [] ++ s.closing

/-- The list and what follows it. -/
def inner (s : Spelling) : List Char :=
  s.listText ++ ')' :: s.tail

def text (s : Spelling) : List Char :=
  s.opening ++ ("typeban:".toList ++ (s.afterMarker ++ ("allow".toList ++
    (s.beforeList ++ (['('] ++ s.inner)))))

/-- What stands in front of the list. -/
def head (s : Spelling) : List Char :=
  s.opening ++ "typeban:".toList ++ s.afterMarker ++ "allow".toList ++ s.beforeList ++ ['(']

theorem text_eq (s : Spelling) : s.text = s.head ++ s.inner := by
  simp [text, head]

end Spelling

/-! ## Reading the parts -/

theorem ListedName.not_mem_text {n : ListedName} {c : Char} (hblank : Text.isBlank c = false)
    (hname : c ∉ n.name.toList) : c ∉ n.text := by
  simp [text, Text.not_mem_of_allBlank n.front_blank hblank,
    Text.not_mem_of_allBlank n.back_blank hblank, hname]

theorem ListedName.trim_text (n : ListedName) : Text.trim n.text = n.name.toList := by
  rw [text, Text.trim_between n.front_blank n.back_blank, n.trimmed]

theorem comma_not_mem_of_mem (s : Spelling) :
    ∀ piece ∈ s.listed.map ListedName.text, ',' ∉ piece := by
  intro piece hpiece
  rcases List.mem_map.1 hpiece with ⟨n, -, rfl⟩
  exact n.not_mem_text (by decide) n.no_comma

theorem names_listText (s : Spelling) : names s.listText = s.names := by
  have hpieces : Text.splitOn ',' s.listText = s.listed.map ListedName.text :=
    Text.splitOn_joinWith (List.cons_ne_nil _ _) (comma_not_mem_of_mem s)
  have htrimmed : (s.listed.map ListedName.text).map Text.trim =
      s.listed.map fun n => n.name.toList := by
    rw [List.map_map]
    exact List.map_congr_left fun n _ => n.trim_text
  have hnonempty : (s.listed.map fun n => n.name.toList).filter (fun name => !name.isEmpty) =
      s.listed.map fun n => n.name.toList := by
    rw [List.filter_eq_self]
    intro name hname
    rcases List.mem_map.1 hname with ⟨n, -, rfl⟩
    simpa using n.nonempty
  rw [names, hpieces, htrimmed, hnonempty, List.map_map]
  exact List.map_congr_left fun n _ => String.ofList_toList

theorem paren_not_mem_listText (s : Spelling) : ')' ∉ s.listText := by
  refine Text.not_mem_joinWith (by decide) ?_
  intro piece hpiece
  rcases List.mem_map.1 hpiece with ⟨n, -, rfl⟩
  exact n.not_mem_text (by decide) n.no_paren

theorem reason?_of_allBlank {cs : List Char} (h : Text.AllBlank cs) : reason? cs = none := by
  have htrim : Text.trim cs = [] := by
    rw [Text.trim, Text.trimStart_eq_nil_iff.2 h]
    rfl
  rw [reason?, htrim]
  rfl

theorem QuotedReason.trim_text (r : QuotedReason) :
    Text.trim r.text = "reason=\"".toList ++ (r.reason.toList ++ ['"']) := by
  have hstart : Text.trimStart r.text = "reason=\"".toList ++ (r.reason.toList ++ ['"']) := by
    rw [text, Text.trimStart_append_of_allBlank r.front_blank, List.append_assoc]
    exact Text.trimStart_cons (by decide)
  rw [Text.trim, hstart, ← List.append_assoc]
  exact Text.trimEnd_concat (by decide)

theorem QuotedReason.reason?_text (r : QuotedReason) : reason? r.text = some r.reason := by
  have hstrip : Text.stripStart? "reason=\"".toList (Text.trim r.text) =
      some (r.reason.toList ++ ['"']) := Text.stripStart?_eq_some_iff.2 r.trim_text
  have hquote : Text.splitOnce? ['"'] (r.reason.toList ++ ['"']) = some (r.reason.toList, []) :=
    Text.splitOnce?_singleton r.no_quote
  simp only [reason?, hstrip, hquote, Option.bind_eq_bind, Option.bind_some, String.ofList_toList,
    Option.pure_def]

theorem reason?_tail (s : Spelling) : reason? s.tail = s.reason.map QuotedReason.reason := by
  rw [Spelling.tail, reason?_append_of_allBlank s.closing_blank]
  cases s.reason with
  | none => exact reason?_of_allBlank rfl
  | some r => exact r.reason?_text

/-- The body of a comment with a directive is read as its names and its reason. -/
theorem ofComment?_text (s : Spelling) :
    ofComment? s.text =
      some ⟨s.names.foldr insertName [], s.reason.map QuotedReason.reason⟩ := by
  have hmarker : Text.stripStart? marker (Text.trimStart s.text) =
      some (s.afterMarker ++ ("allow".toList ++ (s.beforeList ++ (['('] ++ s.inner)))) :=
    Text.stripStart?_trimStart s.opening_blank (by decide)
  have hallow : Text.stripStart? "allow".toList (Text.trimStart
      (s.afterMarker ++ ("allow".toList ++ (s.beforeList ++ (['('] ++ s.inner))))) =
      some (s.beforeList ++ (['('] ++ s.inner)) :=
    Text.stripStart?_trimStart s.afterMarker_blank (by decide)
  have hparen : Text.stripStart? ['('] (Text.trimStart (s.beforeList ++ (['('] ++ s.inner))) =
      some s.inner := Text.stripStart?_trimStart s.beforeList_blank (by decide)
  have hlist : Text.splitOnce? [')'] s.inner = some (s.listText, s.tail) :=
    Text.splitOnce?_singleton (paren_not_mem_listText s)
  have hnames : names s.listText = s.first.name :: s.others.map ListedName.name :=
    names_listText s
  simp only [ofComment?, hmarker, hallow, hparen, hlist, hnames, Option.bind_eq_bind,
    Option.bind_some, reason?_tail]
  rfl

/-! ## Styles of comments -/

/-- A comment that goes on to the end of its line, or one that is closed, with what follows it. -/
inductive Style where
  | line
  | block (after : List Char)

namespace Style

def comment : Style → List Char → List Char
  | line, body => '/' :: '/' :: body
  | block after, body => '/' :: '*' :: (body ++ '*' :: '/' :: after)

/-- In a comment that has to be closed, the mark that closes it is in no name and not in the
reason. -/
def Allows : Style → Spelling → Prop
  | line, _ => True
  | block _, s =>
    (∀ name ∈ s.names, ¬ ['*', '/'] <:+: name.toList) ∧
      ∀ r ∈ s.reason, ¬ ['*', '/'] <:+: r.reason.toList

end Style

theorem close_not_infix_listText {s : Spelling}
    (h : ∀ name ∈ s.names, ¬ ['*', '/'] <:+: name.toList) : ¬ ['*', '/'] <:+: s.listText := by
  have hne : s.listed.map ListedName.text ≠ [] := List.cons_ne_nil _ _
  rw [Spelling.listText, Text.infix_joinWith_iff (by decide) hne (comma_not_mem_of_mem s)]
  rintro ⟨piece, hpiece, hmem⟩
  rcases List.mem_map.1 hpiece with ⟨n, hn, rfl⟩
  -- Blanks around a name do not make a mark of what it starts or ends with.
  have hfront : '*' ∉ n.front := Text.not_mem_of_allBlank n.front_blank (by decide)
  have hback : '/' ∉ n.back := Text.not_mem_of_allBlank n.back_blank (by decide)
  rw [ListedName.text, Text.pair_infix_append_of_not_mem_right hback,
    Text.pair_infix_append_of_not_mem_left hfront] at hmem
  exact h n.name (List.mem_map_of_mem hn) hmem

theorem close_not_infix_tail {s : Spelling}
    (h : ∀ r ∈ s.reason, ¬ ['*', '/'] <:+: r.reason.toList) : ¬ ['*', '/'] <:+: s.tail := by
  have hclosing : '/' ∉ s.closing := Text.not_mem_of_allBlank s.closing_blank (by decide)
  rw [Spelling.tail, Text.pair_infix_append_of_not_mem_right hclosing]
  cases hreason : s.reason with
  | none => simp
  | some r =>
    have hfront : '*' ∉ r.front ++ "reason=\"".toList := by
      have hblank : '*' ∉ r.front := Text.not_mem_of_allBlank r.front_blank (by decide)
      simp [hblank]
    have htext : r.text = (r.front ++ "reason=\"".toList) ++ (r.reason.toList ++ ['"']) := by
      simp [QuotedReason.text]
    rw [Option.map_some, Option.getD_some, htext, Text.pair_infix_append_of_not_mem_left hfront,
      Text.pair_infix_append_of_not_mem_right (by decide)]
    exact h r hreason

theorem star_not_mem_head (s : Spelling) : '*' ∉ s.head := by
  have hopening : '*' ∉ s.opening := Text.not_mem_of_allBlank s.opening_blank (by decide)
  have hmarker : '*' ∉ s.afterMarker := Text.not_mem_of_allBlank s.afterMarker_blank (by decide)
  have hlist : '*' ∉ s.beforeList := Text.not_mem_of_allBlank s.beforeList_blank (by decide)
  simp [Spelling.head, hopening, hmarker, hlist]

theorem close_not_infix_text {s : Spelling}
    (hnames : ∀ name ∈ s.names, ¬ ['*', '/'] <:+: name.toList)
    (hreason : ∀ r ∈ s.reason, ¬ ['*', '/'] <:+: r.reason.toList) :
    ¬ ['*', '/'] <:+: s.text := by
  rw [s.text_eq, Text.pair_infix_append_of_not_mem_left (star_not_mem_head s), Spelling.inner,
    Text.pair_infix_append_cons_iff (by decide) (by decide)]
  rintro (hlist | htail)
  · exact close_not_infix_listText hnames hlist
  · exact close_not_infix_tail hreason htail

theorem exists_startsComment_comment {s : Spelling} {style : Style} (h : style.Allows s) :
    ∃ after, StartsComment (style.comment s.text) s.text after := by
  cases style with
  | line => exact ⟨[], .line _⟩
  | block after => exact ⟨after, .block after (close_not_infix_text h.1 h.2)⟩

/-! ## Reading a line -/

/-- A directive behind code, in a comment of either kind, is read as the set of its names and its
reason, whatever blanks are in it. It covers the rules that it names, or all of them. -/
theorem parse?_spelled (s : Spelling) (style : Style) (hcode : IsLead code)
    (hstyle : style.Allows s) :
    ∃ d, parse? (code ++ style.comment s.text) = some d ∧
      d.rules.Pairwise (· < ·) ∧ (∀ name, name ∈ d.rules ↔ name ∈ s.names) ∧
      d.reason = s.reason.map QuotedReason.reason ∧
      ∀ rule, d.covers rule = true ↔ rule ∈ s.names ∨ "all" ∈ s.names := by
  rcases exists_startsComment_comment hstyle with ⟨after, hstarts⟩
  have hparse : parse? (code ++ style.comment s.text) =
      some ⟨s.names.foldr insertName [], s.reason.map QuotedReason.reason⟩ := by
    rw [parse?_of_startsComment hcode hstarts, ofComment?_text]
  refine ⟨_, hparse, pairwise_foldr_insertName s.names, fun name => mem_foldr_insertName, rfl, ?_⟩
  intro rule
  simp only [covers, Bool.or_eq_true, List.contains_iff_mem, mem_foldr_insertName]

/-- Two names and a reason, with blanks of several kinds. -/
def sampleSpelling : Spelling where
  opening := [' ']
  afterMarker := ['\t']
  beforeList := []
  first := ⟨[], "no-any", [' '], by decide, by decide, by decide, by decide, by decide, by decide⟩
  others :=
    [⟨[' '], "ban-types", [], by decide, by decide, by decide, by decide, by decide, by decide⟩]
  reason := some ⟨['\u00A0'], "see // (1), (2)", by decide, by decide⟩
  closing := [' ']
  opening_blank := by decide
  afterMarker_blank := by decide
  beforeList_blank := by decide
  closing_blank := by decide

theorem allows_sampleSpelling : (Style.block " = b;".toList).Allows sampleSpelling := by
  simp only [Style.Allows, ← Text.contains_iff_infix]
  decide

/-- Behind code and in a closed comment, the whole sample is read. -/
theorem parse?_sampleSpelling :
    IsLead "let a: A ".toList ∧ (Style.block " = b;".toList).Allows sampleSpelling ∧
      ∃ d,
        parse? ("let a: A /* typeban:\tallow(no-any , ban-types)".toList ++
          "\u00A0reason=\"see // (1), (2)\" */ = b;".toList) = some d ∧
        (∀ name, name ∈ d.rules ↔ name ∈ ["no-any", "ban-types"]) ∧
        d.reason = some "see // (1), (2)" ∧ d.covers "ban-types" = true := by
  have hcode : IsLead "let a: A ".toList := by decide
  have htext : "let a: A ".toList ++ (Style.block " = b;".toList).comment sampleSpelling.text =
      "let a: A /* typeban:\tallow(no-any , ban-types)".toList ++
        "\u00A0reason=\"see // (1), (2)\" */ = b;".toList := by decide
  rcases parse?_spelled sampleSpelling (.block " = b;".toList) hcode allows_sampleSpelling with
    ⟨d, hd, -, hrules, hreason, hcovers⟩
  rw [htext] at hd
  exact ⟨hcode, allows_sampleSpelling, d, hd, hrules, hreason,
    (hcovers "ban-types").2 (by decide)⟩

end Directive
end TypeNameLint
