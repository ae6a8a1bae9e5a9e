import TypeNameLint.Proofs.Ban.Verdicts
import TypeNameLint.Proofs.Tree.Order

/-!
# EmptyLiterals — a ban on `{}` and the literals without members

A literal without members is looked up by its text without blanks. Between its braces there is
nothing but blanks and comments, and what is looked up still has the comments. This file defines:

* `Text.Gap`: a text of blanks and comments, with the number of its comments;
* `Tree.SpellsGap`, `Tree.EmptyLiteralsAreGaps`: literals with a gap between their braces.

The main result is `check_emptyLiteral`: a ban on `{}` catches the literals without members in which
no comment is written, and of the others those whose own text is banned.
-/

namespace TypeNameLint

/-! ## Blanks and comments -/

namespace Text

variable {comments : Nat} {gap : List Char}

/-- The characters that end a line, and with it a comment behind two slashes. -/
def EndsLine (c : Char) : Prop :=
  c ∈ ['\n', '\r', '\u2028', '\u2029']

instance (c : Char) : Decidable (EndsLine c) :=
  inferInstanceAs (Decidable (c ∈ ['\n', '\r', '\u2028', '\u2029']))

/-- A text of blanks and comments, with the number of the comments. -/
inductive Gap : Nat → List Char → Prop
  | nil : Gap 0 []
  | blank {comments : Nat} {c : Char} {rest : List Char} (blank : isBlank c = true)
      (next : Gap comments rest) : Gap comments (c :: rest)
  | block {comments : Nat} {body rest : List Char} (noEnd : ¬ ['*', '/'] <:+: body)
      (next : Gap comments rest) :
      Gap (comments + 1) ('/' :: '*' :: (body ++ '*' :: '/' :: rest))
  | line {comments : Nat} {body rest : List Char} {ending : Char}
      (sameLine : ∀ c ∈ body, ¬ EndsLine c) (ends : EndsLine ending) (next : Gap comments rest) :
      Gap (comments + 1) ('/' :: '/' :: (body ++ ending :: rest))

theorem filter_slash_ne_nil (cs : List Char) :
    (('/' :: cs).filter fun c => !isBlank c) ≠ [] := by
  have hslash : isBlank '/' = false := by decide
  simp [hslash]

/-- Only the blanks of a gap vanish without its blanks. -/
theorem Gap.filter_eq_nil_iff (h : Gap comments gap) :
    (gap.filter fun c => !isBlank c) = [] ↔ comments = 0 := by
  induction h with
  | nil => simp
  | blank hblank _ ih =>
    rw [List.filter_cons_of_neg (by simp [hblank])]
    exact ih
  | block _ _ _ => exact iff_of_false (filter_slash_ne_nil _) (Nat.succ_ne_zero _)
  | line _ _ _ _ => exact iff_of_false (filter_slash_ne_nil _) (Nat.succ_ne_zero _)

theorem squeeze_braces (gap : List Char) :
    squeeze (String.ofList ('{' :: gap ++ ['}'])) =
      String.ofList ('{' :: (gap.filter fun c => !isBlank c) ++ ['}']) := by
  have hopen : isBlank '{' = false := by decide
  have hclose : isBlank '}' = false := by decide
  simp [squeeze, hopen, hclose]

/-- With braces around it, a gap is looked up as `{}` exactly if no comment is in it. -/
theorem Gap.squeeze_braces_eq_iff (h : Gap comments gap) :
    squeeze (String.ofList ('{' :: gap ++ ['}'])) = "\x7b\x7d" ↔ comments = 0 := by
  have hbraces : "\x7b\x7d" = String.ofList ('{' :: [] ++ ['}']) := by decide
  rw [← h.filter_eq_nil_iff, squeeze_braces, hbraces, String.ofList_inj]
  simp

end Text

/-! ## Literals without members -/

namespace Tree

/-- The text of a node is a gap between two braces. -/
structure SpellsGap (source : List Char) (label : Label) (comments : Nat) (gap : List Char) :
    Prop where
  isGap : Text.Gap comments gap
  text_eq : nodeText source label = String.ofList ('{' :: gap ++ ['}'])

/-- In every type literal without members there is nothing but blanks and comments. -/
def EmptyLiteralsAreGaps (source : List Char) (tree : Tree) : Prop :=
  ∀ t ∈ tree.preorder, t.kind = "object_type" → (∀ child ∈ t.children, child.kind = "comment") →
    ∃ comments gap, SpellsGap source t.label comments gap

end Tree

namespace BanRule

open TypeNameLint.Tree

variable {rule : BanRule} {file : SourceFile} {tree : Tree} {place : Cursor}
variable {key : String} {spec : BanSpec}

/-! ## The report of one place among those of its file -/

/-- Nodes with the same location have the same text. -/
theorem nodeText_eq_of_locationOf_eq {path : Path} {source : List Char} {a b : Label}
    (ha : a.start ≤ a.stop) (hb : b.start ≤ b.stop)
    (h : locationOf path source a = locationOf path source b) :
    nodeText source a = nodeText source b := by
  have hstart : a.start = b.start := congrArg Location.offset h
  have hlength : a.stop - a.start = b.stop - b.start := congrArg Location.length h
  have hstop : a.stop = b.stop := by omega
  rw [nodeText, nodeText, hstart, hstop]

/-- On a line without a directive the ban of a name that is written there is in the report. -/
theorem ban_mem_check (hplace : place ∈ tree.places) (hbans : rule.BansAt file place key spec)
    (hdenied : exemptionAt file place = .denied) :
    rule.ban key spec (locationOf file.path file.content.toList place.focus.label) ∈
      rule.check file tree := by
  rw [mem_check_iff]
  exact ⟨place, hplace, atPlace_eq_some_iff.2 ⟨key, spec, hbans, Or.inl ⟨hdenied, rfl⟩⟩⟩

/-- Something is reported at such a place exactly if its text without blanks is banned. -/
theorem exists_mem_check_location_iff (hwell : tree.WellFormed file.content.toList)
    (hplace : place ∈ tree.places) (hlooked : place.IsEmptyLiteral ∨ place.IsTypeReference)
    (hdenied : exemptionAt file place = .denied) :
    (∃ v ∈ rule.check file tree,
        v.location = locationOf file.path file.content.toList place.focus.label) ↔
      ∃ spec, rule.table.get?
        (Text.squeeze (nodeText file.content.toList place.focus.label)) = some spec := by
  constructor
  · rintro ⟨v, hv, hlocation⟩
    -- What is reported with this location may be found elsewhere, where the same text is written.
    rcases mem_check_iff.1 hv with ⟨other, hother, hfound⟩
    rcases exists_bansAt_of_atPlace hfound with ⟨key, spec, hbans⟩
    rw [location_of_atPlace hfound] at hlocation
    have htext : nodeText file.content.toList other.focus.label =
        nodeText file.content.toList place.focus.label :=
      nodeText_eq_of_locationOf_eq (hwell.start_le_stop (focus_mem_preorder hother))
        (hwell.start_le_stop (focus_mem_preorder hplace)) hlocation
    refine ⟨spec, ?_⟩
    rw [← htext, hbans.key_eq]
    exact hbans.banned
  · rintro ⟨spec, hbanned⟩
    exact ⟨_, ban_mem_check hplace ⟨hlooked, rfl, hbanned⟩ hdenied, rfl⟩

/-! ## A ban on `{}` -/

/-- Every literal without members is a gap between braces. On a line without a directive, a ban on
`{}` catches it if no comment is in the gap. Otherwise its text without blanks is another one than
`{}`, and it is reported exactly if that text is banned. -/
theorem check_emptyLiteral (hwell : tree.WellFormed file.content.toList)
    (hgaps : tree.EmptyLiteralsAreGaps file.content.toList)
    (hbanned : rule.table.get? "\x7b\x7d" = some spec) (hplace : place ∈ tree.places)
    (hliteral : place.IsEmptyLiteral) (hdenied : exemptionAt file place = .denied) :
    ∃ comments gap,
      SpellsGap file.content.toList place.focus.label comments gap ∧
      (Text.squeeze (nodeText file.content.toList place.focus.label) = "\x7b\x7d" ↔
        comments = 0) ∧
      (comments = 0 →
        rule.ban "\x7b\x7d" spec (locationOf file.path file.content.toList place.focus.label) ∈
          rule.check file tree) ∧
      ((∃ v ∈ rule.check file tree,
          v.location = locationOf file.path file.content.toList place.focus.label) ↔
        ∃ other, rule.table.get?
          (Text.squeeze (nodeText file.content.toList place.focus.label)) = some other) := by
  rcases hgaps _ (focus_mem_preorder hplace) hliteral.1 hliteral.2 with ⟨comments, gap, hspelled⟩
  have hkey : Text.squeeze (nodeText file.content.toList place.focus.label) = "\x7b\x7d" ↔
      comments = 0 := by
    rw [hspelled.text_eq]
    exact hspelled.isGap.squeeze_braces_eq_iff
  refine ⟨comments, gap, hspelled, hkey, ?_, ?_⟩
  · intro hnone
    exact ban_mem_check hplace ⟨Or.inl hliteral, hkey.2 hnone, hbanned⟩ hdenied
  · exact exists_mem_check_location_iff hwell hplace (Or.inl hliteral) hdenied

/-- Two literals without members, the second one with a comment. -/
def gapFile : SourceFile :=
  ⟨⟨"a.ts"⟩, "let a: \x7b \x7d;\nlet b: \x7b/* none */\x7d;"⟩

def gapTree : Tree :=
  .node ⟨"program", none, 0, 32⟩
    [.node ⟨"lexical_declaration", none, 0, 11⟩
      [.node ⟨"variable_declarator", none, 4, 10⟩
        [.node ⟨"identifier", some "name", 4, 5⟩ [],
         .node ⟨"type_annotation", some "type", 5, 10⟩ [.node ⟨"object_type", none, 7, 10⟩ []]]],
     .node ⟨"lexical_declaration", none, 12, 32⟩
      [.node ⟨"variable_declarator", none, 16, 31⟩
        [.node ⟨"identifier", some "name", 16, 17⟩ [],
         .node ⟨"type_annotation", some "type", 17, 31⟩
          [.node ⟨"object_type", none, 19, 31⟩ [.node ⟨"comment", none, 20, 30⟩ []]]]]]

def gapRule : BanRule :=
  ⟨.build [("\x7b\x7d", .bare)], .error⟩

/-- The place of the literal in which no comment is written. -/
def blankLiteral : Cursor :=
  gapTree.places.get ⟨5, by decide⟩

/-- The place of the literal with the comment. -/
def commentedLiteral : Cursor :=
  gapTree.places.get ⟨10, by decide⟩

theorem gapTree_wellFormed : gapTree.WellFormed gapFile.content.toList := by
  decide

theorem spellsGap_blankLiteral :
    SpellsGap gapFile.content.toList blankLiteral.focus.label 0 [' '] :=
  ⟨.blank (by decide) .nil, by decide⟩

theorem spellsGap_commentedLiteral :
    SpellsGap gapFile.content.toList commentedLiteral.focus.label 1 "/* none */".toList :=
  ⟨@Text.Gap.block 0 " none ".toList [] (by decide) .nil, by decide⟩

theorem gapTree_emptyLiteralsAreGaps :
    gapTree.EmptyLiteralsAreGaps gapFile.content.toList := by
  intro t ht hkind _
  have hliterals : (gapTree.preorder.filter fun t => t.kind = "object_type") =
      [blankLiteral.focus, commentedLiteral.focus] := rfl
  have hmem : t ∈ gapTree.preorder.filter fun t => t.kind = "object_type" :=
    List.mem_filter.2 ⟨ht, decide_eq_true hkind⟩
  rw [hliterals, List.mem_pair] at hmem
  rcases hmem with rfl | rfl
  · exact ⟨0, _, spellsGap_blankLiteral⟩
  · exact ⟨1, _, spellsGap_commentedLiteral⟩

/-- The ban on `{}` catches the literal with a blank between its braces. -/
theorem gapRule_catches_blankLiteral :
    gapTree.WellFormed gapFile.content.toList ∧
      gapTree.EmptyLiteralsAreGaps gapFile.content.toList ∧
      gapRule.table.get? "\x7b\x7d" = some .bare ∧
      blankLiteral ∈ gapTree.places ∧ blankLiteral.IsEmptyLiteral ∧
      exemptionAt gapFile blankLiteral = .denied ∧
      gapRule.ban "\x7b\x7d" .bare ⟨⟨"a.ts"⟩, 1, 8, 7, 3⟩ ∈ gapRule.check gapFile gapTree := by
  have hbanned : gapRule.table.get? "\x7b\x7d" = some .bare := by decide
  have hplace : blankLiteral ∈ gapTree.places := List.get_mem _ _
  have hliteral : blankLiteral.IsEmptyLiteral := ⟨rfl, by decide⟩
  have hdenied : exemptionAt gapFile blankLiteral = .denied := by decide
  refine ⟨gapTree_wellFormed, gapTree_emptyLiteralsAreGaps, hbanned, hplace, hliteral, hdenied, ?_⟩
  rcases check_emptyLiteral gapTree_wellFormed gapTree_emptyLiteralsAreGaps hbanned hplace
    hliteral hdenied with ⟨comments, gap, -, hkey, hcaught, -⟩
  exact hcaught (hkey.1 (by decide))

/-- The ban on `{}` does not catch the literal with the comment, although it has no members and its
line is not exempt. -/
theorem gapRule_misses_commentedLiteral :
    gapTree.WellFormed gapFile.content.toList ∧
      gapTree.EmptyLiteralsAreGaps gapFile.content.toList ∧
      gapRule.table.get? "\x7b\x7d" = some .bare ∧
      commentedLiteral ∈ gapTree.places ∧ commentedLiteral.IsEmptyLiteral ∧
      exemptionAt gapFile commentedLiteral = .denied ∧
      gapRule.check gapFile gapTree =
        [gapRule.ban "\x7b\x7d" .bare ⟨⟨"a.ts"⟩, 1, 8, 7, 3⟩] ∧
      ¬ ∃ v ∈ gapRule.check gapFile gapTree, v.location =
        locationOf gapFile.path gapFile.content.toList commentedLiteral.focus.label := by
  have hcheck : gapRule.check gapFile gapTree =
      [gapRule.ban "\x7b\x7d" .bare ⟨⟨"a.ts"⟩, 1, 8, 7, 3⟩] := by
    rw [check_eq_filterMap]
    rfl
  refine ⟨gapTree_wellFormed, gapTree_emptyLiteralsAreGaps, by decide, List.get_mem _ _,
    ⟨rfl, by decide⟩, by decide, hcheck, ?_⟩
  rw [hcheck]
  decide

end BanRule
end TypeNameLint
