import TypeNameLint.Proofs.Exclude.Fallback

/-!
# Locality — patterns that do not depend on how a root is written

Paths below a root are tested with the text of the root in front of them, and a root can be written
in more than one way. A pattern is safe from that if it speaks of single names, or of the end of a
path, or cannot match a path from its start on. This file defines:

* `Exclude.IsLocal`: the patterns of these kinds.

The main results are `fence_infix_descend_iff` and `covers_descend_eq`.
-/

namespace TypeNameLint
namespace Path

variable {p : Path} {names : List String} {piece : List Char} {front back : Bool}

theorem toList_text_of_ofPiece? {c : Component} (h : Component.ofPiece? piece = some c) :
    c.text.toList = piece := by
  unfold Component.ofPiece? at h
  split at h
  · cases h
  · cases h
  · cases h
    rfl
  · cases h
    exact String.toList_ofList

theorem ofPiece?_of_fits {word : List Char} (hempty : word ≠ []) (hcurrent : word ≠ ['.'])
    (h : Text.Fits front back word piece) : Component.ofPiece? piece ≠ none := by
  rcases h with ⟨before, after, rfl, -⟩
  unfold Component.ofPiece?
  split
  · rename_i heq
    simp [hempty] at heq
  · rename_i heq
    rw [List.append_assoc] at heq
    rcases List.append_eq_singleton_iff.1 heq with ⟨-, hrest⟩ | ⟨-, hrest⟩
    · rcases List.append_eq_singleton_iff.1 hrest with ⟨hword, -⟩ | ⟨hword, -⟩
      · exact absurd hword hempty
      · exact absurd hword hcurrent
    · exact absurd (List.append_eq_nil_iff.1 hrest).1 hempty
  · simp
  · simp

/-- A word with slashes at its ends occurs below an absolute path if it fits a component of that
path, or one of the names below. -/
theorem fence_infix_descend_iff {word : List Char} (hslash : '/' ∉ word) (hempty : word ≠ [])
    (hcurrent : word ≠ ['.']) (h : p.isAbsolute = true) (hnames : ∀ name ∈ names, IsName name)
    (hne : names ≠ []) :
    Text.fence '/' front back word <:+: (p.descend names).text.toList ↔
      (∃ c ∈ p.components.tail, Text.Fits front back word c.text.toList) ∨
        ∃ first name last, names = first ++ name :: last ∧ (back = true → last ≠ []) ∧
          Text.Fits front back word name.toList := by
  rcases exists_pieces_descend h hnames hne with ⟨before, hroot, hcomponents, hpieces⟩
  rw [pieces] at hpieces
  rw [Text.fence_infix_iff hslash, hpieces, ← hcomponents]
  have hbefore : before ≠ [] := by
    rintro rfl
    cases hroot
  constructor
  · rintro ⟨first, piece, last, hsplit, -, hback, hfits⟩
    have hname : ∀ others, names.map String.toList = others ++ piece :: last →
        ∃ first name last, names = first ++ name :: last ∧ (back = true → last ≠ []) ∧
          Text.Fits front back word name.toList := by
      intro others hothers
      rcases List.map_eq_append_iff.1 hothers with ⟨first', rest, rfl, -, hrest⟩
      rcases List.map_eq_cons_iff.1 hrest with ⟨name, last', rfl, rfl, rfl⟩
      exact ⟨first', name, last', rfl, by simpa using hback, hfits⟩
    rcases List.append_eq_append_iff.1 hsplit with ⟨others, -, hothers⟩ | ⟨others, rfl, hothers⟩
    · exact Or.inr (hname others hothers)
    · cases others with
      | nil => exact Or.inr (hname [] hothers.symm)
      | cons other others =>
        -- A piece that the word fits stands for a component.
        rcases List.cons.inj hothers with ⟨rfl, -⟩
        rcases Option.ne_none_iff_exists'.1 (ofPiece?_of_fits hempty hcurrent hfits) with ⟨c, hc⟩
        refine Or.inl ⟨c, List.mem_filterMap.2 ⟨piece, by simp, hc⟩, ?_⟩
        rwa [toList_text_of_ofPiece? hc]
  · rintro (⟨c, hc, hfits⟩ | ⟨first, name, last, rfl, hback, hfits⟩)
    · rcases List.mem_filterMap.1 hc with ⟨piece, hpiece, hsome⟩
      rcases List.append_of_mem hpiece with ⟨first, last, rfl⟩
      rw [toList_text_of_ofPiece? hsome] at hfits
      refine ⟨first, piece, last ++ names.map String.toList, by simp, fun _ => ?_, fun _ => ?_,
        hfits⟩
      -- The first piece stands for no component of its own.
      · rintro rfl
        cases hroot
        cases hsome
      · simp [hne]
    · refine ⟨before ++ first.map String.toList, name.toList, last.map String.toList, by simp,
        fun _ => by simp [hbefore], ?_, hfits⟩
      simpa using hback

end Path

namespace Exclude

open Glob (IsPlain around isPlain_cons isPlain_iff)
open Text (byteLength fence)

variable {front back : Bool} {text : List Char} {pattern path : String} {exclude : Exclude}
variable {root base other p : Path} {names : List String}

/-! ## Names with stars around them -/

theorem spells_around (h : IsPlain text) :
    Spells (around front back text) (fence '/' front back text) := by
  cases front <;> cases back
  · simpa [around, fence] using Spells.text h
  · simpa [around, fence] using Spells.above h
  · simpa [around, fence] using Spells.below h
  · simpa [around, fence] using Spells.between h

/-- What matches a name with stars around it has the name in it, with slashes instead of the
stars. -/
theorem fence_infix_of_isMatch (hplain : IsPlain text) (hne : text ≠ [])
    (hpattern : pattern.toList = around front back text)
    (hparse : Glob.parse pattern = .ok exclude.glob) (h : exclude.glob.isMatch path = true) :
    fence '/' front back text <:+: '/' :: path.toList := by
  rcases (Glob.isMatch_around hplain hne hpattern hparse).1 h with
    ⟨before, after, hpath, hbefore, hafter⟩
  have hend : ∃ rest, after = (if back then ['/'] else []) ++ rest := by
    cases back with
    | false => exact ⟨after, rfl⟩
    | true => exact hafter
  rcases hend with ⟨rest, rfl⟩
  rw [hpath, fence]
  cases front with
  | false => exact ⟨'/' :: before, rest, by simp⟩
  | true =>
    rcases hbefore with rfl | ⟨above, rfl⟩
    · exact ⟨[], rest, by simp⟩
    · exact ⟨'/' :: above, rest, by simp⟩

theorem not_prefix_fence (hne : text ≠ []) (hslash : '/' ∉ text) (rest : List Char) :
    ¬ fence '/' front back text <+: '/' :: '/' :: rest := by
  rcases List.exists_cons_of_ne_nil hne with ⟨c, cs, rfl⟩
  have hc : c ≠ '/' := fun heq => hslash (by simp [heq])
  cases front <;> simp [fence, hc]

/-- A name with stars around it excludes the paths that have the name in them, with slashes instead
of the stars. What is left of such a path below the root is the end of it, behind a slash. -/
theorem covers_around_iff (htext : text ≠ []) (hslash : '/' ∉ text) (hplain : IsPlain text)
    (hpattern : pattern.toList = around front back text) (hparse : parse pattern = .ok exclude)
    (hlong : 1 < byteLength (fence '/' front back text)) (habsolute : p.isAbsolute = true)
    (hbelow : ((p.relativeTo? root).getD p).text = "" ∨
      ('/' :: ((p.relativeTo? root).getD p).text.toList) <:+ p.text.toList) :
    exclude.covers root p = true ↔ fence '/' front back text <:+: p.text.toList := by
  rcases parse_eq_ok_iff.1 hparse with ⟨hglob, -⟩
  have hfragment : fragment? pattern = some (fence '/' front back text) := by
    rcases (@spells_around front back _ hplain).removePairs_eq with ⟨hremove, hfence⟩
    exact fragment?_eq_some_iff.2 ⟨by rw [hpattern, hremove], hfence, hlong⟩
  have hmatches : exclude.Matches root p → fence '/' front back text <:+: p.text.toList := by
    rintro (hmatch | hmatch)
    · have hinfix := fence_infix_of_isMatch hplain htext hpattern hglob hmatch
      rw [Path.isAbsolute, decide_eq_true_eq] at habsolute
      rcases List.head?_eq_some_iff.1 habsolute with ⟨rest, hrest⟩
      -- The path starts with a slash, so the name does not stand at its start.
      rw [hrest] at hinfix ⊢
      exact (List.infix_cons_iff.1 hinfix).resolve_left (not_prefix_fence htext hslash rest)
    · have hinfix := fence_infix_of_isMatch hplain htext hpattern hglob hmatch
      rcases hbelow with hempty | hbelow
      -- In a single slash there is no name.
      · rcases List.exists_mem_of_ne_nil text htext with ⟨c, hc⟩
        have hmem : c ∈ fence '/' front back text := by simp [fence, hc]
        have hsingle := hinfix.subset hmem
        rw [hempty] at hsingle
        exact absurd ((List.mem_singleton.1 hsingle) ▸ hc) hslash
      · exact hinfix.trans hbelow.isInfix
  rw [covers_iff hparse, hfragment]
  simp only [Option.some.injEq, exists_eq_left']
  exact or_iff_right_of_imp hmatches

theorem covers_descend_around_iff (htext : text ≠ []) (hslash : '/' ∉ text)
    (hplain : IsPlain text) (hpattern : pattern.toList = around front back text)
    (hparse : parse pattern = .ok exclude) (hlong : 1 < byteLength (fence '/' front back text))
    (hroot : root.isAbsolute = true) (hnames : ∀ name ∈ names, IsName name) (hne : names ≠ []) :
    exclude.covers root (root.descend names) = true ↔
      fence '/' front back text <:+: (root.descend names).text.toList := by
  have hbase := Path.text_ne_empty_of_isAbsolute hroot
  rcases Path.exists_text_descend hbase hnames hne with ⟨above, habove⟩
  refine covers_around_iff htext hslash hplain hpattern hparse hlong
    (Path.isAbsolute_descend hroot names) (Or.inr ?_)
  rw [habove]
  exact List.suffix_append above _

/-! ## Other patterns -/

/-- A pattern of the start of a path that leaves no fragment is tested with the path from the root
alone. -/
theorem covers_descend_relative_iff {c : Char} {rest : List Char} (hplain : IsPlain [c])
    (hslash : c ≠ '/') (hpattern : pattern.toList = c :: rest) (hfragment : fragment? pattern = none)
    (hparse : parse pattern = .ok exclude) (hroot : root.isAbsolute = true) (names : List String) :
    exclude.covers root (root.descend names) = true ↔
      exclude.glob.isMatch (root.reportedFrom (root.descend names)).text = true := by
  rw [covers_iff hparse, hfragment, Matches]
  simp only [reduceCtorEq, false_and, exists_false, or_false]
  refine or_iff_right fun hmatch => ?_
  have hhead := Glob.head?_of_isMatch hplain hpattern (parse_eq_ok_iff.1 hparse).1 hmatch
  have habsolute := Path.isAbsolute_descend hroot names
  rw [Path.isAbsolute, decide_eq_true_eq, hhead] at habsolute
  exact hslash (Option.some.inj habsolute)

/-- A text behind stars excludes the paths that end with it. -/
theorem covers_descend_ending_iff (hplain : IsPlain text) (hslash : '/' ∉ text)
    (hpattern : pattern.toList = '*' :: '*' :: '/' :: '*' :: text)
    (hparse : parse pattern = .ok exclude) (hroot : root.isAbsolute = true)
    (hnames : ∀ name ∈ names, IsName name) (hne : names ≠ []) :
    exclude.covers root (root.descend names) = true ↔
      text <:+ (root.reportedFrom (root.descend names)).text.toList := by
  rcases parse_eq_ok_iff.1 hparse with ⟨hglob, -⟩
  -- The single star is left of the pattern.
  have hfragment : fragment? pattern = none := by
    have hhead : text.head? ≠ some '*' := by
      intro hhead
      exact hplain '*' (List.mem_of_head? hhead) (by simp)
    refine Option.eq_none_iff_forall_ne_some.2 fun mark hmark => ?_
    rcases fragment?_eq_some_iff.1 hmark with ⟨rfl, hplain, -⟩
    refine hplain '*' ?_ (by simp)
    rw [hpattern, removePairs_stars, removePairs_cons (by decide)]
    cases text with
    | nil => simp [Text.removePairs]
    | cons c cs =>
      have hc : c ≠ '*' := fun heq => hhead (by simp [heq])
      simp [Text.removePairs, hc]
  rcases Path.exists_text_descend (Path.text_ne_empty_of_isAbsolute hroot) hnames hne with
    ⟨above, habove⟩
  rw [covers_iff hparse, hfragment, Matches]
  simp only [reduceCtorEq, false_and, exists_false, or_false,
    Glob.isMatch_ending hplain hpattern hglob]
  refine or_iff_right_of_imp fun hend => ?_
  rw [habove] at hend
  have hbelow := List.suffix_append above
    ('/' :: (root.reportedFrom (root.descend names)).text.toList)
  -- An end that is longer than the path from the root has a slash.
  rcases List.suffix_or_suffix_of_suffix hend hbelow with hend | hlonger
  · rcases List.suffix_cons_iff.1 hend with heq | hend
    · exact absurd (by simp [heq]) hslash
    · exact hend
  · exact absurd (hlonger.subset (by simp)) hslash

/-! ## Locality -/

/-- Patterns of single names, of the ends of paths, and those that cannot match a path from its
start on. -/
inductive IsLocal (pattern : String) : Prop
  | around (front back : Bool) {name : String} (isName : IsName name) (plain : IsPlain name.toList)
      (spelled : pattern.toList = Glob.around front back name.toList)
  | ending {text : List Char} (plain : IsPlain text) (relative : '/' ∉ text)
      (spelled : pattern.toList = '*' :: '*' :: '/' :: '*' :: text)
  | relative {c : Char} {rest : List Char} (plain : IsPlain [c]) (relative : c ≠ '/')
      (spelled : pattern.toList = c :: rest) (whole : fragment? pattern = none)

/-- Local patterns exclude the same paths below a root, however the root is written. -/
theorem covers_descend_eq (hlocal : IsLocal pattern) (hparse : parse pattern = .ok exclude)
    (hbase : base.isAbsolute = true) (hother : other.isAbsolute = true)
    (hsame : base.components = other.components) (hnames : ∀ name ∈ names, IsName name)
    (hne : names ≠ []) :
    exclude.covers base (base.descend names) = exclude.covers other (other.descend names) := by
  have hreported : base.reportedFrom (base.descend names) =
      other.reportedFrom (other.descend names) := by
    rw [Path.reportedFrom_descend (Path.text_ne_empty_of_isAbsolute hbase) hnames hne,
      Path.reportedFrom_descend (Path.text_ne_empty_of_isAbsolute hother) hnames hne]
  have hrelative : ∀ {c : Char} {rest : List Char}, IsPlain [c] → c ≠ '/' →
      pattern.toList = c :: rest → fragment? pattern = none →
        exclude.covers base (base.descend names) = exclude.covers other (other.descend names) := by
    intro c rest hplain hslash hpattern hfragment
    rw [Bool.eq_iff_iff,
      covers_descend_relative_iff hplain hslash hpattern hfragment hparse hbase names,
      covers_descend_relative_iff hplain hslash hpattern hfragment hparse hother names, hreported]
  cases hlocal with
  | @around front back name hname hplain hpattern =>
    by_cases hlong : 1 < byteLength (fence '/' front back name.toList)
    · rw [Bool.eq_iff_iff,
        covers_descend_around_iff hname.ne_empty hname.no_slash hplain hpattern hparse hlong hbase
          hnames hne,
        covers_descend_around_iff hname.ne_empty hname.no_slash hplain hpattern hparse hlong hother
          hnames hne,
        Path.fence_infix_descend_iff hname.no_slash hname.ne_empty hname.ne_current hbase hnames hne,
        Path.fence_infix_descend_iff hname.no_slash hname.ne_empty hname.ne_current hother hnames
          hne, hsame]
    -- A name of one byte without stars is a pattern of the start of a path.
    · rcases List.exists_cons_of_ne_nil hname.ne_empty with ⟨c, cs, hcs⟩
      have hfragment : fragment? pattern = none := by
        refine Option.eq_none_iff_forall_ne_some.2 fun mark hmark => ?_
        rcases fragment?_eq_some_iff.1 hmark with ⟨rfl, -, hmarklong⟩
        rw [hpattern, (spells_around hplain).removePairs_eq.1] at hmarklong
        exact hlong hmarklong
      rw [hcs] at hpattern hplain hlong
      cases front with
      | true =>
        have hfirst := Char.utf8Size_pos c
        have hslash := Char.utf8Size_pos '/'
        simp [fence, byteLength] at hlong
        omega
      | false =>
        have hslash : c ≠ '/' := fun heq => hname.no_slash (by simp [hcs, heq])
        have hfirst : IsPlain [c] := isPlain_cons.2 ⟨(isPlain_cons.1 hplain).1, Glob.isPlain_nil⟩
        exact hrelative hfirst hslash hpattern hfragment
  | ending hplain hslash hpattern =>
    rw [Bool.eq_iff_iff, covers_descend_ending_iff hplain hslash hpattern hparse hbase hnames hne,
      covers_descend_ending_iff hplain hslash hpattern hparse hother hnames hne, hreported]
  | relative hplain hslash hpattern hfragment => exact hrelative hplain hslash hpattern hfragment

/-- The patterns that are excluded by default are local. -/
theorem isLocal_default : ∀ pattern ∈ Discovery.defaultExclude, IsLocal pattern := by
  have hmodules : IsName "node_modules" := by decide
  have hdist : IsName "dist" := by decide
  intro pattern hpattern
  rcases List.mem_pair.1 hpattern with rfl | rfl
  · exact IsLocal.around true true hmodules (by rw [isPlain_iff]; decide) (by decide)
  · exact IsLocal.around true true hdist (by rw [isPlain_iff]; decide) (by decide)

/-- Roots whose texts differ by a slash at the end exclude the same paths below them. -/
theorem covers_descend_eq_of_opened_eq (hbase : base.text ≠ "") (hother : other.text ≠ "")
    (hopened : base.opened = other.opened) (hnames : ∀ name ∈ names, IsName name) (hne : names ≠ []) :
    exclude.covers base (base.descend names) = exclude.covers other (other.descend names) := by
  have htext : (base.descend names).text = (other.descend names).text := by
    rw [← String.toList_inj, Path.text_descend hbase hnames hne,
      Path.text_descend hother hnames hne, hopened]
  have hreported : base.reportedFrom (base.descend names) =
      other.reportedFrom (other.descend names) := by
    rw [Path.reportedFrom_descend hbase hnames hne, Path.reportedFrom_descend hother hnames hne]
  rw [Path.reportedFrom, Path.reportedFrom] at hreported
  rw [covers, covers, htext, hreported]

end Exclude
end TypeNameLint
