import TypeNameLint.Exclude
import TypeNameLint.Proofs.Analysis.Discovery
import TypeNameLint.Proofs.Glob.Reading
import TypeNameLint.Proofs.Path.Below
import TypeNameLint.Proofs.Text.Occurrences

/-!
# Fallback — which patterns exclude more than they match

A pattern also excludes the paths that contain what is left of it without `**`, if that is plain and
longer than one byte. So a pattern with another wildcard excludes what it matches. Of the others,
and for paths without repeated slashes, those exclude more that spell out a text and have `**` at
most in front of it and behind it; a text without any `**` is one of them. This file defines:

* `Exclude.Matches`: paths that a pattern matches, absolute or relative to the root;
* `Exclude.JoinsPlain`: patterns without other wildcards than `**`;
* `Exclude.Spells`: patterns that spell out a text, and what they leave.

The main result is `covers_walked_iff`.
-/

namespace TypeNameLint
namespace Exclude

open Glob (IsPlain isPlain_append isPlain_cons isPlain_iff isPlain_nil)
open Text (byteLength removePairs)

variable {cs rest mark : List Char} {pattern : String} {exclude : Exclude} {root path : Path}

/-! ## Patterns without `**` -/

theorem removePairs_cons {c : Char} (h : c ≠ '*') (cs : List Char) :
    removePairs '*' '*' (c :: cs) = c :: removePairs '*' '*' cs := by
  cases cs with
  | nil => rfl
  | cons d cs => simp [removePairs, h]

theorem removePairs_append (h : IsPlain cs) (rest : List Char) :
    removePairs '*' '*' (cs ++ rest) = cs ++ removePairs '*' '*' rest := by
  induction cs with
  | nil => rfl
  | cons c cs ih =>
    rcases isPlain_cons.1 h with ⟨⟨hstar, -⟩, hplain⟩
    rw [List.cons_append, removePairs_cons hstar, ih hplain, List.cons_append]

theorem removePairs_of_isPlain (h : IsPlain cs) : removePairs '*' '*' cs = cs := by
  have hself := removePairs_append h []
  simpa [removePairs] using hself

theorem removePairs_stars (rest : List Char) :
    removePairs '*' '*' ('*' :: '*' :: rest) = removePairs '*' '*' rest := by
  simp [removePairs]

/-- What is left of a pattern is plain only if its first wildcard, if there is one, is `**`. -/
theorem exists_split_of_isPlain (h : IsPlain (removePairs '*' '*' cs)) :
    ∃ plain rest, cs = plain ++ rest ∧ IsPlain plain ∧
      (rest = [] ∨ ∃ more, rest = '*' :: '*' :: more ∧ IsPlain (removePairs '*' '*' more)) := by
  induction cs with
  | nil => exact ⟨[], [], rfl, isPlain_nil, Or.inl rfl⟩
  | cons c cs ih =>
    by_cases hstar : c = '*'
    · subst hstar
      cases cs with
      | nil => simp [removePairs, IsPlain] at h
      | cons d more =>
        by_cases hd : d = '*'
        · subst hd
          rw [removePairs_stars] at h
          exact ⟨[], _, rfl, isPlain_nil, Or.inr ⟨more, rfl, h⟩⟩
        -- A single star is kept.
        · simp [removePairs, hd, IsPlain] at h
    · rw [removePairs_cons hstar] at h
      rcases isPlain_cons.1 h with ⟨hc, hplain⟩
      rcases ih hplain with ⟨plain, rest, rfl, hplain, hrest⟩
      exact ⟨c :: plain, rest, rfl, isPlain_cons.2 ⟨hc, hplain⟩, hrest⟩

/-- A pattern of plain texts with `**` between neighbours. -/
def JoinsPlain (cs : List Char) : Prop :=
  ∃ texts : List (List Char), (∀ text ∈ texts, IsPlain text) ∧ cs = ['*', '*'].intercalate texts

theorem joinsPlain_of_isPlain (h : IsPlain (removePairs '*' '*' cs)) : JoinsPlain cs := by
  induction hlength : cs.length using Nat.strongRecOn generalizing cs with
  | ind n ih =>
    rcases exists_split_of_isPlain h with ⟨plain, rest, rfl, hplain, rfl | ⟨more, rfl, hmore⟩⟩
    · exact ⟨[plain], by simpa using hplain, by simp [List.intercalate]⟩
    · -- The text in front of the first `**` is one more text.
      have hshorter : more.length < n := by
        rw [← hlength, List.length_append, List.length_cons, List.length_cons]
        omega
      rcases ih more.length hshorter hmore rfl with ⟨texts, htexts, rfl⟩
      cases texts with
      | nil => exact ⟨[plain, []], by simp [hplain], by simp [List.intercalate]⟩
      | cons text texts =>
        refine ⟨plain :: text :: texts, ?_, by simp [List.intercalate]⟩
        exact List.forall_mem_cons.2 ⟨hplain, htexts⟩

/-- Patterns that spell out a text, with `**` at most in front of it and behind it, and what is left
of them without `**`. -/
inductive Spells : List Char → List Char → Prop
  | text {text : List Char} (plain : IsPlain text) : Spells text text
  | below {text : List Char} (plain : IsPlain text) :
      Spells ('*' :: '*' :: '/' :: text) ('/' :: text)
  | above {text : List Char} (plain : IsPlain text) :
      Spells (text ++ ['/', '*', '*']) (text ++ ['/'])
  | between {text : List Char} (plain : IsPlain text) :
      Spells ('*' :: '*' :: '/' :: text ++ ['/', '*', '*']) ('/' :: text ++ ['/'])

theorem Spells.removePairs_eq (h : Spells cs mark) :
    removePairs '*' '*' cs = mark ∧ IsPlain mark := by
  have hslash : IsPlain ['/'] := by simp [IsPlain]
  cases h with
  | text hplain => exact ⟨removePairs_of_isPlain hplain, hplain⟩
  | below hplain =>
    refine ⟨?_, isPlain_append.2 ⟨hslash, hplain⟩⟩
    rw [removePairs_stars, removePairs_cons (by decide), removePairs_of_isPlain hplain]
  | above hplain =>
    refine ⟨?_, isPlain_append.2 ⟨hplain, hslash⟩⟩
    rw [removePairs_append hplain]
    rfl
  | @between text hplain =>
    refine ⟨?_, isPlain_append.2 ⟨isPlain_append.2 ⟨hslash, hplain⟩, hslash⟩⟩
    rw [List.cons_append, List.cons_append, List.cons_append, removePairs_stars,
      removePairs_cons (by decide), removePairs_append hplain]
    rfl

/-- A pattern that can be read and leaves a plain text spells it out, unless `**` is between two
plain texts, which leaves a repeated slash. -/
theorem spells_or_repeats {tokens : List Glob.Token} (hscan : Glob.scan [] 0 0 none cs = .ok tokens)
    (hplain : IsPlain (removePairs '*' '*' cs)) (hlong : 1 < byteLength (removePairs '*' '*' cs)) :
    Spells cs (removePairs '*' '*' cs) ∨ ['/', '/'] <:+: removePairs '*' '*' cs := by
  rcases exists_split_of_isPlain hplain with ⟨first, rest, rfl, hfirst, rfl | ⟨more, rfl, -⟩⟩
  · left
    simpa [removePairs_of_isPlain hfirst] using Spells.text hfirst
  · rw [removePairs_append hfirst, removePairs_stars] at hplain hlong ⊢
    rcases Glob.of_scan_plain_stars hfirst hscan with ⟨hstart, rfl | ⟨after, rfl, _, _, hafter⟩⟩
    -- The pattern ends with `**`.
    · rcases hstart with rfl | ⟨front, rfl⟩
      · exact absurd hlong (by decide)
      · left
        simpa [removePairs] using Spells.above (isPlain_append.1 hfirst).1
    · rw [removePairs_cons (by decide)] at hplain hlong ⊢
      rcases hstart with rfl | ⟨front, rfl⟩
      -- The pattern starts with `**`, and what follows is of the same kind.
      · rw [List.nil_append] at hplain hlong ⊢
        rcases exists_split_of_isPlain (isPlain_cons.1 hplain).2 with
          ⟨second, rest, rfl, hsecond, rfl | ⟨more, rfl, -⟩⟩
        · left
          simpa [removePairs_of_isPlain hsecond] using Spells.below hsecond
        · rw [removePairs_append hsecond, removePairs_stars] at hlong ⊢
          rcases Glob.of_scan_plain_stars hsecond hafter with
            ⟨hend, rfl | ⟨last, rfl, -⟩⟩
          · rcases hend with rfl | ⟨text, rfl⟩
            · exact absurd hlong (by decide)
            · left
              simpa [removePairs] using Spells.between (isPlain_append.1 hsecond).1
          · right
            rw [removePairs_cons (by decide)]
            rcases hend with rfl | ⟨text, rfl⟩
            · exact ⟨[], removePairs '*' '*' last, by simp⟩
            · exact ⟨'/' :: text, removePairs '*' '*' last, by simp⟩
      · right
        exact ⟨front, removePairs '*' '*' after, by simp⟩

/-! ## Coverage -/

/-- A pattern matches a path, given as an absolute one or as one relative to the root. -/
def Matches (exclude : Exclude) (root path : Path) : Prop :=
  exclude.glob.isMatch path.text = true ∨
    exclude.glob.isMatch ((path.relativeTo? root).getD path).text = true

theorem parse_eq_ok_iff :
    parse pattern = .ok exclude ↔
      Glob.parse pattern = .ok exclude.glob ∧ fragment? pattern = exclude.fragment := by
  rw [parse]
  cases Glob.parse pattern with
  | error fault => simp [Except.map]
  | ok glob =>
    simp only [Except.map, Except.ok.injEq]
    constructor
    · rintro rfl
      exact ⟨rfl, rfl⟩
    · rintro ⟨rfl, hfragment⟩
      rw [hfragment]

theorem fragment?_eq_some_iff :
    fragment? pattern = some mark ↔
      removePairs '*' '*' pattern.toList = mark ∧ IsPlain mark ∧ 1 < byteLength mark := by
  rw [fragment?]
  split
  · rename_i hfragment
    rw [isFragment, Bool.and_eq_true, Bool.not_eq_true', decide_eq_true_eq, ← isPlain_iff]
      at hfragment
    constructor
    · rintro ⟨rfl⟩
      exact ⟨rfl, hfragment.2, hfragment.1⟩
    · rintro ⟨rfl, -⟩
      rfl
  · rename_i hfragment
    rw [isFragment, Bool.and_eq_true, Bool.not_eq_true', decide_eq_true_eq, ← isPlain_iff]
      at hfragment
    simp only [reduceCtorEq, false_iff]
    rintro ⟨rfl, hplain, hlong⟩
    exact hfragment ⟨hlong, hplain⟩

/-- A pattern excludes what it matches, and the paths in which its fragment occurs. -/
theorem covers_iff (hparse : parse pattern = .ok exclude) :
    exclude.covers root path = true ↔ exclude.Matches root path ∨
      ∃ mark, fragment? pattern = some mark ∧ mark <:+: path.text.toList := by
  rcases parse_eq_ok_iff.1 hparse with ⟨-, hfragment⟩
  simp only [covers, coversTexts, Matches, Bool.or_eq_true, hfragment, Option.any_eq_true,
    Text.contains_iff_infix]

/-! ## Walked paths -/

theorem isClean_of_walk {analysis : Analysis} {store : FileStore} {paths : List Path}
    (hwf : store.WellFormed) (hwalk : analysis.walk store = .ok paths) (hpath : path ∈ paths)
    (hroot : analysis.root.IsClean) : path.IsClean := by
  cases Analysis.walk_eq_ok_iff.1 hwalk with
  | file => rwa [List.mem_singleton.1 hpath]
  | directory hresolve =>
    rcases List.mem_map.1 hpath with ⟨below, hbelow, rfl⟩
    exact Path.isClean_descend hroot (Analysis.leadsToFile_of_visible hwf hresolve hbelow).2

/-- What a pattern excludes of the paths of a walk. A pattern that is more than plain texts with
`**` between them excludes what it matches. Below a root without repeated slashes a pattern excludes
what it matches, and the paths in which a text of more than one byte occurs that it spells out with
`**` at most in front and behind. A plain pattern matches just the path that it spells, but excludes
every absolute path in which it occurs, if it has more than one byte. -/
theorem covers_walked_iff (analysis : Analysis) (store : FileStore) (paths : List Path)
    (path : Path) (pattern : String) (exclude : Exclude) (hwf : store.WellFormed)
    (hwalk : analysis.walk store = .ok paths) (hpath : path ∈ paths)
    (hparse : parse pattern = .ok exclude) :
    (¬ JoinsPlain pattern.toList →
      (exclude.covers analysis.root path = true ↔ exclude.Matches analysis.root path)) ∧
    (analysis.root.IsClean →
      (exclude.covers analysis.root path = true ↔ exclude.Matches analysis.root path ∨
        ∃ mark, Spells pattern.toList mark ∧ 1 < byteLength mark ∧ mark <:+: path.text.toList)) ∧
    (IsPlain pattern.toList →
      (exclude.covers analysis.root path = true ↔ path.text = pattern ∨
        ((path.relativeTo? analysis.root).getD path).text = pattern ∨
          (1 < byteLength pattern.toList ∧ pattern.toList <:+: path.text.toList))) := by
  have hcovers := @covers_iff _ _ analysis.root path hparse
  rcases parse_eq_ok_iff.1 hparse with ⟨hglob, -⟩
  refine ⟨fun hjoins => ?_, fun hroot => ?_, fun hplain => ?_⟩
  · rw [hcovers]
    refine or_iff_left ?_
    rintro ⟨mark, hmark, -⟩
    rcases fragment?_eq_some_iff.1 hmark with ⟨rfl, hmark, -⟩
    exact hjoins (joinsPlain_of_isPlain hmark)
  · rw [hcovers]
    refine or_congr_right (exists_congr fun mark => ?_)
    rw [fragment?_eq_some_iff]
    constructor
    · rintro ⟨⟨rfl, hplain, hlong⟩, hinfix⟩
      rcases spells_or_repeats (Glob.scan_of_parse hglob) hplain hlong with hspells | hrepeats
      · exact ⟨hspells, hlong, hinfix⟩
      -- A repeated slash does not occur in the path, so neither does the fragment.
      · have hclean := isClean_of_walk hwf hwalk hpath hroot
        exact absurd (hrepeats.trans hinfix) hclean.not_infix
    · rintro ⟨hspells, hlong, hinfix⟩
      rcases hspells.removePairs_eq with ⟨hremove, hplain⟩
      exact ⟨⟨hremove, hplain, hlong⟩, hinfix⟩
  · have hmatches : ∀ text, exclude.glob.isMatch text = true ↔ text = pattern := fun _ =>
      Glob.isMatch_of_plain hplain hglob
    have hmark : ∀ mark, fragment? pattern = some mark ↔
        mark = pattern.toList ∧ 1 < byteLength pattern.toList := by
      intro mark
      rw [fragment?_eq_some_iff, removePairs_of_isPlain hplain]
      constructor
      · rintro ⟨rfl, -, hlong⟩
        exact ⟨rfl, hlong⟩
      · rintro ⟨rfl, hlong⟩
        exact ⟨rfl, hplain, hlong⟩
    simp only [hcovers, Matches, hmatches, hmark, or_assoc, and_assoc, exists_eq_left]

/-- A run that only lists files, from a root without repeated slashes. -/
def listing : Analysis where
  root := ⟨"/w"⟩
  rules := []
  languages := []
  exclude := []
  config := .default
  failsWithoutTree := false
  fixes := false

def listedStore : FileStore := ⟨[(["w", "lib", "src-map.ts"], .text "")], [], []⟩

theorem walk_listedStore : listing.walk listedStore = .ok [⟨"/w/lib/src-map.ts"⟩] := by
  have hvisible : (listing.scope listedStore ["w"]).visibleFiles = [["lib", "src-map.ts"]] := by
    decide +kernel
  have hdropped : (listing.scope listedStore ["w"]).droppedAbove.isEmpty = true := by
    decide +kernel
  have hpath : listing.root.descend ["lib", "src-map.ts"] = ⟨"/w/lib/src-map.ts"⟩ := by
    decide +kernel
  have hwalks := Analysis.Walks.of_visibleFiles rfl (by decide +kernel) (by decide +kernel)
    (List.isEmpty_iff.1 hdropped) hvisible
  rw [List.map_singleton, hpath] at hwalks
  exact Analysis.walk_eq_ok_iff.2 hwalks

/-- The pattern `src`, which matches nothing below the root, but occurs in the name of a file. -/
def plainExclude : Exclude := ⟨⟨[.char 's', .char 'r', .char 'c']⟩, some ['s', 'r', 'c']⟩

theorem isPlain_src : IsPlain "src".toList := by
  rw [isPlain_iff]
  decide

theorem parse_src : parse "src" = .ok plainExclude := by
  rfl

theorem covers_listedStore :
    listedStore.WellFormed ∧ listing.walk listedStore = .ok [⟨"/w/lib/src-map.ts"⟩] ∧
      listing.root.IsClean ∧ parse "src" = .ok plainExclude ∧
      plainExclude.covers ⟨"/w"⟩ ⟨"/w/lib/src-map.ts"⟩ = true := by
  have hwf : listedStore.WellFormed := by decide +kernel
  have hroot : listing.root.IsClean := by
    simp [Path.IsClean, listing]
  have hmark : "src".toList <:+: "/w/lib/src-map.ts".toList :=
    ⟨"/w/lib/".toList, "-map.ts".toList, by decide⟩
  have hcovers := (covers_walked_iff listing listedStore _ ⟨"/w/lib/src-map.ts"⟩ "src" plainExclude
    hwf walk_listedStore (by simp) parse_src).2.1 hroot
  exact ⟨hwf, walk_listedStore, hroot, parse_src,
    hcovers.2 (Or.inr ⟨_, Spells.text isPlain_src, by decide, hmark⟩)⟩

/-- A plain pattern excludes a file that it does not match, as it occurs in the path. -/
theorem covers_without_match :
    listing.walk listedStore = .ok [⟨"/w/lib/src-map.ts"⟩] ∧ parse "src" = .ok plainExclude ∧
      (∀ text, "src".toList ≠ "**/".toList ++ text ++ "/**".toList) ∧
      plainExclude.covers listing.root ⟨"/w/lib/src-map.ts"⟩ = true ∧
      ¬ plainExclude.Matches listing.root ⟨"/w/lib/src-map.ts"⟩ := by
  refine ⟨walk_listedStore, parse_src, ?_, by decide +kernel, ?_⟩
  · intro text heq
    have hhead := congrArg List.head? heq
    simp at hhead
  · rw [Matches, not_or]
    exact ⟨by decide +kernel, by decide +kernel⟩

end Exclude
end TypeNameLint
