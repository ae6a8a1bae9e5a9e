import TypeNameLint.Proofs.Exclude.Locality
import TypeNameLint.Proofs.Text.Offsets

/-!
# Directories — patterns that leave out all directories of a name

A name with stars on both sides excludes the files in directories of that name. It is compared with
the whole names of the directories, those above the root too, and not with the name of the file.
This file defines:

* `Path.directories`: the directories that the text of a path names.

The main result is `covers_directory_iff`.
-/

namespace TypeNameLint

/-- The directories that the text of a path names, from the first one on: all that stands between
its slashes but the last piece. -/
def Path.directories (p : Path) : List String :=
  p.pieces.dropLast.map String.ofList

theorem Path.mem_directories_iff {p : Path} {name : String} :
    name ∈ p.directories ↔ name.toList ∈ p.pieces.dropLast := by
  rw [directories, List.mem_map]
  constructor
  · rintro ⟨piece, hpiece, rfl⟩
    rwa [String.toList_ofList]
  · intro hmem
    exact ⟨name.toList, hmem, String.ofList_toList⟩

namespace Exclude

open Glob (IsPlain isPlain_iff)
open Text (byteLength fence)

variable {analysis : Analysis} {store : FileStore} {paths : List Path} {path : Path}

/-- What is left of a walked path below the root is empty, if the root is a file, or the end of the
path, behind a slash. -/
theorem text_relativeTo?_of_walk (hwf : store.WellFormed) (hroot : analysis.root.isAbsolute = true)
    (hwalk : analysis.walk store = .ok paths) (hpath : path ∈ paths) :
    path.isAbsolute = true ∧
      (((path.relativeTo? analysis.root).getD path).text = "" ∨
        ('/' :: ((path.relativeTo? analysis.root).getD path).text.toList) <:+
          path.text.toList) := by
  cases Analysis.walk_eq_ok_iff.1 hwalk with
  | file =>
    obtain rfl := List.mem_singleton.1 hpath
    rw [Path.relativeTo?_self hroot]
    exact ⟨hroot, Or.inl rfl⟩
  | @directory names hresolve hfound =>
    rcases List.mem_map.1 hpath with ⟨below, hbelow, rfl⟩
    rcases Analysis.leadsToFile_of_visible hwf hresolve hbelow with ⟨hleads, hnames⟩
    have hne : below ≠ [] := by
      rintro rfl
      rw [List.append_nil] at hleads
      exact FileStore.entry?_ne_directory hleads.2 hfound
    rcases Path.exists_text_descend (Path.text_ne_empty_of_isAbsolute hroot) hnames hne with
      ⟨above, habove⟩
    refine ⟨Path.isAbsolute_descend hroot below, Or.inr ?_⟩
    rw [habove]
    exact List.suffix_append above _

/-- A plain name with stars on both sides can be read as a pattern, and of the paths of a walk it
excludes just those with a directory of exactly this name, anywhere in the path. -/
theorem covers_directory_iff (analysis : Analysis) (store : FileStore) (paths : List Path)
    (path : Path) (name : String) (hwf : store.WellFormed)
    (hroot : analysis.root.isAbsolute = true) (hwalk : analysis.walk store = .ok paths)
    (hpath : path ∈ paths) (hne : name ≠ "") (hslash : '/' ∉ name.toList)
    (hplain : IsPlain name.toList) :
    ∃ exclude, parse ("**/" ++ name ++ "/**") = .ok exclude ∧
      (exclude.covers analysis.root path = true ↔ name ∈ path.directories) ∧
      (analysis.exclude = [exclude] →
        (analysis.isExcluded path = true ↔ name ∈ path.directories)) := by
  have hempty : name.toList ≠ [] := by simpa using hne
  have hpattern : ("**/" ++ name ++ "/**").toList = Glob.around true true name.toList := by
    simp [Glob.around]
  have hlong : 1 < byteLength (fence '/' true true name.toList) := by
    refine Nat.lt_of_lt_of_le ?_ (Text.length_le_byteLength _)
    simp [fence]
  have hparse : parse ("**/" ++ name ++ "/**") = .ok ⟨_, fragment? ("**/" ++ name ++ "/**")⟩ :=
    parse_eq_ok_iff.2 ⟨Glob.parse_around hplain hpattern, rfl⟩
  rcases text_relativeTo?_of_walk hwf hroot hwalk hpath with ⟨habsolute, hbelow⟩
  have hstart : path.text.toList.head? = some '/' := by
    simpa [Path.isAbsolute] using habsolute
  have hcovers := covers_around_iff hempty hslash hplain hpattern hparse hlong habsolute hbelow
  rw [Text.fence_infix_iff_mem hslash hempty hstart, ← Path.pieces, ← Path.mem_directories_iff]
    at hcovers
  refine ⟨_, hparse, hcovers, ?_⟩
  intro hexclude
  rw [Analysis.isExcluded, hexclude, List.any_cons, List.any_nil, Bool.or_false]
  exact hcovers

/-- The pattern of the directories with a name that has no wildcards. -/
def directoryExclude (name : String) : Exclude :=
  ⟨⟨.directories :: name.toList.map Glob.Token.char ++ [.char '/', .directories]⟩,
    some ('/' :: name.toList ++ ['/'])⟩

/-- A run that lists files, with the directories of one name left out. -/
def listingWithout (name : String) : Analysis :=
  { listing with exclude := [directoryExclude name] }

/-- The directory of the file is left out by its name; the name of the file is none of a
directory. -/
theorem isExcluded_listedStore :
    listedStore.WellFormed ∧ listing.root.isAbsolute = true ∧
      parse "**/lib/**" = .ok (directoryExclude "lib") ∧
      parse "**/src-map.ts/**" = .ok (directoryExclude "src-map.ts") ∧
      (listingWithout "lib").isExcluded ⟨"/w/lib/src-map.ts"⟩ = true ∧
      (listingWithout "src-map.ts").isExcluded ⟨"/w/lib/src-map.ts"⟩ = false := by
  have hwf : listedStore.WellFormed := by decide
  have hroot : listing.root.isAbsolute = true := rfl
  have hpath : (⟨"/w/lib/src-map.ts"⟩ : Path) ∈ [(⟨"/w/lib/src-map.ts"⟩ : Path)] := by simp
  have hlib : parse "**/lib/**" = .ok (directoryExclude "lib") := rfl
  have hown : parse "**/src-map.ts/**" = .ok (directoryExclude "src-map.ts") := rfl
  refine ⟨hwf, hroot, hlib, hown, ?_, ?_⟩
  · rcases covers_directory_iff (listingWithout "lib") listedStore _ _ "lib" hwf hroot
      walk_listedStore hpath (by decide) (by decide) (by rw [isPlain_iff]; decide) with
      ⟨exclude, hparse, -, hexcluded⟩
    obtain rfl : directoryExclude "lib" = exclude := Except.ok.inj (hlib.symm.trans hparse)
    exact (hexcluded rfl).2 (by decide)
  · rcases covers_directory_iff (listingWithout "src-map.ts") listedStore _ _ "src-map.ts" hwf hroot
      walk_listedStore hpath (by decide) (by decide) (by rw [isPlain_iff]; decide) with
      ⟨exclude, hparse, -, hexcluded⟩
    obtain rfl : directoryExclude "src-map.ts" = exclude := Except.ok.inj (hown.symm.trans hparse)
    exact Bool.eq_false_iff.2 fun htrue => absurd ((hexcluded rfl).1 htrue) (by decide)

end Exclude
end TypeNameLint
