import TypeNameLint.Proofs.FileStore.Descent

/-!
# Removal — a store without one of its files

Removing a file leaves its directory, and every path that leads anywhere leads there still. This
file defines:

* `FileStore.without`: the store without a file;

and proves what the removal does to the look-ups of files and paths, and that it commutes with
writing other files.
-/

namespace TypeNameLint
namespace FileStore

variable {store : FileStore} {cwd names other directory : Names} {path : Path} {content : Content}

/-- The store without a file, whose directory stays. -/
def without (store : FileStore) (names : Names) : FileStore where
  files := store.files.filter fun file => file.1 ≠ names
  directories := store.directories ++ [names.dropLast]
  foreign := store.foreign

/-! ## Files and directories -/

theorem file?_without (store : FileStore) (names other : Names) :
    (store.without names).file? other = if other = names then none else store.file? other :=
  lookup_filter_ne store.files names other

/-- What is above a file is its directory or above that. -/
theorem prefix_dropLast_iff (hne : names ≠ []) :
    other <+: names.dropLast ↔ other <+: names ∧ other ≠ names := by
  rcases List.eq_nil_or_concat names with hnil | ⟨above, last, hnames⟩
  · exact absurd hnil hne
  · rw [List.concat_eq_append] at hnames
    subst hnames
    rw [List.dropLast_concat, List.prefix_concat_iff]
    constructor
    · intro hprefix
      refine ⟨Or.inr hprefix, ?_⟩
      rintro rfl
      have hlength := hprefix.length_le
      rw [List.length_append, List.length_singleton] at hlength
      omega
    · rintro ⟨heq | hprefix, hother⟩
      · exact absurd heq hother
      · exact hprefix

theorem isDirectory_eq_true_iff :
    store.isDirectory names = true ↔ names = [] ∨ (∃ made ∈ store.directories, names <+: made) ∨
      ∃ file ∈ store.files.map Prod.fst, names <+: file ∧ names ≠ file := by
  simp [isDirectory, List.isPrefixOf_iff_prefix, or_assoc]

theorem mem_without_iff :
    other ∈ (store.without names).files.map Prod.fst ↔
      other ∈ store.files.map Prod.fst ∧ other ≠ names := by
  simp only [without, List.mem_map, List.mem_filter, decide_eq_true_eq]
  constructor
  · rintro ⟨file, ⟨hfile, hne⟩, rfl⟩
    exact ⟨⟨file, hfile, rfl⟩, hne⟩
  · rintro ⟨⟨file, hfile, rfl⟩, hne⟩
    exact ⟨file, ⟨hfile, hne⟩, rfl⟩

/-- No directory goes with a file. -/
theorem isDirectory_without (hwf : store.WellFormed) (hfile : (store.file? names).isSome)
    (other : Names) : (store.without names).isDirectory other = store.isDirectory other := by
  have hne : names ≠ [] := by
    rintro rfl
    have hleaf := hwf.isDirectory_eq_false hfile
    simp [isDirectory] at hleaf
  have hmem : names ∈ store.files.map Prod.fst := by
    rwa [isSome_file?, List.contains_iff_mem] at hfile
  rw [Bool.eq_iff_iff, isDirectory_eq_true_iff, isDirectory_eq_true_iff]
  simp only [mem_without_iff]
  constructor
  · rintro (hroot | ⟨made, hmade, hprefix⟩ | ⟨file, ⟨hfile, -⟩, hprefix⟩)
    · exact Or.inl hroot
    · rcases List.mem_append.1 hmade with hmade | hmade
      · exact Or.inr (Or.inl ⟨made, hmade, hprefix⟩)
      -- The directory of the removed file was a directory for being above the file.
      · rw [List.mem_singleton.1 hmade] at hprefix
        exact Or.inr (Or.inr ⟨names, hmem, (prefix_dropLast_iff hne).1 hprefix⟩)
    · exact Or.inr (Or.inr ⟨file, hfile, hprefix⟩)
  · rintro (hroot | ⟨made, hmade, hprefix⟩ | ⟨file, hfile, hprefix⟩)
    · exact Or.inl hroot
    · exact Or.inr (Or.inl ⟨made, List.mem_append_left _ hmade, hprefix⟩)
    · by_cases hsame : file = names
      · subst hsame
        exact Or.inr (Or.inl ⟨_, List.mem_append_right _ (List.mem_singleton_self _),
          (prefix_dropLast_iff hne).2 hprefix⟩)
      · exact Or.inr (Or.inr ⟨file, ⟨hfile, hsame⟩, hprefix⟩)

theorem entry?_without (hwf : store.WellFormed) (hfile : (store.file? names).isSome)
    (other : Names) :
    FileStore.entry? (store.without names) other =
      if other = names then none else store.entry? other := by
  unfold entry?
  rw [file?_without, isDirectory_without hwf hfile]
  by_cases hsame : other = names
  · subst hsame
    simp [hwf.isDirectory_eq_false hfile]
  · simp [hsame]

/-- The other files below a directory are found in the same order. -/
theorem below_without (store : FileStore) (names directory : Names) :
    (store.without names).below directory =
      (store.below directory).filter fun below => directory ++ below ≠ names := by
  have hfiles : (store.without names).files.map Prod.fst =
      (store.files.map Prod.fst).filter fun other => other ≠ names := by
    rw [List.filter_map]
    rfl
  rw [below_eq_filterMap, below_eq_filterMap, hfiles, List.filterMap_filter, List.filter_filterMap]
  congr 1
  funext other
  cases hrest : restBelow? directory other with
  | none => simp
  | some below =>
    obtain rfl : other = directory ++ below := restBelow?_eq_some_iff.1 hrest
    by_cases hsame : directory ++ below = names <;> simp [hsame, Option.filter]

/-! ## Paths -/

/-- The removed file was no directory, so paths that lead somewhere do not go through it. -/
theorem step_without (hwf : store.WellFormed) (hfile : (store.file? names).isSome)
    {piece : List Char} {next : Names} :
    (store.without names).step other piece = .ok next ↔ store.step other piece = .ok next := by
  unfold step
  rw [entry?_without hwf hfile]
  by_cases hsame : other = names
  · subst hsame
    rcases Option.isSome_iff_exists.1 hfile with ⟨content, hcontent⟩
    rw [if_pos rfl, entry?_eq_file_iff.2 hcontent]
    constructor
    · intro h
      cases h
    · intro h
      cases h
  · rw [if_neg hsame]

theorem resolve_without (hwf : store.WellFormed) (hfile : (store.file? names).isSome) :
    (store.without names).resolve cwd path = .ok other ↔ store.resolve cwd path = .ok other := by
  have hsteps : ∀ (pieces : List (List Char)) (start : Names),
      pieces.foldlM (store.without names).step start = .ok other ↔
        pieces.foldlM store.step start = .ok other := by
    intro pieces
    induction pieces with
    | nil => exact fun _ => Iff.rfl
    | cons piece pieces ih =>
      intro start
      simp only [List.foldlM_cons, bind_eq_ok_iff, step_without hwf hfile, ih]
  rw [resolve, resolve]
  split
  · exact Iff.rfl
  · exact hsteps _ _

/-- What is found elsewhere is found as before. -/
theorem find_without (hwf : store.WellFormed) (hfile : (store.file? names).isSome)
    (hresolve : store.resolve cwd path = .ok other) (hne : other ≠ names) :
    (store.without names).find cwd path = store.find cwd path := by
  rw [find, find, hresolve, (resolve_without hwf hfile).2 hresolve]
  simp only [entry?_without hwf hfile, if_neg hne]

/-! ## Writing -/

theorem put_without (store : FileStore) (hne : other ≠ names) (content : Content) :
    (store.put other content).without names = (store.without names).put other content := by
  have hfile : ((store.without names).file? other) = store.file? other := by
    rw [file?_without, if_neg hne]
  rw [put, put, hfile]
  split
  -- The file is there, and keeps its place among those that are left.
  · simp only [without, FileStore.mk.injEq, and_true, List.filter_map]
    congr 1
    refine List.filter_congr fun file _ => ?_
    by_cases hsame : file.1 = other
    · simp [hsame]
    · simp [hsame]
  · simp [without, List.filter_append, hne]

/-- A file can be removed before or after another one is written. -/
theorem write_without (hwf : store.WellFormed) (hfile : (store.file? names).isSome)
    (hresolve : store.resolve cwd path = .ok other) (hne : other ≠ names) (text : String) :
    (store.without names).write cwd path text =
      (store.write cwd path text).map fun after => after.without names := by
  rw [write, write, hresolve, (resolve_without hwf hfile).2 hresolve]
  simp only [isDirectory_without hwf hfile, ← put_without store hne]
  split <;> rfl

end FileStore
end TypeNameLint
