import TypeNameLint.Proofs.Data.Steps
import TypeNameLint.Proofs.FileStore.Content

/-!
# Descent — paths that go down from a directory

A path that leads to a directory leads to the files below it when their names are joined to it, so
that files below one directory have paths that lead to different places. Pieces that stand for no
component lead nowhere else, so the way to a directory is told by the components of its path. This
file defines:

* `FileStore.LeadsThrough`: components that lead to a directory, through directories.

The main results are `resolve_descend`, `nodup_below` and `resolve_directory_iff`.
-/

namespace TypeNameLint
namespace FileStore

variable {store : FileStore} {cwd names directory below : Names} {path : Path} {name : String}

/-! ## Files below a directory -/

theorem text_ne_empty_of_resolve (h : store.resolve cwd path = .ok names) : path.text ≠ "" := by
  intro hempty
  simp [resolve, hempty] at h

theorem mem_below_iff : below ∈ store.below directory ↔
    directory ++ below ∈ store.files.map Prod.fst := by
  rw [below_eq_filterMap, List.mem_filterMap]
  constructor
  · rintro ⟨names, hnames, hrest⟩
    rwa [← restBelow?_eq_some_iff.1 hrest]
  · intro h
    exact ⟨directory ++ below, h, restBelow?_eq_some_iff.2 rfl⟩

theorem isSome_file?_of_mem_below (h : below ∈ store.below directory) :
    (store.file? (directory ++ below)).isSome := by
  rw [isSome_file?, List.contains_iff_mem]
  exact mem_below_iff.1 h

theorem WellFormed.isName (hwf : store.WellFormed) (h : (store.file? names).isSome) :
    ∀ name ∈ names, IsName name := by
  rw [isSome_file?, List.contains_iff_mem] at h
  rcases List.mem_map.1 h with ⟨file, hfile, rfl⟩
  exact hwf.names file hfile

theorem WellFormed.isDirectory_eq_false (hwf : store.WellFormed)
    (h : (store.file? names).isSome) : store.isDirectory names = false := by
  rw [isSome_file?, List.contains_iff_mem] at h
  rcases List.mem_map.1 h with ⟨file, hfile, rfl⟩
  exact hwf.leaf file hfile

/-- No file has anything below it. -/
theorem WellFormed.entry?_of_isDirectory (hwf : store.WellFormed)
    (h : store.isDirectory directory = true) : store.entry? directory = some .directory := by
  have hnone : store.file? directory = none := by
    cases hfile : store.file? directory with
    | none => rfl
    | some content =>
      have hsome : (store.file? directory).isSome := by simp [hfile]
      have hleaf := hwf.isDirectory_eq_false hsome
      rw [h] at hleaf
      cases hleaf
  exact entry?_eq_directory_iff.2 ⟨hnone, h⟩

/-- What stands above a file is a directory. -/
theorem WellFormed.entry?_of_file_below (hwf : store.WellFormed) (hne : below ≠ [])
    (h : (store.file? (directory ++ below)).isSome) :
    store.entry? directory = some .directory := by
  refine hwf.entry?_of_isDirectory ?_
  rw [isSome_file?, List.contains_iff_mem] at h
  rcases List.mem_map.1 h with ⟨file, hfile, hname⟩
  -- The file itself shows that there is a directory.
  have habove : (store.files.any fun file =>
      directory.isPrefixOf file.1 && directory ≠ file.1) = true := by
    refine List.any_eq_true.2 ⟨file, hfile, ?_⟩
    simp [hname, hne]
  rw [isDirectory, habove, Bool.or_true]

/-- What stands above a directory is a directory. -/
theorem WellFormed.entry?_of_directory_below (hwf : store.WellFormed)
    (h : store.entry? (directory ++ below) = some .directory) :
    store.entry? directory = some .directory := by
  refine hwf.entry?_of_isDirectory ?_
  have hbelow := (entry?_eq_directory_iff.1 h).2
  simp only [isDirectory, Bool.or_eq_true, List.any_eq_true, Bool.and_eq_true,
    List.isPrefixOf_iff_prefix, List.isEmpty_iff, decide_eq_true_eq] at hbelow ⊢
  have hfront : directory <+: directory ++ below := List.prefix_append directory below
  rcases hbelow with (hempty | ⟨other, hother, hstarts⟩) | ⟨file, hfile, hstarts, hne⟩
  · exact Or.inl (Or.inl (List.append_eq_nil_iff.1 hempty).1)
  · exact Or.inl (Or.inr ⟨other, hother, hfront.trans hstarts⟩)
  · refine Or.inr ⟨file, hfile, hfront.trans hstarts, ?_⟩
    -- What has the names of a file has nothing below it.
    rintro rfl
    exact hne (hstarts.eq_of_length_le hfront.length_le)

theorem nodup_below (hwf : store.WellFormed) (directory : Names) :
    (store.below directory).Nodup := by
  rw [below_eq_filterMap, List.Nodup, List.pairwise_filterMap]
  refine hwf.nodup.imp ?_
  intro names others hne rest hrest rest' hrest' heq
  refine hne ?_
  rw [restBelow?_eq_some_iff.1 hrest, restBelow?_eq_some_iff.1 hrest', heq]

/-! ## Paths -/

theorem step_of_isName (hname : IsName name) (h : store.entry? names = some .directory) :
    store.step names name.toList = .ok (names ++ [name]) := by
  unfold step
  rw [h]
  dsimp only
  split
  · rename_i heq
    exact absurd heq hname.ne_empty
  · rename_i heq
    exact absurd heq hname.ne_current
  · rename_i heq
    exact absurd heq hname.ne_parent
  · rw [String.ofList_toList]

/-- A name joined to the path of a directory leads to what has that name there. -/
theorem resolve_join (hname : IsName name) (hresolve : store.resolve cwd path = .ok names)
    (hdirectory : store.entry? names = some .directory) :
    store.resolve cwd (path.join ⟨name⟩) = .ok (names ++ [name]) := by
  have hpath : path.text ≠ "" := text_ne_empty_of_resolve hresolve
  have hstep := step_of_isName hname hdirectory
  rw [resolve, if_neg (by simpa using hpath)] at hresolve
  rw [resolve, if_neg (by simpa using Path.text_join_ne_empty hname),
    Path.isAbsolute_join hpath hname]
  rcases Path.pieces_join hpath hname with hpieces | ⟨before, -, hp, hpieces⟩
  · rw [hpieces]
    exact foldlM_concat_eq_ok_iff.2 ⟨names, hresolve, hstep⟩
  · -- The empty piece behind the slash leads nowhere else, and the name takes its place.
    rw [hp] at hresolve
    rcases foldlM_concat_eq_ok_iff.1 hresolve with ⟨middle, hmiddle, hidle⟩
    have hsame : middle = names := by
      unfold step at hidle
      split at hidle
      · cases hidle
      · cases hidle
      · exact Except.ok.inj hidle
    rw [hsame] at hmiddle
    rw [hpieces]
    exact foldlM_concat_eq_ok_iff.2 ⟨names, hmiddle, hstep⟩

/-- The names of a file below a directory, joined to the path of the directory, lead to the file. -/
theorem resolve_descend (hwf : store.WellFormed) (hresolve : store.resolve cwd path = .ok names)
    (hfile : (store.file? (names ++ below)).isSome) :
    store.resolve cwd (path.descend below) = .ok (names ++ below) := by
  induction below generalizing path names with
  | nil => simpa [Path.descend] using hresolve
  | cons name below ih =>
    have hname : IsName name := hwf.isName hfile name (by simp)
    -- The induction is on the names still to come: what was reached is a directory as long as there
    -- are any.
    have hdirectory : store.entry? names = some .directory :=
      hwf.entry?_of_file_below (by simp) hfile
    have hnext := resolve_join hname hresolve hdirectory
    have hsplit : names ++ name :: below = names ++ [name] ++ below := by simp
    rw [hsplit] at hfile ⊢
    exact ih hnext hfile

/-- A file below a directory is reached over the path of the directory and plain names. -/
theorem leadsToFile_descend (hwf : store.WellFormed) (hresolve : store.resolve cwd path = .ok names)
    (h : below ∈ store.below names) :
    store.LeadsToFile cwd (path.descend below) (names ++ below) ∧ ∀ name ∈ below, IsName name := by
  have hfile := isSome_file?_of_mem_below h
  refine ⟨⟨resolve_descend hwf hresolve hfile, hfile⟩, ?_⟩
  intro name hname
  exact hwf.isName hfile name (List.mem_append_right names hname)

/-! ## Directories -/

/-- Where a component leads from a directory. -/
def move (names : Names) : Path.Component → Names
  | .root => names
  | .current => names
  | .parent => names.dropLast
  | .name name => names ++ [name]

/-- Components lead from one directory to another one, with directories on the way. -/
def LeadsThrough (store : FileStore) (names : Names) : List Path.Component → Names → Prop
  | [], last => names = last ∧ store.entry? names = some .directory
  | component :: rest, last =>
    store.entry? names = some .directory ∧ store.LeadsThrough (move names component) rest last

theorem LeadsThrough.entry?_eq {components : List Path.Component} {last : Names}
    (h : store.LeadsThrough names components last) : store.entry? names = some .directory := by
  cases components with
  | nil => exact h.2
  | cons component rest => exact h.1

/-- A piece leads where its component does, and nowhere else if it stands for none. -/
theorem step_eq_ok_iff {piece : List Char} {next : Names} :
    store.step names piece = .ok next ↔ store.entry? names = some .directory ∧
      ((Path.Component.ofPiece? piece).map (move names)).getD names = next := by
  unfold step Path.Component.ofPiece?
  cases store.entry? names with
  | none => simp
  | some entry =>
    cases entry with
    | file content => simp
    | directory =>
      dsimp only
      -- The two definitions tell the same kinds of pieces apart.
      split <;> simp [move]

theorem foldlM_step_iff {pieces : List (List Char)} {last : Names} :
    (pieces.foldlM store.step names = .ok last ∧ store.entry? last = some .directory) ↔
      store.LeadsThrough names (pieces.filterMap Path.Component.ofPiece?) last := by
  induction pieces generalizing names with
  | nil =>
    constructor
    · rintro ⟨hlast, hdirectory⟩
      cases hlast
      exact ⟨rfl, hdirectory⟩
    · rintro ⟨rfl, hdirectory⟩
      exact ⟨rfl, hdirectory⟩
  | cons piece pieces ih =>
    have hsplit : ((piece :: pieces).foldlM store.step names = .ok last ∧
          store.entry? last = some .directory) ↔
        store.entry? names = some .directory ∧ store.LeadsThrough
          (((Path.Component.ofPiece? piece).map (move names)).getD names)
            (pieces.filterMap Path.Component.ofPiece?) last := by
      rw [← ih, List.foldlM_cons, bind_eq_ok_iff]
      simp only [step_eq_ok_iff]
      constructor
      · rintro ⟨⟨next, ⟨hdirectory, rfl⟩, hrest⟩, hlast⟩
        exact ⟨hdirectory, hrest, hlast⟩
      · rintro ⟨hdirectory, hrest, hlast⟩
        exact ⟨⟨_, ⟨hdirectory, rfl⟩, hrest⟩, hlast⟩
    rw [hsplit]
    cases hpiece : Path.Component.ofPiece? piece with
    | none =>
      rw [List.filterMap_cons_none hpiece]
      exact and_iff_right_of_imp LeadsThrough.entry?_eq
    | some component =>
      rw [List.filterMap_cons_some hpiece]
      rfl

/-- An absolute path leads to a directory if its components do. -/
theorem resolve_directory_iff (h : path.isAbsolute = true) :
    (store.resolve cwd path = .ok names ∧ store.entry? names = some .directory) ↔
      store.LeadsThrough [] path.components.tail names := by
  have hne : path.text ≠ "" := Path.text_ne_empty_of_isAbsolute h
  rw [resolve, if_neg (by simpa using hne), if_pos h, ← Path.filterMap_pieces_of_isAbsolute h]
  exact foldlM_step_iff

end FileStore
end TypeNameLint
