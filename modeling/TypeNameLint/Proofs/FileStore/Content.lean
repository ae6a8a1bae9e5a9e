import TypeNameLint.FileStore
import TypeNameLint.Proofs.Data.Lists
import TypeNameLint.Proofs.Path.Components

/-!
# Content — writing files changes what they hold, and nothing else

A run only writes to files that it has read. Such a write leaves all names in place, so every path
leads where it led before. This file defines:

* `FileStore.WellFormed`: stores in which every file has one place of its own;
* `FileStore.SameShape`: stores that differ at most in the content of files;
* `FileStore.ModifiesOnly`: stores that differ at most in the content of the given files;

and proves what a write does to the look-ups of files and paths.
-/

namespace TypeNameLint

namespace FileStore

/-- The stores that a file system can hold: names stand for themselves in paths, no two files have
the same place, and no file has anything below it. -/
structure WellFormed (store : FileStore) : Prop where
  names : ∀ file ∈ store.files, ∀ name ∈ file.1, IsName name
  nodup : (store.files.map Prod.fst).Nodup
  leaf : ∀ file ∈ store.files, store.isDirectory file.1 = false

instance (store : FileStore) : Decidable store.WellFormed :=
  decidable_of_iff
    ((∀ file ∈ store.files, ∀ name ∈ file.1, IsName name) ∧
      (store.files.map Prod.fst).Nodup ∧ ∀ file ∈ store.files, store.isDirectory file.1 = false)
    ⟨fun ⟨names, nodup, leaf⟩ => ⟨names, nodup, leaf⟩,
      fun ⟨names, nodup, leaf⟩ => ⟨names, nodup, leaf⟩⟩

/-! ## Stores of one shape -/

/-- Two stores with the same files and directories, whatever the files hold. -/
structure SameShape (before after : FileStore) : Prop where
  names : after.files.map Prod.fst = before.files.map Prod.fst
  directories : after.directories = before.directories
  foreign : after.foreign = before.foreign

theorem isSome_file? (store : FileStore) (names : Names) :
    (store.file? names).isSome = (store.files.map Prod.fst).contains names :=
  isSome_lookup_eq store.files names

theorem entry?_eq_file_iff {store : FileStore} {names : Names} {content : Content} :
    store.entry? names = some (.file content) ↔ store.file? names = some content := by
  unfold entry?
  cases store.file? names with
  | none =>
    dsimp only
    split <;> simp
  | some found => simp

theorem entry?_eq_directory_iff {store : FileStore} {names : Names} :
    store.entry? names = some .directory ↔
      store.file? names = none ∧ store.isDirectory names = true := by
  unfold entry?
  cases store.file? names with
  | none =>
    dsimp only
    split <;> simp_all
  | some found => simp

/-- A file is no directory. -/
theorem entry?_ne_directory {store : FileStore} {names : Names}
    (h : (store.file? names).isSome) : store.entry? names ≠ some .directory := by
  intro hdirectory
  rw [(entry?_eq_directory_iff.1 hdirectory).1] at h
  cases h

/-- The names that lead from a directory to a place below it. -/
def restBelow? (directory names : Names) : Option Names :=
  if directory.isPrefixOf names then some (names.drop directory.length) else none

theorem restBelow?_eq_some_iff {directory names rest : Names} :
    restBelow? directory names = some rest ↔ names = directory ++ rest := by
  rw [restBelow?]
  constructor
  · intro h
    split at h
    · rename_i hprefix
      rcases List.isPrefixOf_iff_prefix.1 hprefix with ⟨more, rfl⟩
      rw [List.drop_left] at h
      rw [Option.some.inj h]
    · cases h
  · rintro rfl
    simp

/-- Where the files below a directory are depends on the places of files only. -/
theorem below_eq_filterMap (store : FileStore) (directory : Names) :
    store.below directory = (store.files.map Prod.fst).filterMap (restBelow? directory) := by
  rw [List.filterMap_map]
  rfl

namespace SameShape

variable {before middle after : FileStore}

theorem refl (store : FileStore) : SameShape store store := ⟨rfl, rfl, rfl⟩

theorem trans (h : SameShape before middle) (h' : SameShape middle after) :
    SameShape before after :=
  ⟨h'.names.trans h.names, h'.directories.trans h.directories, h'.foreign.trans h.foreign⟩

theorem isSome_file?_eq (h : SameShape before after) (names : Names) :
    (after.file? names).isSome = (before.file? names).isSome := by
  rw [isSome_file?, isSome_file?, h.names]

theorem isDirectory_eq (h : SameShape before after) (names : Names) :
    after.isDirectory names = before.isDirectory names := by
  have hfiles : ∀ store : FileStore,
      (store.files.any fun file => names.isPrefixOf file.1 && names ≠ file.1) =
        (store.files.map Prod.fst).any fun other => names.isPrefixOf other && names ≠ other := by
    intro store
    rw [List.any_map]
    rfl
  rw [isDirectory, isDirectory, hfiles, hfiles, h.names, h.directories]

theorem entry?_eq (h : SameShape before after) {names : Names}
    (hfile : after.file? names = before.file? names) :
    after.entry? names = before.entry? names := by
  unfold entry?
  rw [hfile, h.isDirectory_eq]

/-- What names lead to is of the same kind in both stores. -/
theorem entry?_cases (h : SameShape before after) (names : Names) :
    (∃ old new, before.entry? names = some (.file old) ∧ after.entry? names = some (.file new)) ∨
      (before.entry? names = after.entry? names ∧ ∀ content,
        after.entry? names ≠ some (.file content)) := by
  -- Files are in the same places, and all else is told by the places of files and directories.
  have hsome := h.isSome_file?_eq names
  cases hbefore : before.file? names with
  | some old =>
    rw [hbefore, Option.isSome_some, Option.isSome_iff_exists] at hsome
    rcases hsome with ⟨new, hafter⟩
    exact Or.inl ⟨old, new, entry?_eq_file_iff.2 hbefore, entry?_eq_file_iff.2 hafter⟩
  | none =>
    rw [hbefore, Option.isSome_none, Option.isSome_eq_false_iff, Option.isNone_iff_eq_none] at hsome
    refine Or.inr ⟨(h.entry?_eq (hsome.trans hbefore.symm)).symm, ?_⟩
    intro content hcontent
    rw [entry?_eq_file_iff.1 hcontent] at hsome
    cases hsome

theorem isSome_entry?_eq (h : SameShape before after) (names : Names) :
    (after.entry? names).isSome = (before.entry? names).isSome := by
  rcases h.entry?_cases names with ⟨old, new, hbefore, hafter⟩ | ⟨heq, -⟩
  · simp [hbefore, hafter]
  · simp [heq]

theorem step_eq (h : SameShape before after) : after.step = before.step := by
  funext names piece
  rcases h.entry?_cases names with ⟨old, new, hbefore, hafter⟩ | ⟨heq, _⟩
  · simp [step, hbefore, hafter]
  · simp [step, heq]

theorem resolve_eq (h : SameShape before after) (cwd : Names) (path : Path) :
    after.resolve cwd path = before.resolve cwd path := by
  simp only [resolve, h.step_eq]

/-- What a path leads to is of the same kind in both stores. -/
theorem find_cases (h : SameShape before after) (cwd : Names) (path : Path) :
    (∃ old new, before.find cwd path = .ok (.file old) ∧ after.find cwd path = .ok (.file new)) ∨
      (before.find cwd path = after.find cwd path ∧ ∀ content,
        after.find cwd path ≠ .ok (.file content)) := by
  simp only [find, h.resolve_eq]
  cases before.resolve cwd path with
  | error fault => exact Or.inr ⟨rfl, by simp⟩
  | ok names =>
    rcases h.entry?_cases names with ⟨old, new, hbefore, hafter⟩ | ⟨heq, hnofile⟩
    · exact Or.inl ⟨old, new, by simp [hbefore], by simp [hafter]⟩
    · right
      simp only [heq, true_and]
      intro content
      cases hentry : after.entry? names with
      | none => simp
      | some entry => simpa [hentry] using hnofile content

theorem isFile_eq (h : SameShape before after) (cwd : Names) (path : Path) :
    after.isFile cwd path = before.isFile cwd path := by
  rcases h.find_cases cwd path with ⟨old, new, hbefore, hafter⟩ | ⟨heq, -⟩
  · simp [isFile, hbefore, hafter]
  · simp [isFile, heq]

theorem below_eq (h : SameShape before after) (directory : Names) :
    after.below directory = before.below directory := by
  rw [below_eq_filterMap, below_eq_filterMap, h.names]

theorem wellFormed (h : SameShape before after) (hwf : before.WellFormed) : after.WellFormed := by
  have hplace : ∀ file ∈ after.files, ∃ old ∈ before.files, old.1 = file.1 := by
    intro file hfile
    have hname : file.1 ∈ before.files.map Prod.fst := h.names ▸ List.mem_map_of_mem hfile
    exact List.mem_map.1 hname
  constructor
  · intro file hfile
    rcases hplace file hfile with ⟨old, hold, heq⟩
    rw [← heq]
    exact hwf.names old hold
  · rw [h.names]
    exact hwf.nodup
  · intro file hfile
    rcases hplace file hfile with ⟨old, hold, heq⟩
    rw [h.isDirectory_eq, ← heq]
    exact hwf.leaf old hold

end SameShape

/-- A store that keeps its shape, and what is in files other than the given ones. -/
structure ModifiesOnly (changed : Names → Prop) (before after : FileStore) : Prop
    extends SameShape before after where
  elsewhere : ∀ names, ¬ changed names → after.file? names = before.file? names

namespace ModifiesOnly

variable {before middle after : FileStore} {changed more : Names → Prop}

theorem refl (changed : Names → Prop) (store : FileStore) : ModifiesOnly changed store store :=
  ⟨SameShape.refl store, fun _ _ => rfl⟩

theorem trans (h : ModifiesOnly changed before middle) (h' : ModifiesOnly changed middle after) :
    ModifiesOnly changed before after where
  toSameShape := h.toSameShape.trans h'.toSameShape
  elsewhere := fun names hnames => (h'.elsewhere names hnames).trans (h.elsewhere names hnames)

theorem mono (h : ModifiesOnly changed before after) (hmore : ∀ names, changed names → more names) :
    ModifiesOnly more before after where
  toSameShape := h.toSameShape
  elsewhere := fun names hnames => h.elsewhere names fun hchanged => hnames (hmore names hchanged)

end ModifiesOnly

/-! ## Writing -/

variable {store store' : FileStore} {cwd names : Names} {path : Path} {text : String}

/-- Replacing a file changes the file, and no other one. -/
theorem file?_put (h : (store.file? names).isSome) (content : Content) (other : Names) :
    (store.put names content).file? other =
      if other = names then some content else store.file? other := by
  rcases Option.isSome_iff_exists.1 h with ⟨old, hold⟩
  have hlookup := lookup_map_of_eq store.files names other content
  have hold' : store.files.lookup names = some old := hold
  rw [hold'] at hlookup
  rw [put, if_pos h]
  exact hlookup

theorem sameShape_put (h : (store.file? names).isSome) (content : Content) :
    SameShape store (store.put names content) := by
  rw [put, if_pos h]
  refine ⟨?_, rfl, rfl⟩
  rw [List.map_map]
  refine List.map_congr_left fun file _ => ?_
  by_cases hname : file.1 = names
  · simp [hname]
  · simp [hname]

theorem modifiesOnly_put (h : (store.file? names).isSome) (content : Content) :
    ModifiesOnly (· = names) store (store.put names content) where
  toSameShape := sameShape_put h content
  elsewhere := fun other hother => by rw [file?_put h, if_neg hother]

/-! ## Paths of files -/

/-- A path leads to a file: the names that it leads to, and that they are those of a file. -/
def LeadsToFile (store : FileStore) (cwd : Names) (path : Path) (names : Names) : Prop :=
  store.resolve cwd path = .ok names ∧ (store.file? names).isSome

theorem find_eq_ok_iff {entry : FileEntry} :
    store.find cwd path = .ok entry ↔
      ∃ names, store.resolve cwd path = .ok names ∧ store.entry? names = some entry := by
  rw [find]
  cases store.resolve cwd path with
  | error fault => simp
  | ok names => cases hentry : store.entry? names <;> simp [hentry]

theorem read_eq_ok_iff :
    store.read cwd path = .ok text ↔
      ∃ names, store.resolve cwd path = .ok names ∧ store.file? names = some (.text text) := by
  have hfind : store.read cwd path = .ok text ↔ store.find cwd path = .ok (.file (.text text)) := by
    rw [read]
    cases store.find cwd path with
    | error fault => simp
    | ok entry =>
      cases entry with
      | directory => simp
      | file content => cases content <;> simp
  rw [hfind, find_eq_ok_iff]
  simp only [entry?_eq_file_iff]

theorem leadsToFile_of_read (h : store.read cwd path = .ok text) :
    ∃ names, store.LeadsToFile cwd path names := by
  rcases read_eq_ok_iff.1 h with ⟨names, hresolve, hfile⟩
  exact ⟨names, hresolve, by simp [hfile]⟩

theorem isFile_eq_true_iff :
    store.isFile cwd path = true ↔ ∃ names, store.LeadsToFile cwd path names := by
  have hfind : store.isFile cwd path = true ↔
      ∃ content, store.find cwd path = .ok (.file content) := by
    rw [isFile]
    cases store.find cwd path with
    | error fault => simp
    | ok entry => cases entry <;> simp
  rw [hfind]
  simp only [find_eq_ok_iff, entry?_eq_file_iff, LeadsToFile, Option.isSome_iff_exists]
  exact ⟨fun ⟨content, names, h, hfile⟩ => ⟨names, h, content, hfile⟩,
    fun ⟨names, h, content, hfile⟩ => ⟨content, names, h, hfile⟩⟩

/-- Reading a path depends on the store only through the file that the path leads to. -/
theorem SameShape.read_eq (h : SameShape store store')
    (hfile : ∀ names, store.resolve cwd path = .ok names → store'.file? names = store.file? names) :
    store'.read cwd path = store.read cwd path := by
  rw [read, read, find, find, h.resolve_eq]
  cases hresolve : store.resolve cwd path with
  | error fault => rfl
  | ok names => simp only [h.entry?_eq (hfile names hresolve)]

theorem write_eq_ok_iff :
    store.write cwd path text = .ok store' ↔
      ∃ names, store.resolve cwd path = .ok names ∧ store.isDirectory names = false ∧
        store' = store.put names (.text text) := by
  rw [write]
  cases hresolve : store.resolve cwd path with
  | error fault => simp
  | ok names =>
    cases hdirectory : store.isDirectory names with
    | true => simp [hdirectory]
    | false =>
      simp only [hdirectory, Bool.false_eq_true, if_false, Except.ok.injEq]
      constructor
      · rintro rfl
        exact ⟨names, rfl, hdirectory, rfl⟩
      · rintro ⟨_, rfl, _, rfl⟩
        rfl

/-- A file that was read can be written. -/
theorem write_of_leadsToFile (hwf : store.WellFormed) (h : store.LeadsToFile cwd path names)
    (text : String) : store.write cwd path text = .ok (store.put names (.text text)) := by
  rcases h with ⟨hresolve, hfile⟩
  rw [isSome_file?, List.contains_iff_mem, List.mem_map] at hfile
  rcases hfile with ⟨file, hmem, rfl⟩
  exact write_eq_ok_iff.2 ⟨file.1, hresolve, hwf.leaf file hmem, rfl⟩

end FileStore
end TypeNameLint
