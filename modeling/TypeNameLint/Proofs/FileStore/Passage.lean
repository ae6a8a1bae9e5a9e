import TypeNameLint.Proofs.FileStore.Descent
import TypeNameLint.Proofs.Path.Steps

/-!
# Passage — the directories that a path passes

A path that leads somewhere passes directories on the way: the one that it starts from, and those
that its steps lead to. They are the same however the path is spelled between its steps. This file
defines:

* `FileStore.upwards`: a directory and those above it, from the nearest;
* `FileStore.trail`: the directories that steps pass, from the last one back.

The main results are `resolve_iff_leadsThrough`, `leadsToFile_join_iff` and `trail_names`.
-/

namespace TypeNameLint
namespace FileStore

open TypeNameLint.Path (Component)

variable {store : FileStore} {cwd names middle last directory : Names} {path : Path} {name : String}
variable {front back : List Component}

/-! ## Ways -/

theorem LeadsThrough.eq_foldl {steps : List Component} (h : store.LeadsThrough names steps last) :
    last = steps.foldl move names := by
  induction steps generalizing names with
  | nil => exact h.1.symm
  | cons step steps ih => exact ih h.2

theorem leadsThrough_append_iff :
    store.LeadsThrough names (front ++ back) last ↔
      ∃ middle, store.LeadsThrough names front middle ∧ store.LeadsThrough middle back last := by
  induction front generalizing names with
  | nil =>
    constructor
    · intro h
      exact ⟨names, ⟨rfl, h.entry?_eq⟩, h⟩
    · rintro ⟨middle, ⟨rfl, -⟩, h⟩
      exact h
  | cons step front ih =>
    simp only [List.cons_append, LeadsThrough, ih]
    constructor
    · rintro ⟨hdirectory, middle, hfront, hback⟩
      exact ⟨middle, ⟨hdirectory, hfront⟩, hback⟩
    · rintro ⟨middle, ⟨hdirectory, hfront⟩, hback⟩
      exact ⟨hdirectory, middle, hfront, hback⟩

/-- The first steps of a way lead to a directory on it. -/
theorem LeadsThrough.of_prefix {steps : List Component} (h : store.LeadsThrough names steps last)
    (hfront : front <+: steps) : store.LeadsThrough names front (front.foldl move names) := by
  rcases hfront with ⟨back, rfl⟩
  rcases leadsThrough_append_iff.1 h with ⟨middle, hmiddle, -⟩
  rwa [← hmiddle.eq_foldl]

/-- A path leads to a directory exactly if its steps do. -/
theorem resolve_iff_leadsThrough (h : path.text ≠ "") :
    (store.resolve cwd path = .ok names ∧ store.entry? names = some .directory) ↔
      store.LeadsThrough (if path.isAbsolute then [] else cwd) path.steps names := by
  rw [resolve, if_neg (by simpa using h)]
  exact foldlM_step_iff

/-- The steps to a file do not lead to a directory. -/
theorem LeadsToFile.not_leadsThrough (h : store.LeadsToFile cwd path names) :
    ¬ store.LeadsThrough (if path.isAbsolute then [] else cwd) path.steps directory := by
  intro hleads
  rcases (resolve_iff_leadsThrough (text_ne_empty_of_resolve h.1)).2 hleads with
    ⟨hresolve, hdirectory⟩
  have hnames : names = directory := Except.ok.inj (h.1.symm.trans hresolve)
  exact entry?_ne_directory h.2 (hnames ▸ hdirectory)

/-- An absolute path to a file has a parent: the root, the one path without a parent, leads to a
directory. -/
theorem exists_parent_of_leadsToFile (h : path.isAbsolute = true)
    (hfile : store.LeadsToFile cwd path names) : ∃ above, path.parent? = some above := by
  rcases Path.parent?_of_isAbsolute h with ⟨hnil, -⟩ | ⟨above, habove, -⟩
  · have hne : path.text ≠ "" := Path.text_ne_empty_of_isAbsolute h
    have hroot : store.entry? [] = some .directory := by
      rcases Path.exists_pieces_of_isAbsolute h with ⟨piece, rest, hpieces⟩
      have hresolve := hfile.1
      rw [resolve, if_neg (by simpa using hne), if_pos h, hpieces, List.foldlM_cons,
        bind_eq_ok_iff] at hresolve
      rcases hresolve with ⟨next, hstep, -⟩
      exact (step_eq_ok_iff.1 hstep).1
    refine absurd (?_ : store.LeadsThrough (if path.isAbsolute then [] else cwd) path.steps [])
      hfile.not_leadsThrough
    rw [if_pos h, hnil]
    exact ⟨rfl, hroot⟩
  · exact ⟨above, habove⟩

/-- The last step to a file is its name, taken in its directory. An idle piece and the step to a
parent lead to directories. -/
theorem WellFormed.exists_name_of_step {piece : List Char} (hwf : store.WellFormed)
    (hstep : store.step names piece = .ok last) (hfile : (store.file? last).isSome) :
    ∃ name, Component.ofPiece? piece = some (.name name) ∧ last = names ++ [name] ∧
      store.entry? names = some .directory := by
  have hnone := entry?_ne_directory hfile
  rcases step_eq_ok_iff.1 hstep with ⟨hdirectory, hlast⟩
  cases hpiece : Component.ofPiece? piece with
  | none =>
    rw [hpiece] at hlast
    exact absurd (hlast ▸ hdirectory) hnone
  | some step =>
    rw [hpiece, Option.map_some, Option.getD_some] at hlast
    cases step with
    | root => exact absurd (hlast ▸ hdirectory) hnone
    | current => exact absurd (hlast ▸ hdirectory) hnone
    | parent =>
      refine absurd ?_ hnone
      rcases List.eq_nil_or_concat names with rfl | ⟨above, name, rfl⟩
      · exact hlast ▸ hdirectory
      · rw [List.concat_eq_append] at hdirectory hlast
        rw [← hlast, move, List.dropLast_concat]
        exact hwf.entry?_of_directory_below hdirectory
    | name name => exact ⟨name, rfl, hlast.symm, hdirectory⟩

/-- The last step to a file is its name, and the steps before it lead to its directory. -/
theorem WellFormed.exists_name_of_leadsToFile (hwf : store.WellFormed)
    (h : store.LeadsToFile cwd path names) :
    ∃ directory name front, names = directory ++ [name] ∧ path.steps = front ++ [.name name] ∧
      path.text.toList.getLast? ≠ some '/' ∧
      store.LeadsThrough (if path.isAbsolute then [] else cwd) front directory := by
  rcases h with ⟨hresolve, hfile⟩
  have hne : path.text ≠ "" := text_ne_empty_of_resolve hresolve
  rw [resolve, if_neg (by simpa using hne)] at hresolve
  rcases List.eq_nil_or_concat path.pieces with hnil | ⟨before, piece, hpieces⟩
  · exact absurd hnil (Path.pieces_ne_nil path)
  · rw [List.concat_eq_append] at hpieces
    rw [hpieces] at hresolve
    rcases foldlM_concat_eq_ok_iff.1 hresolve with ⟨directory, hbefore, hlast⟩
    rcases hwf.exists_name_of_step hlast hfile with ⟨name, hpiece, hnames, hdirectory⟩
    have hsteps : path.steps = before.filterMap Component.ofPiece? ++ [.name name] := by
      rw [Path.steps, hpieces, List.filterMap_append, List.filterMap_cons_some hpiece,
        List.filterMap_nil]
    exact ⟨directory, name, _, hnames, hsteps, Path.getLast?_text_ne_of_pieces hpieces hpiece,
      foldlM_step_iff.1 ⟨hbefore, hdirectory⟩⟩

/-- A file is reached over its steps however they are spelled, if the last piece is one of them. -/
theorem WellFormed.leadsToFile_of_steps_eq {other : Path} {above : List (List Char)}
    {piece : List Char} (hwf : store.WellFormed) (hpath : path.isAbsolute = true)
    (hother : other.isAbsolute = true) (hsteps : other.steps = path.steps)
    (hpieces : other.pieces = above ++ [piece]) (hpiece : Path.isIdle piece = false)
    (h : store.LeadsToFile cwd path names) : store.LeadsToFile cwd other names := by
  rcases hwf.exists_name_of_leadsToFile h with ⟨directory, name, front, rfl, hfront, -, hleads⟩
  rcases Option.isSome_iff_exists.1 (show (Component.ofPiece? piece).isSome by
    simpa [Path.isIdle] using hpiece) with ⟨step, hstep⟩
  have hsame : above.filterMap Component.ofPiece? ++ [step] = front ++ [.name name] := by
    rw [← hfront, ← hsteps, Path.steps, hpieces]
    simp [hstep]
  rcases List.append_inj' hsame rfl with ⟨habove, hlast⟩
  rw [List.singleton_inj.1 hlast] at hstep
  rw [if_pos hpath, ← habove] at hleads
  rcases foldlM_step_iff.2 hleads with ⟨hbefore, hdirectory⟩
  refine ⟨?_, h.2⟩
  rw [resolve, if_neg (by simpa using Path.text_ne_empty_of_isAbsolute hother), if_pos hother,
    hpieces]
  exact foldlM_concat_eq_ok_iff.2
    ⟨directory, hbefore, step_eq_ok_iff.2 ⟨hdirectory, by rw [hstep]; rfl⟩⟩

/-! ## Directories above -/

/-- The names of a directory lead to it from every directory above it. -/
theorem WellFormed.leadsThrough_names {below : Names} (hwf : store.WellFormed)
    (h : store.entry? (directory ++ below) = some .directory) :
    store.LeadsThrough directory (below.map .name) (directory ++ below) := by
  induction below generalizing directory with
  | nil => exact ⟨(List.append_nil directory).symm, by simpa using h⟩
  | cons name below ih =>
    have hsplit : directory ++ name :: below = directory ++ [name] ++ below := by simp
    refine ⟨hwf.entry?_of_directory_below h, ?_⟩
    rw [hsplit] at h ⊢
    exact ih h

/-- A directory and those above it, from the nearest to the root. -/
def upwards (directory : Names) : List Names :=
  directory.inits.reverse

/-- The directories that steps from the root pass, from the last one back to the root. -/
def trail (steps : List Component) : List Names :=
  steps.inits.reverse.map (List.foldl move [])

theorem foldl_move_names (directory below : Names) :
    (below.map Component.name).foldl move directory = directory ++ below := by
  induction below generalizing directory with
  | nil => simp
  | cons name below ih => simp [move, ih]

/-- Names pass the directory that they lead to and those above it. -/
theorem trail_names (directory : Names) : trail (directory.map .name) = upwards directory := by
  rw [trail, upwards, List.map_inits, ← List.map_reverse, List.map_map]
  refine (List.map_congr_left fun names _ => ?_).trans (List.map_id _)
  simp [foldl_move_names]

/-! ## Joined pieces -/

/-- A piece joined to an absolute path leads where it leads from the directory that the steps of the
path lead to. -/
theorem resolve_join_iff {s : String} (h : path.isAbsolute = true) (hslash : '/' ∉ s.toList) :
    store.resolve cwd (path.join ⟨s⟩) = .ok names ↔
      ∃ directory, store.LeadsThrough [] path.steps directory ∧
        ((Component.ofPiece? s.toList).map (move directory)).getD directory = names := by
  have hjoined := Path.isAbsolute_join_of_isAbsolute h ⟨s⟩
  rcases Path.exists_pieces_join (Path.text_ne_empty_of_isAbsolute h) hslash with
    ⟨before, hbefore, hpieces⟩
  rw [resolve, if_neg (by simpa using Path.text_ne_empty_of_isAbsolute hjoined), if_pos hjoined,
    hpieces, foldlM_concat_eq_ok_iff, ← hbefore]
  simp only [step_eq_ok_iff, ← foldlM_step_iff, and_assoc]

/-- The steps of an absolute path lead to a directory, and to the same one with a current directory
behind them. -/
theorem resolve_join_current_iff (h : path.isAbsolute = true) :
    store.resolve cwd (path.join ⟨"."⟩) = .ok names ↔ store.LeadsThrough [] path.steps names := by
  have hcurrent : Component.ofPiece? ".".toList = none := by decide
  rw [resolve_join_iff h (by decide), hcurrent]
  simp

/-- A name joined to an absolute path leads to a file exactly if the steps of the path lead to its
directory. -/
theorem leadsToFile_join_iff (h : path.isAbsolute = true) (hname : IsName name) :
    store.LeadsToFile cwd (path.join ⟨name⟩) names ↔
      ∃ directory, store.LeadsThrough [] path.steps directory ∧ names = directory ++ [name] ∧
        (store.file? names).isSome := by
  rw [LeadsToFile, resolve_join_iff h hname.no_slash, Path.ofPiece?_of_isName hname]
  simp only [Option.map_some, Option.getD_some, move]
  constructor
  · rintro ⟨⟨directory, hleads, hnames⟩, hfile⟩
    exact ⟨directory, hleads, hnames.symm, hfile⟩
  · rintro ⟨directory, hleads, hnames, hfile⟩
    exact ⟨⟨directory, hleads, hnames.symm⟩, hfile⟩

end FileStore
end TypeNameLint
