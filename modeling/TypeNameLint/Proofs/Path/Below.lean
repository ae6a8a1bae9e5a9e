import TypeNameLint.Proofs.Path.Components
import Mathlib.Data.List.Chain
import Mathlib.Data.List.TakeWhile

/-!
# Below — how the paths below a directory are written

Names are joined to a path with one slash in front of each of them, unless the path ends with one
already. So the text of a path below a directory starts with that of the directory, and what is
reported for it are the names alone. This file defines:

* `Path.IsClean`: paths without repeated slashes.

The main results are `isClean_descend`, `text_descend` and `reportedFrom_descend`.
-/

namespace TypeNameLint
namespace Path

variable {p base : Path} {name : String} {names : List String} {piece : List Char}
variable {pieces rest : List (List Char)}

/-! ## Absolute paths -/

/-- What is taken from an absolute directory is absolute. -/
theorem isAbsolute_join_of_isAbsolute (h : p.isAbsolute = true) (q : Path) :
    (p.join q).isAbsolute = true := by
  rw [isAbsolute, decide_eq_true_eq] at h
  rcases List.head?_eq_some_iff.1 h with ⟨cs, hcs⟩
  rw [Path.join]
  split
  · assumption
  · split <;> simp [isAbsolute, hcs]

theorem isAbsolute_descend (h : p.isAbsolute = true) (names : List String) :
    (p.descend names).isAbsolute = true := by
  induction names generalizing p with
  | nil => exact h
  | cons name names ih => exact ih (isAbsolute_join_of_isAbsolute h ⟨name⟩)

/-! ## Repeated slashes -/

/-- A path without repeated slashes. -/
def IsClean (p : Path) : Prop :=
  p.text.toList.IsChain fun a b => ¬ (a = '/' ∧ b = '/')

theorem IsClean.not_infix (h : p.IsClean) : ¬ ['/', '/'] <:+: p.text.toList := by
  intro hinfix
  have hpair : ['/', '/'].IsChain fun a b => ¬ (a = '/' ∧ b = '/') := h.infix hinfix
  simp at hpair

/-- A name adds no slash but the one in front of it. -/
theorem IsClean.join (h : p.IsClean) (hname : IsName name) : (p.join ⟨name⟩).IsClean := by
  have hrelative := isAbsolute_of_isName hname
  have hinner : name.toList.IsChain fun a b => ¬ (a = '/' ∧ b = '/') := by
    refine (List.pairwise_of_forall_mem_list ?_).isChain
    rintro a ha b - ⟨rfl, -⟩
    exact hname.no_slash ha
  have hhead : ∀ b ∈ name.toList.head?, b ≠ '/' := by
    rintro b hb rfl
    exact hname.no_slash (List.mem_of_head? hb)
  rw [Path.join, if_neg (by simp [hrelative])]
  split
  · -- The text of the path is empty or ends with a slash.
    rw [IsClean, String.toList_append, List.isChain_append]
    refine ⟨h, hinner, ?_⟩
    rintro a - b hb ⟨-, hslash⟩
    exact hhead b hb hslash
  · rename_i hopen
    rw [not_or] at hopen
    rw [IsClean, String.toList_append, String.toList_append, List.isChain_append,
      List.isChain_append]
    refine ⟨⟨h, List.isChain_singleton '/', ?_⟩, hinner, ?_⟩
    · rintro a ha b - ⟨rfl, -⟩
      exact hopen.2 ha
    · rintro a - b hb ⟨-, hslash⟩
      exact hhead b hb hslash

theorem isClean_descend (h : p.IsClean) (hnames : ∀ name ∈ names, IsName name) :
    (p.descend names).IsClean := by
  induction names generalizing p with
  | nil => exact h
  | cons name names ih =>
    exact ih (h.join (hnames name (by simp))) fun other hother => hnames other (by simp [hother])

/-! ## Texts -/

/-- The path with a slash at its end. -/
def opened (p : Path) : Path := p.join ⟨""⟩

theorem text_opened_of_slash (h : p.text.toList.getLast? = some '/') : p.opened.text = p.text := by
  simp [opened, Path.join, isAbsolute, h]

theorem text_opened_of_no_slash (hne : p.text ≠ "") (h : p.text.toList.getLast? ≠ some '/') :
    p.opened.text = p.text ++ "/" := by
  simp [opened, Path.join, isAbsolute, h, hne]

/-- What is joined to a path follows a slash. -/
theorem text_join_of_relative {s : String} (h : p.text ≠ "")
    (hrelative : (⟨s⟩ : Path).isAbsolute = false) : (p.join ⟨s⟩).text = p.opened.text ++ s := by
  by_cases hslash : p.text.toList.getLast? = some '/'
  · rw [text_opened_of_slash hslash]
    simp [join, hrelative, hslash]
  · rw [text_opened_of_no_slash h hslash]
    simp [join, hrelative, hslash, h]

theorem text_join (h : p.text ≠ "") (hname : IsName name) :
    (p.join ⟨name⟩).text = p.opened.text ++ name :=
  text_join_of_relative h (isAbsolute_of_isName hname)

theorem text_opened_join (h : p.text ≠ "") (hname : IsName name) :
    (p.join ⟨name⟩).opened.text = p.opened.text ++ name ++ "/" := by
  have hlast : (p.join ⟨name⟩).text.toList.getLast? ≠ some '/' := by
    rw [text_join h hname, String.toList_append, List.getLast?_append_of_ne_nil _ hname.ne_empty]
    intro hslash
    exact hname.no_slash (List.mem_of_getLast? hslash)
  rw [text_opened_of_no_slash (text_join_ne_empty hname) hlast, text_join h hname]

/-- The text of a path below a directory is that of the directory with a slash at its end, and the
names with slashes between them. -/
theorem text_descend (h : p.text ≠ "") (hnames : ∀ name ∈ names, IsName name) (hne : names ≠ []) :
    (p.descend names).text.toList =
      p.opened.text.toList ++ Text.joinWith '/' (names.map String.toList) := by
  induction names generalizing p with
  | nil => exact absurd rfl hne
  | cons name names ih =>
    have hname : IsName name := hnames name (by simp)
    have hrest : ∀ other ∈ names, IsName other := fun other hother => hnames other (by simp [hother])
    cases names with
    | nil => simp [descend, text_join h hname, Text.joinWith]
    | cons next names =>
      have hlater := @ih (p.join ⟨name⟩) (text_join_ne_empty hname) hrest (by simp)
      calc
        (p.descend (name :: next :: names)).text.toList
            = (p.join ⟨name⟩).opened.text.toList ++
                Text.joinWith '/' ((next :: names).map String.toList) := hlater
        _ = p.opened.text.toList ++
              Text.joinWith '/' ((name :: next :: names).map String.toList) := by
              rw [text_opened_join h hname]
              simp [Text.joinWith]

/-! ## Relative paths -/

/-- Dropping all components of some pieces leaves what follows them, but for idle pieces. -/
theorem dropComponents_append (pieces rest : List (List Char)) :
    dropComponents (pieces.filterMap Component.ofPiece?).length (pieces ++ rest) =
      dropComponents 0 rest := by
  induction pieces with
  | nil => rfl
  | cons first pieces ih =>
    cases hfirst : Component.ofPiece? first with
    | none =>
      have hidle : isIdle first = true := by simp [isIdle, hfirst]
      simpa [dropComponents, hidle, hfirst] using ih
    | some component =>
      have hbusy : isIdle first = false := by simp [isIdle, hfirst]
      simpa [dropComponents, hbusy, hfirst] using ih

theorem dropComponents_append_busy (hpiece : isIdle piece = false)
    (pieces rest : List (List Char)) :
    dropComponents (pieces.filterMap Component.ofPiece?).length (pieces ++ piece :: rest) =
      piece :: rest := by
  rw [dropComponents_append]
  simp [dropComponents, hpiece]

/-- An absolute path is the empty path from itself. -/
theorem relativeTo?_self (h : p.isAbsolute = true) : p.relativeTo? p = some ⟨""⟩ := by
  rcases exists_pieces_of_isAbsolute h with ⟨piece, rest, hpieces⟩
  have hlength : p.components.length =
      ((piece :: rest).filterMap Component.ofPiece?).length + 1 := by
    rw [components, hpieces]
    rfl
  have hprefix : p.components.isPrefixOf p.components = true := by simp
  have hdrop := dropComponents_append (piece :: rest) []
  rw [List.append_nil] at hdrop
  have hafter : p.afterComponents ((piece :: rest).filterMap Component.ofPiece?).length = ⟨""⟩ := by
    simp only [afterComponents, hpieces, hdrop]
    rfl
  rw [relativeTo?, if_pos hprefix, hlength]
  exact congrArg some hafter

theorem trimPieces_of_busy (h : ∀ piece ∈ pieces, isIdle piece = false) :
    trimPieces pieces = pieces := by
  have hdrop : pieces.reverse.dropWhile isIdle = pieces.reverse := by
    refine List.dropWhile_eq_self_iff.2 fun hlength => ?_
    simp [h]
  rw [trimPieces, hdrop, List.reverse_reverse]

theorem componentsOfPieces_root (pieces : List (List Char)) :
    componentsOfPieces ([] :: (pieces ++ [[]])) =
      .root :: (pieces ++ [[]]).filterMap Component.ofPiece? := by
  cases pieces <;> rfl

/-- Behind the components of some pieces stands what follows these pieces. -/
theorem afterComponents_append {before : List (List Char)} (hne : before ≠ [])
    (hp : p.pieces = before ++ piece :: rest) (hpiece : isIdle piece = false) {n : Nat}
    (hcount : (componentsOfPieces (before ++ [[]])).length = n + 1) :
    p.afterComponents n = ofPieces (trimPieces (piece :: rest)) := by
  rcases List.exists_cons_of_ne_nil hne with ⟨first, others, rfl⟩
  rw [List.cons_append] at hp hcount
  have hidle : (others ++ [[]]).filterMap Component.ofPiece? =
      others.filterMap Component.ofPiece? := by
    rw [List.filterMap_append]
    exact List.append_nil _
  -- The start is a component of its own, unless it is like any other piece.
  by_cases hroot : first = []
  · subst hroot
    have hroot := componentsOfPieces_root others
    have hn : (others.filterMap Component.ofPiece?).length = n := by
      simpa [hroot, hidle] using hcount
    simp only [afterComponents, hp, ← hn, dropComponents_append_busy hpiece]
  · by_cases hcurrent : first = ['.']
    · subst hcurrent
      have hn : (others.filterMap Component.ofPiece?).length = n := by
        simpa [componentsOfPieces, hidle] using hcount
      simp only [afterComponents, hp, ← hn, dropComponents_append_busy hpiece]
    · have hn : ((first :: others).filterMap Component.ofPiece?).length = n + 1 := by
        simpa [componentsOfPieces, hroot, hcurrent, List.filterMap_cons, hidle] using hcount
      have hdrop := dropComponents_append_busy hpiece (first :: others) rest
      rw [hn, List.cons_append] at hdrop
      simp [afterComponents, hp, hroot, hcurrent, hdrop]

theorem getLast?_text_opened (h : p.text ≠ "") : p.opened.text.toList.getLast? = some '/' := by
  by_cases hslash : p.text.toList.getLast? = some '/'
  · rwa [text_opened_of_slash hslash]
  · rw [text_opened_of_no_slash h hslash]
    simp

theorem exists_pieces_opened (h : p.text ≠ "") :
    ∃ before, before ≠ [] ∧ p.opened.pieces = before ++ [[]] ∧
      ∀ more : List Char, Text.splitOn '/' (p.opened.text.toList ++ more) =
        before ++ Text.splitOn '/' more := by
  rcases List.getLast?_eq_some_iff.1 (getLast?_text_opened h) with ⟨stem, hstem⟩
  refine ⟨Text.splitOn '/' stem, Text.splitOn_ne_nil '/' stem, ?_, fun more => ?_⟩
  · rw [pieces, hstem, Text.splitOn_append_cons]
    rfl
  · rw [hstem, List.append_assoc, List.singleton_append, Text.splitOn_append_cons]

theorem pieces_opened_of_no_slash (h : p.text ≠ "") (hslash : p.text.toList.getLast? ≠ some '/') :
    p.opened.pieces = p.pieces ++ [[]] := by
  rw [pieces, text_opened_of_no_slash h hslash, String.toList_append]
  exact Text.splitOn_append_cons '/' p.text.toList []

/-- A slash at the end adds no component. -/
theorem components_opened (h : p.text ≠ "") : p.opened.components = p.components := by
  by_cases hslash : p.text.toList.getLast? = some '/'
  · rw [components, components, pieces, pieces, text_opened_of_slash hslash]
  · rw [components, pieces_opened_of_no_slash h hslash,
      componentsOfPieces_append (pieces_ne_nil p) (pieces_ne_singleton_nil h)]
    simp [components, Component.ofPiece?]

/-- Neither does the current directory. -/
theorem components_join_current (h : p.text ≠ "") :
    (p.join ⟨"."⟩).components = p.components := by
  have htext : (p.join ⟨"."⟩).text = p.opened.text ++ "." := text_join_of_relative h rfl
  rcases exists_pieces_opened h with ⟨before, hbefore, hopened, hsplit⟩
  have hpieces : (p.join ⟨"."⟩).pieces = before ++ [['.']] := by
    rw [pieces, htext, String.toList_append, hsplit]
    rfl
  rw [← components_opened h, components, components, hpieces, hopened]
  by_cases hempty : before = [[]]
  · rw [hempty]
    rfl
  · rw [componentsOfPieces_append hbefore hempty, componentsOfPieces_append hbefore hempty]
    rfl

theorem pieces_of_names (hnames : ∀ name ∈ names, IsName name) (hne : names ≠ []) :
    Text.splitOn '/' (Text.joinWith '/' (names.map String.toList)) = names.map String.toList := by
  refine Text.splitOn_joinWith (by simpa using hne) ?_
  intro piece hpiece
  rcases List.mem_map.1 hpiece with ⟨name, hname, rfl⟩
  exact (hnames name hname).no_slash

/-- Below an absolute path names follow pieces that stand for its components. -/
theorem exists_pieces_descend (h : p.isAbsolute = true) (hnames : ∀ name ∈ names, IsName name)
    (hne : names ≠ []) :
    ∃ before, before.head? = some [] ∧
      before.filterMap Component.ofPiece? = p.components.tail ∧
      (p.descend names).pieces = before ++ names.map String.toList := by
  have hp := text_ne_empty_of_isAbsolute h
  rcases exists_pieces_opened hp with ⟨before, hbefore, hopened, hsplit⟩
  rcases List.exists_cons_of_ne_nil hbefore with ⟨first, others, rfl⟩
  have hfirst : first = [] := by
    have habsolute : p.opened.isAbsolute = true := isAbsolute_join_of_isAbsolute h ⟨""⟩
    rcases exists_pieces_of_isAbsolute habsolute with ⟨piece, rest, hpieces⟩
    rw [hpieces] at hopened
    exact (List.cons.inj hopened).1.symm
  subst hfirst
  refine ⟨[] :: others, rfl, ?_, ?_⟩
  · rw [← components_opened hp, components, hopened, List.cons_append, componentsOfPieces_root,
      List.filterMap_append]
    exact (List.append_nil _).symm
  · rw [pieces, text_descend hp hnames hne, hsplit, pieces_of_names hnames hne]

/-- What is reported for a path below a base are the names that lead to it. -/
theorem reportedFrom_descend (h : base.text ≠ "") (hnames : ∀ name ∈ names, IsName name)
    (hne : names ≠ []) :
    base.reportedFrom (base.descend names) = ofPieces (names.map String.toList) := by
  rcases List.exists_cons_of_ne_nil hne with ⟨name, others, rfl⟩
  have hbusy : ∀ piece ∈ (name :: others).map String.toList, isIdle piece = false := by
    intro piece hpiece
    rcases List.mem_map.1 hpiece with ⟨other, hother, rfl⟩
    simp [isIdle, ofPiece?_of_isName (hnames other hother)]
  rcases exists_pieces_opened h with ⟨before, hbefore, hopened, hsplit⟩
  have hpieces : (base.descend (name :: others)).pieces =
      before ++ name.toList :: others.map String.toList := by
    rw [pieces, text_descend h hnames hne, hsplit, pieces_of_names hnames hne, List.map_cons]
  rcases relativeTo?_eq_some h (components_descend h hnames) with ⟨n, hlength, hrelative⟩
  have hcount : (componentsOfPieces (before ++ [[]])).length = n + 1 := by
    rw [← hopened, ← components, components_opened h, hlength]
  rw [reportedFrom, hrelative, Option.getD_some,
    afterComponents_append hbefore hpieces (hbusy _ (by simp)) hcount, ← List.map_cons,
    trimPieces_of_busy hbusy]

/-- So it is the end of its text, behind a slash. -/
theorem exists_text_descend (h : base.text ≠ "") (hnames : ∀ name ∈ names, IsName name)
    (hne : names ≠ []) :
    ∃ above, (base.descend names).text.toList =
      above ++ '/' :: (base.reportedFrom (base.descend names)).text.toList := by
  rcases List.getLast?_eq_some_iff.1 (getLast?_text_opened h) with ⟨above, habove⟩
  refine ⟨above, ?_⟩
  rw [text_descend h hnames hne, reportedFrom_descend h hnames hne, habove]
  simp [ofPieces]

end Path
end TypeNameLint
