import TypeNameLint.Rule
import TypeNameLint.Proofs.Text.Pieces

/-!
# Components — paths made by joining names, and what is left of them

A name joined to a path adds one component, and taking components away from the front leaves the
others. So the path that a report shows tells which names lead from the base to a file. This file
defines:

* `IsName`: names that stand for themselves between the slashes of a path;
* `Path.descend`: a path followed by names.

The main results are `components_descend` and `components_reportedFrom`.
-/

namespace TypeNameLint

/-- A name that stands for itself between the slashes of a path. -/
structure IsName (name : String) : Prop where
  ne_empty : name.toList ≠ []
  no_slash : '/' ∉ name.toList
  ne_current : name.toList ≠ ['.']
  ne_parent : name.toList ≠ ['.', '.']

instance (name : String) : Decidable (IsName name) :=
  decidable_of_iff
    (name.toList ≠ [] ∧ '/' ∉ name.toList ∧ name.toList ≠ ['.'] ∧ name.toList ≠ ['.', '.'])
    ⟨fun ⟨ne_empty, no_slash, ne_current, ne_parent⟩ =>
        ⟨ne_empty, no_slash, ne_current, ne_parent⟩,
      fun ⟨ne_empty, no_slash, ne_current, ne_parent⟩ =>
        ⟨ne_empty, no_slash, ne_current, ne_parent⟩⟩

namespace Path

variable {p base : Path} {name : String} {names : List String} {pieces rest : List (List Char)}

/-! ## Pieces -/

theorem ofPiece?_of_isName (h : IsName name) :
    Component.ofPiece? name.toList = some (.name name) := by
  unfold Component.ofPiece?
  split
  · rename_i heq
    exact absurd heq h.ne_empty
  · rename_i heq
    exact absurd heq h.ne_current
  · rename_i heq
    exact absurd heq h.ne_parent
  · rw [String.ofList_toList]

theorem pieces_ne_nil (p : Path) : p.pieces ≠ [] :=
  Text.splitOn_ne_nil '/' p.text.toList

theorem pieces_ne_singleton_nil (h : p.text ≠ "") : p.pieces ≠ [[]] := by
  intro hpieces
  rw [pieces] at hpieces
  cases htext : p.text.toList with
  | nil => exact h (by simpa using htext)
  | cons c cs =>
    rcases List.exists_cons_of_ne_nil (Text.splitOn_ne_nil '/' cs) with ⟨piece, others, hcs⟩
    rw [htext, Text.splitOn, hcs] at hpieces
    split at hpieces <;> simp at hpieces

theorem text_ne_empty_of_isAbsolute (h : p.isAbsolute = true) : p.text ≠ "" := by
  intro hempty
  simp [isAbsolute, hempty] at h

/-- The first piece of an absolute path stands in front of the slash at its start. -/
theorem exists_pieces_of_isAbsolute (h : p.isAbsolute = true) :
    ∃ piece rest, p.pieces = [] :: piece :: rest := by
  rw [isAbsolute, decide_eq_true_eq] at h
  rcases List.head?_eq_some_iff.1 h with ⟨cs, hcs⟩
  rcases List.exists_cons_of_ne_nil (Text.splitOn_ne_nil '/' cs) with ⟨piece, rest, hsplit⟩
  exact ⟨piece, rest, by rw [pieces, hcs, Text.splitOn, if_pos rfl, hsplit]⟩

theorem filterMap_pieces_of_isAbsolute (h : p.isAbsolute = true) :
    p.pieces.filterMap Component.ofPiece? = p.components.tail := by
  rcases exists_pieces_of_isAbsolute h with ⟨piece, rest, hpieces⟩
  rw [components, hpieces]
  rfl

/-- More pieces add the components that they stand for away from the start. -/
theorem componentsOfPieces_append (hne : pieces ≠ []) (hempty : pieces ≠ [[]])
    (more : List (List Char)) :
    componentsOfPieces (pieces ++ more) =
      componentsOfPieces pieces ++ more.filterMap Component.ofPiece? := by
  rcases List.exists_cons_of_ne_nil hne with ⟨first, rest, rfl⟩
  -- The first piece decides how the others are read, and more pieces do not change it.
  by_cases hroot : first = []
  · subst hroot
    have hrest : rest ≠ [] := fun h => hempty (by rw [h])
    rcases List.exists_cons_of_ne_nil hrest with ⟨second, others, rfl⟩
    exact congrArg (Component.root :: ·) List.filterMap_append
  · by_cases hcurrent : first = ['.']
    · subst hcurrent
      exact congrArg (Component.current :: ·) List.filterMap_append
    · simp [componentsOfPieces, hroot, hcurrent, ← List.filterMap_append]

/-! ## Joining names -/

theorem isAbsolute_of_no_slash {s : String} (h : '/' ∉ s.toList) :
    (⟨s⟩ : Path).isAbsolute = false := by
  rw [isAbsolute, decide_eq_false_iff_not]
  exact fun hhead => h (List.mem_of_mem_head? hhead)

theorem isAbsolute_of_isName (hname : IsName name) : (⟨name⟩ : Path).isAbsolute = false :=
  isAbsolute_of_no_slash hname.no_slash

/-- A name becomes the last piece. It takes the place of an empty piece after a trailing slash. -/
theorem pieces_join (h : p.text ≠ "") (hname : IsName name) :
    (p.join ⟨name⟩).pieces = p.pieces ++ [name.toList] ∨
      ∃ before, before ≠ [] ∧ p.pieces = before ++ [[]] ∧
        (p.join ⟨name⟩).pieces = before ++ [name.toList] := by
  have hsingle : Text.splitOn '/' name.toList = [name.toList] :=
    Text.splitOn_of_not_mem hname.no_slash
  have hrelative := isAbsolute_of_isName hname
  -- A trailing slash is kept, and no other one is added.
  by_cases hslash : p.text.toList.getLast? = some '/'
  · right
    rcases List.getLast?_eq_some_iff.1 hslash with ⟨before, htext⟩
    refine ⟨Text.splitOn '/' before, Text.splitOn_ne_nil '/' before, ?_, ?_⟩
    · rw [pieces, htext, Text.splitOn_append_cons]
      rfl
    · simp [join, hrelative, pieces, htext, Text.splitOn_append_cons, hsingle]
  · left
    simp [join, hrelative, hslash, h, pieces, Text.splitOn_append_cons, hsingle]

theorem isAbsolute_join (h : p.text ≠ "") (hname : IsName name) :
    (p.join ⟨name⟩).isAbsolute = p.isAbsolute := by
  have hhead : ∀ more : String, (p.text ++ more).toList.head? = p.text.toList.head? := by
    intro more
    have htext : p.text.toList ≠ [] := by simpa using h
    rcases List.exists_cons_of_ne_nil htext with ⟨c, cs, hcs⟩
    simp [hcs]
  have hrelative := isAbsolute_of_isName hname
  rw [join, if_neg (by simp [hrelative])]
  split
  · simp only [isAbsolute, hhead]
  · simp only [isAbsolute, String.append_assoc, hhead]

theorem components_join (h : p.text ≠ "") (hname : IsName name) :
    (p.join ⟨name⟩).components = p.components ++ [.name name] := by
  have hpiece : [name.toList].filterMap Component.ofPiece? = [.name name] := by
    simp [ofPiece?_of_isName hname]
  rcases pieces_join h hname with hpieces | ⟨before, hne, hp, hpieces⟩
  · rw [components, hpieces,
      componentsOfPieces_append (pieces_ne_nil p) (pieces_ne_singleton_nil h), hpiece]
    rfl
  · rw [components, components, hp, hpieces]
    -- The root alone is the one path whose components differ without its trailing slash.
    by_cases hempty : before = [[]]
    · subst hempty
      exact congrArg (Component.root :: ·) hpiece
    · rw [componentsOfPieces_append hne hempty, componentsOfPieces_append hne hempty, hpiece]
      simp [Component.ofPiece?]

/-- The path that names lead to from another path. -/
def descend (p : Path) (names : List String) : Path :=
  names.foldl (fun path name => path.join ⟨name⟩) p

theorem text_join_ne_empty (hname : IsName name) : (p.join ⟨name⟩).text ≠ "" := by
  have hne : name ≠ "" := by
    rintro rfl
    exact hname.ne_empty rfl
  rw [join]
  split
  · exact hne
  · split <;> simp [hne]

theorem components_descend (h : p.text ≠ "") (hnames : ∀ name ∈ names, IsName name) :
    (p.descend names).components = p.components ++ names.map .name := by
  induction names generalizing p with
  | nil => simp [descend]
  | cons name names ih =>
    have hname : IsName name := hnames name (by simp)
    have hrest : ((p.join ⟨name⟩).descend names).components =
        (p.join ⟨name⟩).components ++ names.map .name :=
      ih (text_join_ne_empty hname) fun other hother => hnames other (by simp [hother])
    rw [components_join h hname] at hrest
    simpa [descend] using hrest

theorem extension?_descend {last : String} (h : p.text ≠ "")
    (hnames : ∀ name ∈ names ++ [last], IsName name) :
    (p.descend (names ++ [last])).extension? = nameExtension? last := by
  have hcomponents := components_descend h hnames
  simp [extension?, fileName?, hcomponents]

/-! ## Dropping components -/

theorem filterMap_dropComponents (n : Nat) (pieces : List (List Char)) :
    (dropComponents n pieces).filterMap Component.ofPiece? =
      (pieces.filterMap Component.ofPiece?).drop n := by
  induction pieces generalizing n with
  | nil => simp [dropComponents]
  | cons piece pieces ih =>
    cases hpiece : Component.ofPiece? piece with
    | none =>
      have hidle : isIdle piece = true := by simp [isIdle, hpiece]
      simpa [dropComponents, hidle, hpiece] using ih n
    | some component =>
      have hbusy : isIdle piece = false := by simp [isIdle, hpiece]
      cases n with
      | zero => simp [dropComponents, hbusy]
      | succ n => simpa [dropComponents, hbusy, hpiece] using ih n

theorem dropComponents_suffix (n : Nat) (pieces : List (List Char)) :
    dropComponents n pieces <:+ pieces := by
  induction pieces generalizing n with
  | nil => simp [dropComponents]
  | cons piece pieces ih =>
    by_cases hidle : isIdle piece = true
    · have hdrop : dropComponents n (piece :: pieces) = dropComponents n pieces := by
        simp [dropComponents, hidle]
      rw [hdrop]
      exact (ih n).trans (List.suffix_cons piece pieces)
    · cases n with
      | zero => simp [dropComponents, hidle]
      | succ n =>
        have hdrop : dropComponents (n + 1) (piece :: pieces) = dropComponents n pieces := by
          simp [dropComponents, hidle]
        rw [hdrop]
        exact (ih n).trans (List.suffix_cons piece pieces)

theorem isIdle_head_dropComponents {n : Nat} {piece : List Char} :
    dropComponents n pieces = piece :: rest → isIdle piece = false := by
  intro h
  induction pieces generalizing n with
  | nil => simp [dropComponents] at h
  | cons other pieces ih =>
    cases hidle : isIdle other with
    | true => exact ih (by simpa [dropComponents, hidle] using h)
    | false =>
      cases n with
      | zero =>
        have hhead : other :: pieces = piece :: rest := by simpa [dropComponents, hidle] using h
        rcases List.cons.inj hhead with ⟨rfl, -⟩
        exact hidle
      | succ n => exact ih (by simpa [dropComponents, hidle] using h)

theorem trimPieces_prefix (pieces : List (List Char)) : trimPieces pieces <+: pieces := by
  have hsuffix : pieces.reverse.dropWhile isIdle <:+ pieces.reverse := List.dropWhile_suffix isIdle
  simpa [trimPieces] using List.reverse_prefix.2 hsuffix

theorem filterMap_trimPieces (pieces : List (List Char)) :
    (trimPieces pieces).filterMap Component.ofPiece? =
      pieces.filterMap Component.ofPiece? := by
  -- The pieces are dropped from the end, that is from the start of the reversed list.
  have hdrop : ∀ others : List (List Char),
      (others.dropWhile isIdle).filterMap Component.ofPiece? =
        others.filterMap Component.ofPiece? := by
    intro others
    induction others with
    | nil => rfl
    | cons piece others ih =>
      cases hpiece : Component.ofPiece? piece with
      | none => simpa [isIdle, hpiece] using ih
      | some component => simp [isIdle, hpiece]
  calc
    (trimPieces pieces).filterMap Component.ofPiece?
        = ((pieces.reverse.dropWhile isIdle).filterMap Component.ofPiece?).reverse :=
          List.filterMap_reverse
    _ = (pieces.reverse.filterMap Component.ofPiece?).reverse := by rw [hdrop]
    _ = pieces.filterMap Component.ofPiece? := by
          rw [List.filterMap_reverse, List.reverse_reverse]

/-- Pieces that start with that of a component spell a path of their components. -/
theorem components_ofPieces (hslash : ∀ piece ∈ pieces, '/' ∉ piece)
    (hhead : ∀ piece rest, pieces = piece :: rest → isIdle piece = false) :
    (ofPieces pieces).components = pieces.filterMap Component.ofPiece? := by
  cases pieces with
  | nil => rfl
  | cons piece rest =>
    have hbusy : isIdle piece = false := hhead piece rest rfl
    have hsplit : (ofPieces (piece :: rest)).pieces = piece :: rest := by
      rw [Path.pieces, ofPieces, String.toList_ofList]
      exact Text.splitOn_joinWith (by simp) hslash
    have hroot : piece ≠ [] := by
      rintro rfl
      cases hbusy
    have hcurrent : piece ≠ ['.'] := by
      rintro rfl
      cases hbusy
    simp [components, hsplit, componentsOfPieces, hroot, hcurrent]

/-- Dropping components from the pieces behind a start leaves a path of the others. -/
theorem components_trimPieces_dropComponents (n : Nat) (hslash : ∀ piece ∈ pieces, '/' ∉ piece) :
    (ofPieces (trimPieces (dropComponents n pieces))).components =
      (pieces.filterMap Component.ofPiece?).drop n := by
  have hstart := trimPieces_prefix (dropComponents n pieces)
  have hinner : ∀ piece ∈ trimPieces (dropComponents n pieces), '/' ∉ piece := by
    intro piece hpiece
    exact hslash piece ((dropComponents_suffix n pieces).subset (hstart.subset hpiece))
  have hhead : ∀ piece rest, trimPieces (dropComponents n pieces) = piece :: rest →
      isIdle piece = false := by
    intro piece rest hpieces
    rcases hstart with ⟨trimmed, hdropped⟩
    rw [hpieces, List.cons_append] at hdropped
    exact isIdle_head_dropComponents hdropped.symm
  calc
    (ofPieces (trimPieces (dropComponents n pieces))).components
        = (trimPieces (dropComponents n pieces)).filterMap Component.ofPiece? :=
          components_ofPieces hinner hhead
    _ = (dropComponents n pieces).filterMap Component.ofPiece? := filterMap_trimPieces _
    _ = (pieces.filterMap Component.ofPiece?).drop n := filterMap_dropComponents n pieces

theorem components_afterComponents (n : Nat) (p : Path) :
    (p.afterComponents n).components = p.components.drop (n + 1) := by
  have hslash : ∀ piece ∈ p.pieces, '/' ∉ piece := fun _ => Text.not_mem_of_mem_splitOn
  rcases List.exists_cons_of_ne_nil (pieces_ne_nil p) with ⟨first, rest, hpieces⟩
  have hcomponents : p.components = componentsOfPieces (first :: rest) := by
    rw [components, hpieces]
  rw [hpieces] at hslash
  have hrest : ∀ piece ∈ rest, '/' ∉ piece := fun piece hpiece =>
    hslash piece (List.mem_cons_of_mem first hpiece)
  -- The start is a component of its own, unless it is like any other piece.
  by_cases hroot : first = []
  · subst hroot
    have hafter : p.afterComponents n = ofPieces (trimPieces (dropComponents n rest)) := by
      simp [afterComponents, hpieces]
    rw [hafter, components_trimPieces_dropComponents n hrest, hcomponents]
    cases rest <;> simp [componentsOfPieces]
  · by_cases hcurrent : first = ['.']
    · subst hcurrent
      have hafter : p.afterComponents n = ofPieces (trimPieces (dropComponents n rest)) := by
        simp [afterComponents, hpieces]
      rw [hafter, components_trimPieces_dropComponents n hrest, hcomponents]
      simp [componentsOfPieces]
    · have hafter : p.afterComponents n =
          ofPieces (trimPieces (dropComponents (n + 1) (first :: rest))) := by
        simp [afterComponents, hpieces, hroot, hcurrent]
      have hplain : componentsOfPieces (first :: rest) =
          (first :: rest).filterMap Component.ofPiece? := by
        simp [componentsOfPieces, hroot, hcurrent]
      rw [hafter, components_trimPieces_dropComponents (n + 1) hslash, hcomponents, hplain]

theorem components_ne_nil (h : p.text ≠ "") : p.components ≠ [] := by
  rcases List.exists_cons_of_ne_nil (pieces_ne_nil p) with ⟨first, rest, hpieces⟩
  rw [components, hpieces]
  by_cases hroot : first = []
  · subst hroot
    cases rest with
    | nil => exact absurd hpieces (pieces_ne_singleton_nil h)
    | cons second rest => simp [componentsOfPieces]
  · by_cases hcurrent : first = ['.']
    · subst hcurrent
      simp [componentsOfPieces]
    · have hsome : Component.ofPiece? first ≠ none := by
        unfold Component.ofPiece?
        split
        · exact absurd rfl hroot
        · exact absurd rfl hcurrent
        · simp
        · simp
      rcases Option.ne_none_iff_exists'.1 hsome with ⟨component, hcomponent⟩
      simp [componentsOfPieces, hroot, hcurrent, hcomponent]

/-- What is left of a path below a base starts behind the components of the base. -/
theorem relativeTo?_eq_some {more : List Component} (hbase : base.text ≠ "")
    (h : p.components = base.components ++ more) :
    ∃ n, base.components.length = n + 1 ∧ p.relativeTo? base = some (p.afterComponents n) := by
  have hstart : base.components.isPrefixOf p.components = true := by
    simp [h]
  -- The base has a component, so what is left starts after one.
  have hlength : base.components.length = base.components.length - 1 + 1 := by
    have hpos := List.length_pos_iff.2 (components_ne_nil hbase)
    omega
  refine ⟨base.components.length - 1, hlength, ?_⟩
  rw [relativeTo?, if_pos hstart, hlength]
  rfl

/-- The path that is reported for a file below the base is that of the components in between. -/
theorem components_reportedFrom {more : List Component} (hbase : base.text ≠ "")
    (h : p.components = base.components ++ more) : (base.reportedFrom p).components = more := by
  rcases relativeTo?_eq_some hbase h with ⟨n, hlength, hrelative⟩
  calc
    (base.reportedFrom p).components
        = (p.afterComponents n).components := by
          rw [reportedFrom, hrelative, Option.getD_some]
    _ = p.components.drop base.components.length := by
          rw [components_afterComponents, ← hlength]
    _ = more := by rw [h, List.drop_left]

/-- Files below a base are told apart by the paths that are reported for them. -/
theorem reportedFrom_descend_inj {others : List String} (hbase : base.text ≠ "")
    (hnames : ∀ name ∈ names, IsName name) (hothers : ∀ name ∈ others, IsName name)
    (h : base.reportedFrom (base.descend names) = base.reportedFrom (base.descend others)) :
    names = others := by
  have hleft := components_reportedFrom hbase (components_descend hbase hnames)
  have hright := components_reportedFrom hbase (components_descend hbase hothers)
  have hmap : names.map Component.name = others.map .name :=
    calc
      names.map Component.name
          = (base.reportedFrom (base.descend names)).components := hleft.symm
      _ = (base.reportedFrom (base.descend others)).components := by rw [h]
      _ = others.map .name := hright
  exact (List.map_inj_right fun _ _ => Component.name.inj).1 hmap

end Path
end TypeNameLint
