import TypeNameLint.Proofs.Path.Below
import Mathlib.Data.List.Infix
import Mathlib.Data.Set.List

/-!
# Steps — paths made absolute, and the directories above them

Between its slashes a path spells steps: to a name, or to the parent of what was reached. Making a
path absolute puts the steps to the current directory in front and takes none away, and the
ancestors of an absolute path are told by leaving out more and more of its last steps. This file
defines:

* `Path.steps`: the steps of a path;
* `Path.Ascends`: a path and the directories above it, from parent to parent.

The main results are `steps_absolute`, `ascends_ancestors` and `map_steps_ancestors`.
-/

namespace TypeNameLint
namespace Path

variable {p q cwd : Path} {piece : List Char} {step : Component}

/-- The steps that the pieces of a path stand for. -/
def steps (p : Path) : List Component :=
  p.pieces.filterMap Component.ofPiece?

theorem components_tail_of_isAbsolute (h : p.isAbsolute = true) : p.components.tail = p.steps :=
  (filterMap_pieces_of_isAbsolute h).symm

theorem components_of_isAbsolute (h : p.isAbsolute = true) : p.components = .root :: p.steps := by
  rcases exists_pieces_of_isAbsolute h with ⟨piece, rest, hpieces⟩
  rw [steps, components, hpieces]
  rfl

/-- A relative path starts with a piece that is not empty. -/
theorem exists_pieces_of_relative (hne : p.text ≠ "") (h : p.isAbsolute = false) :
    ∃ c piece rest, p.pieces = (c :: piece) :: rest := by
  have htext : p.text.toList ≠ [] := by simpa using hne
  rcases List.exists_cons_of_ne_nil htext with ⟨c, cs, hcs⟩
  have hc : c ≠ '/' := by
    rw [isAbsolute, decide_eq_false_iff_not, hcs] at h
    exact fun heq => h (congrArg some heq)
  rcases List.exists_cons_of_ne_nil (Text.splitOn_ne_nil '/' cs) with ⟨piece, rest, hsplit⟩
  exact ⟨c, piece, rest, by rw [pieces, hcs, Text.splitOn, if_neg hc, hsplit]⟩

/-- Only a current directory at the start of a relative path is a component without being a step. -/
theorem components_of_relative (h : p.isAbsolute = false) :
    p.components = p.steps ∨ p.components = .current :: p.steps := by
  by_cases hne : p.text = ""
  · left
    rw [components, steps, pieces, hne]
    rfl
  · rcases exists_pieces_of_relative hne h with ⟨c, piece, rest, hpieces⟩
    rw [components, steps, hpieces]
    by_cases hcurrent : c :: piece = ['.']
    · right
      rw [hcurrent]
      rfl
    · left
      simp [componentsOfPieces, hcurrent]

theorem mem_components_of_mem_steps (h : step ∈ p.steps) : step ∈ p.components := by
  cases habsolute : p.isAbsolute with
  | true =>
    rw [components_of_isAbsolute habsolute]
    exact List.mem_cons_of_mem _ h
  | false =>
    rcases components_of_relative habsolute with hsame | hfront
    · rwa [hsame]
    · rw [hfront]
      exact List.mem_cons_of_mem _ h

/-- A step leads to the parent or to a name. -/
theorem eq_parent_or_name_of_mem_steps (h : step ∈ p.steps) :
    step = .parent ∨ step ∈ Set.range Component.name := by
  rcases List.mem_filterMap.1 h with ⟨piece, -, hpiece⟩
  unfold Component.ofPiece? at hpiece
  split at hpiece
  · cases hpiece
  · cases hpiece
  · cases hpiece
    exact Or.inl rfl
  · cases hpiece
    exact Or.inr ⟨_, rfl⟩

theorem root_not_mem_steps (p : Path) : .root ∉ p.steps := by
  intro h
  rcases eq_parent_or_name_of_mem_steps h with heq | ⟨name, heq⟩ <;> cases heq

theorem current_not_mem_steps (p : Path) : .current ∉ p.steps := by
  intro h
  rcases eq_parent_or_name_of_mem_steps h with heq | ⟨name, heq⟩ <;> cases heq

/-- A step that does not lead to a parent leads to a name. -/
theorem exists_names_of_steps (h : .parent ∉ p.components) :
    ∃ names : List String, p.steps = names.map .name := by
  have hnames : ∀ step ∈ p.steps, step ∈ Set.range Component.name := by
    intro step hstep
    have hne : step ≠ .parent := fun heq => h (heq ▸ mem_components_of_mem_steps hstep)
    exact (eq_parent_or_name_of_mem_steps hstep).resolve_left hne
  have hrange : p.steps ∈ Set.range (List.map Component.name) := by
    rw [Set.range_list_map]
    exact hnames
  rcases hrange with ⟨names, hsteps⟩
  exact ⟨names, hsteps.symm⟩

/-- With a slash at the end the last piece of a path is no step. -/
theorem getLast?_text_ne_of_pieces {before : List (List Char)}
    (hpieces : p.pieces = before ++ [piece]) (hpiece : Component.ofPiece? piece = some step) :
    p.text.toList.getLast? ≠ some '/' := by
  intro hslash
  have hne : p.text ≠ "" := by
    intro hempty
    simp [hempty] at hslash
  rcases exists_pieces_opened hne with ⟨others, -, hopened, -⟩
  rw [pieces, text_opened_of_slash hslash, ← pieces, hpieces] at hopened
  obtain rfl : piece = [] := List.singleton_inj.1 (List.append_inj' hopened rfl).2
  cases hpiece

/-! ## Joins -/

theorem steps_opened (h : p.text ≠ "") : p.opened.steps = p.steps := by
  by_cases hslash : p.text.toList.getLast? = some '/'
  · rw [steps, steps, pieces, pieces, text_opened_of_slash hslash]
  · rw [steps, pieces_opened_of_no_slash h hslash, List.filterMap_append]
    exact List.append_nil _

/-- The pieces of a joined path come last, behind pieces with the same steps. -/
theorem exists_pieces_join_of_relative (h : p.text ≠ "") (hq : q.isAbsolute = false) :
    ∃ before, before.filterMap Component.ofPiece? = p.steps ∧
      (p.join q).pieces = before ++ q.pieces := by
  have htext : (p.join q).text = p.opened.text ++ q.text := @text_join_of_relative p q.text h hq
  rcases exists_pieces_opened h with ⟨before, -, hopened, hsplit⟩
  refine ⟨before, ?_, ?_⟩
  · rw [← steps_opened h, steps, hopened, List.filterMap_append]
    exact (List.append_nil _).symm
  · rw [pieces, htext, String.toList_append, hsplit]
    rfl

/-- A relative path adds its steps. -/
theorem steps_join_of_relative (h : p.text ≠ "") (hq : q.isAbsolute = false) :
    (p.join q).steps = p.steps ++ q.steps := by
  rcases exists_pieces_join_of_relative h hq with ⟨before, hbefore, hpieces⟩
  rw [steps, hpieces, List.filterMap_append, hbefore]
  rfl

theorem pieces_of_no_slash {s : String} (hslash : '/' ∉ s.toList) :
    (⟨s⟩ : Path).pieces = [s.toList] :=
  Text.splitOn_of_not_mem hslash

theorem exists_pieces_join {s : String} (h : p.text ≠ "") (hslash : '/' ∉ s.toList) :
    ∃ before, before.filterMap Component.ofPiece? = p.steps ∧
      (p.join ⟨s⟩).pieces = before ++ [s.toList] := by
  rw [← pieces_of_no_slash hslash]
  exact exists_pieces_join_of_relative h (isAbsolute_of_no_slash hslash)

theorem steps_join {s : String} (h : p.text ≠ "") (hslash : '/' ∉ s.toList) :
    (p.join ⟨s⟩).steps = p.steps ++ (Component.ofPiece? s.toList).toList := by
  have hsteps : (⟨s⟩ : Path).steps = (Component.ofPiece? s.toList).toList := by
    rw [steps, pieces_of_no_slash hslash]
    cases hpiece : Component.ofPiece? s.toList <;> simp [hpiece]
  rw [steps_join_of_relative h (isAbsolute_of_no_slash hslash), hsteps]

/-- The text of a step spells this step and nothing else. -/
theorem text_of_ofPiece? (h : Component.ofPiece? piece = some step) : step.text.toList = piece := by
  unfold Component.ofPiece? at h
  split at h
  · cases h
  · cases h
  · cases h
    rfl
  · cases h
    exact String.toList_ofList

theorem ofPiece?_text (h : step ∈ p.steps) :
    '/' ∉ step.text.toList ∧ Component.ofPiece? step.text.toList = some step := by
  rcases List.mem_filterMap.1 h with ⟨piece, hpiece, hstep⟩
  rw [text_of_ofPiece? hstep]
  exact ⟨Text.not_mem_of_mem_splitOn hpiece, hstep⟩

/-- Steps taken from a path one after the other. -/
def joinSteps (start : Path) (steps : List Component) : Path :=
  steps.foldl (fun q step => q.join ⟨step.text⟩) start

/-- Steps that are joined one after the other come last. -/
theorem steps_joinSteps {steps : List Component} (h : p.isAbsolute = true)
    (hsteps : ∀ step ∈ steps,
      '/' ∉ step.text.toList ∧ Component.ofPiece? step.text.toList = some step) :
    (p.joinSteps steps).isAbsolute = true ∧ (p.joinSteps steps).steps = p.steps ++ steps := by
  induction steps generalizing p with
  | nil => simp [joinSteps, h]
  | cons step steps ih =>
    rcases hsteps step (by simp) with ⟨hslash, hstep⟩
    have hjoin := steps_join (text_ne_empty_of_isAbsolute h) hslash
    rw [hstep] at hjoin
    have hrest := ih (isAbsolute_join_of_isAbsolute h ⟨step.text⟩)
      fun other hother => hsteps other (List.mem_cons_of_mem _ hother)
    rw [hjoin, List.append_assoc] at hrest
    exact hrest

/-! ## Absolute paths -/

/-- What is joined to make a path absolute: its steps, with the root in front if it has one. -/
theorem components_relativeTo_current (p : Path) :
    ((p.relativeTo? ⟨"."⟩).getD p).components =
      if p.isAbsolute then .root :: p.steps else p.steps := by
  have hcurrent : (⟨"."⟩ : Path).components = [.current] := rfl
  have hkept : p.components.head? ≠ some .current →
      ((p.relativeTo? ⟨"."⟩).getD p) = p := by
    intro hhead
    have hprefix : [Component.current].isPrefixOf p.components = false := by
      cases hcomponents : p.components with
      | nil => rfl
      | cons c cs =>
        rw [hcomponents, List.head?_cons] at hhead
        have hc : c ≠ .current := fun heq => hhead (congrArg some heq)
        simp [List.isPrefixOf, hc.symm]
    simp [relativeTo?, hcurrent, hprefix]
  cases h : p.isAbsolute with
  | true =>
    have hroot := components_of_isAbsolute h
    rw [hkept (by simp [hroot]), hroot]
    rfl
  | false =>
    rcases components_of_relative h with hsame | hfront
    · rw [hkept, hsame]
      · rfl
      · rw [hsame]
        exact fun hhead => current_not_mem_steps p (List.mem_of_mem_head? hhead)
    · rcases relativeTo?_eq_some (show (⟨"."⟩ : Path).text ≠ "" by decide)
        (hfront.trans (by rw [hcurrent]; rfl)) with ⟨n, hn, hrelative⟩
      obtain rfl : n = 0 := by simpa [hcurrent] using hn.symm
      rw [hrelative, Option.getD_some, components_afterComponents, hfront]
      rfl

/-- An absolute path is made from the root, a relative one from the current directory. A slash at
the end is kept. -/
theorem exists_absolute_eq (hcwd : cwd.isAbsolute = true) (p : Path) :
    ∃ start : Path, start.isAbsolute = true ∧
      start.steps = (if p.isAbsolute then [] else cwd.steps) ∧
        p.absolute cwd =
          if p.text.toList.getLast? = some '/' then (joinSteps start p.steps).opened
          else joinSteps start p.steps := by
  have hjoined : ∃ joined : Path, (∃ start : Path, start.isAbsolute = true ∧
      start.steps = (if p.isAbsolute then [] else cwd.steps) ∧ joined = joinSteps start p.steps) ∧
        p.absolute cwd =
          if p.text.toList.getLast? = some '/' then joined.join ⟨""⟩ else joined := by
    simp only [absolute, components_relativeTo_current]
    refine ⟨_, ?_, rfl⟩
    cases h : p.isAbsolute with
    | true =>
      rw [isAbsolute, decide_eq_true_eq] at h
      rcases List.head?_eq_some_iff.1 h with ⟨tail, htail⟩
      simp only [if_true]
      split
      · exact ⟨⟨"/"⟩, rfl, rfl, rfl⟩
      · exact ⟨⟨"//"⟩, rfl, rfl, rfl⟩
      · exact ⟨⟨"/"⟩, rfl, rfl, rfl⟩
      · rename_i hnone
        exact absurd htail (hnone tail)
    | false =>
      have hhead : p.text.toList.head? ≠ some '/' := by simpa [isAbsolute] using h
      simp only [Bool.false_eq_true, if_false]
      split
      iterate 3
        rename_i heq
        exact absurd (congrArg List.head? heq) hhead
      exact ⟨cwd, hcwd, rfl, rfl⟩
  rcases hjoined with ⟨_, ⟨start, hstart, hsteps, rfl⟩, habsolute⟩
  exact ⟨start, hstart, hsteps, habsolute⟩

/-- An absolute path keeps its steps; a relative one takes them from the current directory. -/
theorem steps_absolute (hcwd : cwd.isAbsolute = true) (p : Path) :
    (p.absolute cwd).isAbsolute = true ∧
      (p.absolute cwd).steps = (if p.isAbsolute then [] else cwd.steps) ++ p.steps := by
  rcases exists_absolute_eq hcwd p with ⟨start, hstart, hsteps, habsolute⟩
  rcases steps_joinSteps hstart fun _ => ofPiece?_text with ⟨hjoined, hjoinedSteps⟩
  rw [habsolute, ← hsteps, ← hjoinedSteps]
  split
  · exact ⟨isAbsolute_join_of_isAbsolute hjoined _,
      steps_opened (text_ne_empty_of_isAbsolute hjoined)⟩
  · exact ⟨hjoined, rfl⟩

/-- Without a slash at the end the last step is joined last. -/
theorem absolute_of_concat {front : List Component} (hcwd : cwd.isAbsolute = true)
    (hsteps : p.steps = front ++ [step]) (hslash : p.text.toList.getLast? ≠ some '/') :
    ∃ q : Path, q.isAbsolute = true ∧
      q.steps = (if p.isAbsolute then [] else cwd.steps) ++ front ∧
        p.absolute cwd = q.join ⟨step.text⟩ := by
  rcases exists_absolute_eq hcwd p with ⟨start, hstart, hstartSteps, habsolute⟩
  have hfront : ∀ other ∈ front,
      '/' ∉ other.text.toList ∧ Component.ofPiece? other.text.toList = some other := by
    intro other hother
    exact ofPiece?_text (p := p) (by rw [hsteps]; exact List.mem_append_left _ hother)
  rcases steps_joinSteps hstart hfront with ⟨hjoined, hjoinedSteps⟩
  refine ⟨joinSteps start front, hjoined, by rw [hjoinedSteps, hstartSteps], ?_⟩
  rw [habsolute, if_neg hslash, hsteps, joinSteps, List.foldl_append]
  rfl

/-! ## Parents and ancestors -/

theorem exists_concat_trimPieces {pieces : List (List Char)} (h : trimPieces pieces ≠ []) :
    ∃ front last, trimPieces pieces = front ++ [last] ∧ isIdle last = false := by
  rcases List.exists_cons_of_ne_nil (l := pieces.reverse.dropWhile isIdle)
    (by simpa [trimPieces] using h) with ⟨last, front, hfront⟩
  refine ⟨front.reverse, last, by simp [trimPieces, hfront], ?_⟩
  have hlast := List.head?_dropWhile_not isIdle pieces.reverse
  rw [hfront] at hlast
  simpa using hlast

theorem steps_ofStart {pieces : List (List Char)} (hslash : ∀ piece ∈ pieces, '/' ∉ piece) :
    (ofStart [] pieces).isAbsolute = true ∧
      (ofStart [] pieces).steps = pieces.filterMap Component.ofPiece? := by
  cases pieces with
  | nil => exact ⟨rfl, rfl⟩
  | cons piece rest =>
    have hpieces : (ofPieces ([] :: piece :: rest)).pieces = [] :: piece :: rest := by
      rw [Path.pieces, ofPieces, String.toList_ofList]
      refine Text.splitOn_joinWith (by simp) fun other hother => ?_
      rcases List.mem_cons.1 hother with rfl | hother
      · simp
      · exact hslash other hother
    have hstart : ofStart [] (piece :: rest) = ofPieces ([] :: piece :: rest) := by
      simp [ofStart]
    rw [hstart, steps, hpieces]
    refine ⟨?_, rfl⟩
    simp [isAbsolute, ofPieces, Text.joinWith]

/-- The parent of an absolute path lacks the last step. Only the root has no parent. -/
theorem parent?_of_isAbsolute (h : p.isAbsolute = true) :
    (p.steps = [] ∧ p.parent? = none) ∨
      ∃ q, p.parent? = some q ∧ q.isAbsolute = true ∧ p.steps ≠ [] ∧
        q.steps = p.steps.dropLast := by
  rcases exists_pieces_of_isAbsolute h with ⟨piece, rest, hpieces⟩
  have hsteps : p.steps = (trimPieces (piece :: rest)).filterMap Component.ofPiece? := by
    rw [filterMap_trimPieces, steps, hpieces]
    rfl
  by_cases hempty : trimPieces (piece :: rest) = []
  · left
    refine ⟨?_, by simp only [parent?, hpieces, hempty]⟩
    rw [hsteps, hempty]
    exact List.filterMap_nil
  · right
    rcases exists_concat_trimPieces hempty with ⟨front, last, hbody, hlast⟩
    rcases Option.isSome_iff_exists.1 (show (Component.ofPiece? last).isSome by
      simpa [isIdle] using hlast) with ⟨step, hstep⟩
    have hconcat : p.steps = front.filterMap Component.ofPiece? ++ [step] := by
      simp [hsteps, hbody, hstep]
    have hslash : ∀ other ∈ trimPieces front, '/' ∉ other := by
      intro other hother
      have hmem : other ∈ p.pieces := by
        have hkept := trimPieces_prefix (piece :: rest)
        have hfront := trimPieces_prefix front
        rw [hpieces]
        refine List.mem_cons_of_mem _ (hkept.subset ?_)
        rw [hbody]
        exact List.mem_append_left _ (hfront.subset hother)
      exact Text.not_mem_of_mem_splitOn hmem
    rcases steps_ofStart hslash with ⟨habsolute, hfront⟩
    refine ⟨ofStart [] (trimPieces front), ?_, habsolute, by simp [hconcat], ?_⟩
    · simp only [parent?, hpieces]
      rw [hbody, List.dropLast_concat]
    · rw [hfront, filterMap_trimPieces, hconcat, List.dropLast_concat]

theorem steps_of_parent? (h : p.isAbsolute = true) (hparent : p.parent? = some q) :
    q.isAbsolute = true ∧ p.steps ≠ [] ∧ q.steps = p.steps.dropLast := by
  rcases parent?_of_isAbsolute h with ⟨-, hnone⟩ | ⟨q', hq', hall⟩
  · rw [hparent] at hnone
    cases hnone
  · obtain rfl : q = q' := Option.some.inj (hparent.symm.trans hq')
    exact hall

/-- A path with its parent, the parent of that, and so on to the one without a parent. -/
inductive Ascends : Path → List Path → Prop where
  | top {p : Path} : p.parent? = none → Ascends p [p]
  | step {p q : Path} {above : List Path} :
      p.parent? = some q → Ascends q above → Ascends p (p :: above)

/-- From parent to parent the paths lose one step after the other. -/
theorem Ascends.map_steps {paths : List Path} (hascends : p.Ascends paths)
    (h : p.isAbsolute = true) :
    (∀ q ∈ paths, q.isAbsolute = true) ∧ paths.map steps = p.steps.inits.reverse := by
  induction hascends with
  | top hnone =>
    rcases parent?_of_isAbsolute h with ⟨hnil, -⟩ | ⟨q, hq, -⟩
    · simp [h, hnil]
    · rw [hnone] at hq
      cases hq
  | @step p q above hparent _ ih =>
    rcases steps_of_parent? h hparent with ⟨habsolute, hne, hsteps⟩
    rcases ih habsolute with ⟨hall, hmap⟩
    rcases List.eq_nil_or_concat p.steps with hnil | ⟨front, last, hconcat⟩
    · exact absurd hnil hne
    · rw [List.concat_eq_append] at hconcat
      rw [hconcat, List.dropLast_concat] at hsteps
      refine ⟨List.forall_mem_cons.2 ⟨h, hall⟩, ?_⟩
      rw [List.map_cons, hmap, hsteps, hconcat, List.inits_append]
      simp

theorem ascends_ancestorsWithin {n : Nat} (h : p.isAbsolute = true) (hn : p.steps.length ≤ n) :
    p.Ascends (ancestorsWithin n p) := by
  induction n generalizing p with
  | zero =>
    rcases parent?_of_isAbsolute h with ⟨-, hnone⟩ | ⟨q, -, -, hne, -⟩
    · exact .top hnone
    · exact absurd (List.length_eq_zero_iff.1 (Nat.le_zero.1 hn)) hne
  | succ n ih =>
    rw [ancestorsWithin]
    rcases parent?_of_isAbsolute h with ⟨-, hnone⟩ | ⟨q, hq, habsolute, -, hsteps⟩
    · rw [hnone]
      exact .top hnone
    · rw [hq]
      refine .step hq (ih habsolute ?_)
      rw [hsteps, List.length_dropLast]
      exact Nat.sub_le_of_le_add hn

theorem length_steps_le (h : p.isAbsolute = true) : p.steps.length ≤ p.text.length := by
  rcases exists_pieces_of_isAbsolute h with ⟨piece, rest, hpieces⟩
  have hlength : p.pieces.length ≤ p.text.length + 1 := Text.length_splitOn_le '/' p.text.toList
  have hsteps : p.steps = (piece :: rest).filterMap Component.ofPiece? := by
    rw [steps, hpieces]
    rfl
  calc
    p.steps.length ≤ (piece :: rest).length := hsteps ▸ List.length_filterMap_le _ _
    _ ≤ p.text.length := by
      rw [hpieces, List.length_cons] at hlength
      exact Nat.le_of_succ_le_succ hlength

/-- An absolute path has enough characters to come to the root from parent to parent. -/
theorem ascends_ancestors (h : p.isAbsolute = true) : p.Ascends p.ancestors :=
  ascends_ancestorsWithin h (length_steps_le h)

/-- The ancestors of an absolute path have its steps without more and more of the last ones. -/
theorem map_steps_ancestors (h : p.isAbsolute = true) :
    (∀ q ∈ p.ancestors, q.isAbsolute = true) ∧ p.ancestors.map steps = p.steps.inits.reverse :=
  (ascends_ancestors h).map_steps h

end Path
end TypeNameLint
