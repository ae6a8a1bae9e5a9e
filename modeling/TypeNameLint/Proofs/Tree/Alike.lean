import TypeNameLint.Proofs.Tree.References
import TypeNameLint.Text.Blank
import Mathlib.Data.List.Forall2

/-!
# Alike — trees that differ in their formatting only

Two sources can spell the same tree with blanks and line ends in different places. Whether a type is
used at a place depends on kinds and fields, so both trees use types at the same places. This file
defines:

* `Tree.Alike`: trees of one shape with nodes of one kind, field and text without blanks;
* `Crumb.Alike`, `Cursor.Alike`: surroundings and places of such trees;

and proves that the places of such trees are alike one by one, and used alike.
-/

namespace TypeNameLint

/-- Trees of two sources that differ in their formatting only. -/
inductive Tree.Alike (source source' : List Char) : Tree → Tree → Prop
  | node {label label' : Label} {children children' : List Tree}
      (kind : label.kind = label'.kind)
      (field : label.field = label'.field)
      (text : Text.squeeze (nodeText source label) = Text.squeeze (nodeText source' label'))
      (below : List.Forall₂ (Tree.Alike source source') children children') :
      Tree.Alike source source' (.node label children) (.node label' children')

/-- Ancestors of one kind with alike trees on both sides of the way down. -/
structure Crumb.Alike (source source' : List Char) (crumb crumb' : Crumb) : Prop where
  kind : crumb.label.kind = crumb'.label.kind
  left : List.Forall₂ (Tree.Alike source source') crumb.left crumb'.left
  right : List.Forall₂ (Tree.Alike source source') crumb.right crumb'.right

/-- Alike trees in alike surroundings. -/
structure Cursor.Alike (source source' : List Char) (place place' : Cursor) : Prop where
  focus : Tree.Alike source source' place.focus place'.focus
  crumbs : List.Forall₂ (Crumb.Alike source source') place.crumbs place'.crumbs

variable {source source' : List Char}

/-! ## Nodes -/

namespace Tree.Alike

variable {t t' : Tree}

theorem kind_eq (h : Tree.Alike source source' t t') : t.kind = t'.kind := by
  cases h with
  | node kind => exact kind

theorem field_eq (h : Tree.Alike source source' t t') : t.label.field = t'.label.field := by
  cases h with
  | node _ field => exact field

theorem squeeze_eq (h : Tree.Alike source source' t t') :
    Text.squeeze (nodeText source t.label) = Text.squeeze (nodeText source' t'.label) := by
  cases h with
  | node _ _ text => exact text

theorem children (h : Tree.Alike source source' t t') :
    List.Forall₂ (Tree.Alike source source') t.children t'.children := by
  cases h with
  | node _ _ _ below => exact below

end Tree.Alike

/-- What is counted or looked for among alike trees is found as often. -/
theorem any_hasNameField_of_alike {ts ts' : List Tree}
    (h : List.Forall₂ (Tree.Alike source source') ts ts') :
    ts.any hasNameField = ts'.any hasNameField := by
  induction h with
  | nil => rfl
  | cons hhead _ ih => simp [hasNameField, hhead.field_eq, ih]

theorem countP_kind_of_alike {ts ts' : List Tree} (kind : String)
    (h : List.Forall₂ (Tree.Alike source source') ts ts') :
    (ts.countP fun t => t.kind ≠ kind) = ts'.countP fun t => t.kind ≠ kind := by
  induction h with
  | nil => rfl
  | cons hhead _ ih => simp only [List.countP_cons, hhead.kind_eq, ih]

/-! ## Places -/

namespace Tree

mutual

/-- The places of alike trees in alike surroundings are alike one by one. -/
theorem Alike.forall₂_placesBelow {crumbs crumbs' : List Crumb}
    (hcrumbs : List.Forall₂ (Crumb.Alike source source') crumbs crumbs') :
    ∀ {t t' : Tree}, Tree.Alike source source' t t' →
      List.Forall₂ (Cursor.Alike source source') (t.placesBelow crumbs) (t'.placesBelow crumbs')
  | .node label ts, .node label' ts', .node kind field text below => by
    rw [placesBelow, placesBelow]
    exact List.Forall₂.cons ⟨.node kind field text below, hcrumbs⟩
      (forall₂_forestPlaces_of_alike kind hcrumbs List.Forall₂.nil below)

/-- The same for several trees below one node. -/
theorem forall₂_forestPlaces_of_alike {label label' : Label} {crumbs crumbs' : List Crumb}
    {left left' : List Tree} (hkind : label.kind = label'.kind)
    (hcrumbs : List.Forall₂ (Crumb.Alike source source') crumbs crumbs')
    (hleft : List.Forall₂ (Tree.Alike source source') left left') :
    ∀ {ts ts' : List Tree}, List.Forall₂ (Tree.Alike source source') ts ts' →
      List.Forall₂ (Cursor.Alike source source') (forestPlaces label crumbs left ts)
        (forestPlaces label' crumbs' left' ts')
  | [], [], .nil => List.Forall₂.nil
  | t :: ts, t' :: ts', .cons hhead htail => by
    rw [forestPlaces, forestPlaces]
    -- The trees passed already stand to the left of those that come.
    exact List.rel_append
      (hhead.forall₂_placesBelow (List.Forall₂.cons ⟨hkind, hleft, htail⟩ hcrumbs))
      (forall₂_forestPlaces_of_alike hkind hcrumbs (List.Forall₂.cons hhead hleft) htail)

end

theorem Alike.forall₂_places {t t' : Tree} (h : Tree.Alike source source' t t') :
    List.Forall₂ (Cursor.Alike source source') t.places t'.places :=
  h.forall₂_placesBelow List.Forall₂.nil

end Tree

/-! ## Uses -/

namespace Cursor.Alike

variable {place place' : Cursor}

/-- The test of a place asks for kinds and fields around it, and for what comes first. -/
theorem isReference_eq (h : Cursor.Alike source source' place place') :
    isReference place = isReference place' := by
  rcases place with ⟨t, crumbs⟩
  rcases place' with ⟨t', crumbs'⟩
  rcases h with ⟨hfocus, hcrumbs⟩
  cases hcrumbs with
  | nil => rfl
  | @cons crumb crumb' above above' hcrumb habove =>
    have hnamed : isNameOf t crumb = isNameOf t' crumb' := by
      have hfield : t.label.field = t'.label.field := hfocus.field_eq
      rw [isNameOf, isNameOf, any_hasNameField_of_alike hcrumb.left, hasNameField, hasNameField,
        hfield]
    have houter : (above.head?.all fun outer => !isHeritageClause outer.label.kind) =
        above'.head?.all fun outer => !isHeritageClause outer.label.kind := by
      cases habove with
      | nil => rfl
      | cons houter _ => simp [houter.kind]
    have hfirst : crumb.left.isEmpty = crumb'.left.isEmpty := by
      rw [Bool.eq_iff_iff, List.isEmpty_iff_length_eq_zero, List.isEmpty_iff_length_eq_zero,
        hcrumb.left.length_eq]
    exact isReference_congr hcrumb.kind hnamed houter fun _ => hfirst

/-- Alike places use alike nodes as types, with as many members, or none of them uses a type. -/
theorem ofCursor?_cases (h : Cursor.Alike source source' place place') :
    (TypeUse.ofCursor? place = none ∧ TypeUse.ofCursor? place' = none) ∨
      ∃ use use', TypeUse.ofCursor? place = some use ∧ TypeUse.ofCursor? place' = some use' ∧
        Tree.Alike source source' use.node use'.node ∧ use.memberCount = use'.memberCount := by
  have hkind : place.focus.kind = place'.focus.kind := h.focus.kind_eq
  simp only [TypeUse.ofCursor?, hkind, h.isReference_eq]
  split
  · right
    exact ⟨_, _, rfl, rfl, h.focus, countP_kind_of_alike "comment" h.focus.children⟩
  · split
    · right
      exact ⟨_, _, rfl, rfl, h.focus, rfl⟩
    · left
      exact ⟨rfl, rfl⟩

end Cursor.Alike
end TypeNameLint
