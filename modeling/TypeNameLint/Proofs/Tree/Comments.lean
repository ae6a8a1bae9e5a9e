import TypeNameLint.Proofs.Data.Lists
import TypeNameLint.Proofs.Tree.References

/-!
# Comments — trees with comments put in between

Comments are nodes like any other, and a parser puts them among the children of whatever node they
stand in. Here a tree is compared with the same tree without some of its comments. The tests of a
place look for fields, which comments do not have, and for what comes first below `infer`, which
can be a comment. This file defines:

* `Tree.Commented`: a tree with comments put among the children of its nodes;
* `usesAt`, `SameUse`: the uses of types with their places, and uses that correspond;
* `Cursor.isBinding`: the name that `infer` introduces.

The main result is `sameUses_of_commented`.
-/

namespace TypeNameLint

/-! ## Trees with comments put in -/

/-- A comment as the parser makes it: a leaf without a field. -/
structure Tree.IsCommentLeaf (t : Tree) : Prop where
  kind : t.kind = "comment"
  field : t.label.field = none
  leaf : t.children = []

/-- A tree with comments put among the children of its nodes, wherever that is. The other nodes
keep their kinds and fields; the spans may change. -/
inductive Tree.Commented : Tree → Tree → Prop
  | node {label label' : Label} {children children' : List Tree}
      (kind : label.kind = label'.kind)
      (field : label.field = label'.field)
      (below : Padded Tree.Commented Tree.IsCommentLeaf children children') :
      Tree.Commented (.node label children) (.node label' children')

/-- An ancestor with comments put in on both sides of the way down. -/
structure Crumb.Commented (crumb crumb' : Crumb) : Prop where
  kind : crumb.label.kind = crumb'.label.kind
  left : Padded Tree.Commented Tree.IsCommentLeaf crumb.left crumb'.left
  right : Padded Tree.Commented Tree.IsCommentLeaf crumb.right crumb'.right

/-- Corresponding places: a node and the same node, with comments put in around and below. -/
structure Cursor.Commented (place place' : Cursor) : Prop where
  focus : Tree.Commented place.focus place'.focus
  crumbs : List.Forall₂ Crumb.Commented place.crumbs place'.crumbs

namespace Tree

variable {t t' : Tree}

theorem Commented.kind_eq (h : t.Commented t') : t.kind = t'.kind := by
  cases h with
  | node kind => exact kind

theorem Commented.field_eq (h : t.Commented t') : t.label.field = t'.label.field := by
  cases h with
  | node _ field => exact field

theorem Commented.children (h : t.Commented t') :
    Padded Tree.Commented IsCommentLeaf t.children t'.children := by
  cases h with
  | node _ _ below => exact below

/-- A comment stands at one place only. -/
theorem IsCommentLeaf.placesBelow_eq (h : t.IsCommentLeaf) (crumbs : List Crumb) :
    t.placesBelow crumbs = [⟨t, crumbs⟩] := by
  rcases t with ⟨label, children⟩
  have hleaf : children = [] := h.leaf
  rw [hleaf]
  rfl

mutual

/-- The places of a tree correspond one by one to those of the tree with comments, which has the
places of the comments in between. -/
theorem Commented.padded_placesBelow {crumbs crumbs' : List Crumb}
    (hcrumbs : List.Forall₂ Crumb.Commented crumbs crumbs') :
    ∀ {t t' : Tree}, t.Commented t' →
      Padded Cursor.Commented (fun place => place.focus.IsCommentLeaf)
        (t.placesBelow crumbs) (t'.placesBelow crumbs')
  | .node label ts, .node label' ts', .node kind field below => by
    rw [placesBelow, placesBelow]
    exact Padded.item ⟨.node kind field below, hcrumbs⟩
      (padded_forestPlaces_of_commented kind hcrumbs Padded.nil below)

theorem padded_forestPlaces_of_commented {label label' : Label} {crumbs crumbs' : List Crumb}
    {left left' : List Tree} (hkind : label.kind = label'.kind)
    (hcrumbs : List.Forall₂ Crumb.Commented crumbs crumbs')
    (hleft : Padded Tree.Commented IsCommentLeaf left left') :
    ∀ {ts ts' : List Tree}, Padded Tree.Commented IsCommentLeaf ts ts' →
      Padded Cursor.Commented (fun place => place.focus.IsCommentLeaf)
        (forestPlaces label crumbs left ts) (forestPlaces label' crumbs' left' ts')
  | [], [], .nil => Padded.nil
  | t :: ts, t' :: ts', .item hhead htail => by
    rw [forestPlaces, forestPlaces]
    exact (hhead.padded_placesBelow (List.Forall₂.cons ⟨hkind, hleft, htail⟩ hcrumbs)).append
      (padded_forestPlaces_of_commented hkind hcrumbs (Padded.item hhead hleft) htail)
  | ts, t' :: ts', .extra hcomment htail => by
    -- The comment stands to the left of all that comes.
    have hrest := padded_forestPlaces_of_commented hkind hcrumbs (Padded.extra hcomment hleft) htail
    rw [forestPlaces, hcomment.placesBelow_eq]
    exact Padded.extra hcomment hrest

end

theorem Commented.padded_places (h : t.Commented t') :
    Padded Cursor.Commented (fun place => place.focus.IsCommentLeaf) t.places t'.places :=
  h.padded_placesBelow List.Forall₂.nil

end Tree

/-! ## Names that are introduced -/

/-- The kinds of nodes that can refer to a type by its name. -/
def isNameKind (kind : String) : Bool :=
  ["type_identifier", "nested_type_identifier", "generic_type"].contains kind

namespace Cursor

/-- The name that `infer` introduces: nothing but comments comes before it. -/
def isBinding (place : Cursor) : Bool :=
  match place.crumbs with
  | [] => false
  | parent :: _ =>
    isNameKind place.focus.kind && parent.label.kind = "infer_type" &&
      parent.left.all fun sibling => sibling.kind = "comment"

/-- Whether a place is the first one below its parent. -/
def comesFirst (place : Cursor) : Bool :=
  match place.crumbs with
  | [] => true
  | parent :: _ => parent.left.isEmpty

variable {place place' : Cursor}

theorem isNameKind_of_isBinding (h : place.isBinding = true) :
    isNameKind place.focus.kind = true := by
  rcases place with ⟨t, crumbs⟩
  cases crumbs with
  | nil => simp [isBinding] at h
  | cons parent above =>
    simp only [isBinding, Bool.and_eq_true] at h
    exact h.1.1

theorem isReference_of_isBinding (h : place.isBinding = true) :
    isReference place = !place.comesFirst := by
  rcases place with ⟨t, crumbs⟩
  cases crumbs with
  | nil => simp [isBinding] at h
  | cons parent above =>
    have hinfer : parent.label.kind = "infer_type" := by
      simp only [isBinding, Bool.and_eq_true, decide_eq_true_eq] at h
      exact h.1.2
    have hdeclared : isDeclaration "infer_type" = false := by decide
    have hheritage : isHeritageClause "infer_type" = false := by decide
    simp [isReference, comesFirst, hinfer, hdeclared, hheritage]

/-- A name below `infer` that is not introduced there has something else before it. -/
theorem comesFirst_of_not_isBinding {t : Tree} {parent : Crumb} {above : List Crumb}
    (hname : isNameKind t.kind = true) (hinfer : parent.label.kind = "infer_type")
    (h : isBinding ⟨t, parent :: above⟩ = false) : comesFirst ⟨t, parent :: above⟩ = false := by
  simp only [isBinding, hname, hinfer, decide_true, Bool.true_and] at h
  cases hleft : parent.left with
  | nil => simp [hleft] at h
  | cons s left => simp [comesFirst, hleft]

namespace Commented

theorem isBinding_eq (h : Cursor.Commented place place') : place.isBinding = place'.isBinding := by
  rcases place with ⟨t, crumbs⟩
  rcases place' with ⟨t', crumbs'⟩
  rcases h with ⟨hfocus, hcrumbs⟩
  cases hcrumbs with
  | nil => rfl
  | @cons parent parent' above above' hparent _ =>
    have hcomments : (parent.left.all fun sibling => sibling.kind = "comment") =
        parent'.left.all fun sibling => sibling.kind = "comment" := by
      refine hparent.left.all_eq ?_ ?_
      · intro s s' hs
        rw [hs.kind_eq]
      · intro s hs
        simp [hs.kind]
    have hkind : t.kind = t'.kind := hfocus.kind_eq
    simp only [isBinding, hkind, hparent.kind, hcomments]

theorem comesFirst_of_comesFirst (h : Cursor.Commented place place')
    (hfirst : place'.comesFirst = true) : place.comesFirst = true := by
  rcases place with ⟨t, crumbs⟩
  rcases place' with ⟨t', crumbs'⟩
  rcases h with ⟨-, hcrumbs⟩
  cases hcrumbs with
  | nil => rfl
  | @cons parent parent' above above' hparent _ =>
    have hempty : parent'.left = [] := List.isEmpty_iff.1 hfirst
    have hleft := hparent.left
    rw [hempty] at hleft
    cases hleftEq : parent.left with
    | nil => simp [comesFirst, hleftEq]
    | cons s left =>
      rw [hleftEq] at hleft
      cases hleft

/-- A name that is not introduced by `infer` refers to a type with and without the comments. -/
theorem isReference_eq (h : Cursor.Commented place place')
    (hname : isNameKind place.focus.kind = true) (hbinding : place.isBinding = false) :
    isReference place = isReference place' := by
  have hbinding' : place'.isBinding = false := h.isBinding_eq ▸ hbinding
  have hkind : place.focus.kind = place'.focus.kind := h.focus.kind_eq
  have hfield : place.focus.label.field = place'.focus.label.field := h.focus.field_eq
  rcases place with ⟨t, crumbs⟩
  rcases place' with ⟨t', crumbs'⟩
  rcases h with ⟨-, hcrumbs⟩
  cases hcrumbs with
  | nil => rfl
  | @cons parent parent' above above' hparent habove =>
    have hnames : (parent.left.all fun sibling => !hasNameField sibling) =
        parent'.left.all fun sibling => !hasNameField sibling := by
      refine hparent.left.all_eq ?_ ?_
      · intro s s' hs
        rw [hasNameField, hasNameField, hs.field_eq]
      · intro s hs
        simp [hasNameField, hs.field]
    have hnamed : isNameOf t parent = isNameOf t' parent' := by
      rw [isNameOf, isNameOf, List.not_any_eq_all_not, List.not_any_eq_all_not, hnames,
        hasNameField, hasNameField, hfield]
    refine isReference_congr hparent.kind hnamed ?_ ?_
    · cases habove with
      | nil => rfl
      | cons houter _ => simp [houter.kind]
    · intro hinfer
      have hfirst := comesFirst_of_not_isBinding hname hinfer hbinding
      have hfirst' := comesFirst_of_not_isBinding (hkind ▸ hname) (hparent.kind ▸ hinfer) hbinding'
      exact hfirst.trans hfirst'.symm

end Commented
end Cursor

/-! ## Uses -/

/-- The uses of types in a tree with their places, in document order. -/
def usesAt (t : Tree) : List (Cursor × TypeUse) :=
  t.places.filterMap fun place => (TypeUse.ofCursor? place).map fun use => (place, use)

/-- Two uses that correspond: of the same sort, at corresponding places, with as many members. -/
structure SameUse (call call' : Cursor × TypeUse) : Prop where
  place : Cursor.Commented call.1 call'.1
  use : (call.2 = .reference call.1.focus ∧ call'.2 = .reference call'.1.focus) ∨
    (call.2 = .literal call.1.focus ∧ call'.2 = .literal call'.1.focus)
  memberCount : call.2.memberCount = call'.2.memberCount

theorem map_snd_usesAt (t : Tree) : (usesAt t).map Prod.snd = typeUses t := by
  have hsnd : ∀ place : Cursor,
      ((TypeUse.ofCursor? place).map fun use => (place, use)).map Prod.snd =
        TypeUse.ofCursor? place := by
    intro place
    cases TypeUse.ofCursor? place <;> rfl
  rw [usesAt, typeUses, Cursor.walk_ofTree_eq_places, List.map_filterMap]
  simp only [hsnd]

theorem mem_usesAt_iff {t : Tree} {place : Cursor} {use : TypeUse} :
    (place, use) ∈ usesAt t ↔ place ∈ t.places ∧ TypeUse.ofCursor? place = some use := by
  rw [usesAt, List.mem_filterMap]
  constructor
  · rintro ⟨found, hfound, heq⟩
    rcases Option.map_eq_some_iff.1 heq with ⟨_, huse, heq⟩
    cases heq
    exact ⟨hfound, huse⟩
  · rintro ⟨hplace, huse⟩
    exact ⟨place, hplace, by rw [huse]; rfl⟩

namespace TypeUse

variable {place place' : Cursor}

theorem ofCursor?_of_isCommentLeaf (h : place.focus.IsCommentLeaf) : ofCursor? place = none := by
  simp [ofCursor?, h.kind]

theorem ofCursor?_of_isNameKind (h : isNameKind place.focus.kind = true) :
    ofCursor? place = if isReference place then some (reference place.focus) else none := by
  have hliteral : place.focus.kind ≠ "object_type" := by
    intro hkind
    rw [hkind] at h
    exact absurd h (by decide)
  simp only [ofCursor?, if_neg hliteral]
  rw [← isNameKind, h, Bool.true_and]

/-- Comments are no members. -/
theorem memberCount_of_commented {t t' : Tree} (h : t.Commented t') :
    (literal t).memberCount = (literal t').memberCount := by
  refine h.children.countP_eq ?_ ?_
  · intro s s' hs
    rw [hs.kind_eq]
  · intro s hs
    simp [hs.kind]

end TypeUse

namespace Cursor.Commented

variable {place place' : Cursor}

/-- Corresponding places are used alike, names that `infer` introduces apart. -/
theorem ofCursor?_cases (h : Cursor.Commented place place') (hbinding : place.isBinding = false) :
    (TypeUse.ofCursor? place = none ∧ TypeUse.ofCursor? place' = none) ∨
      ∃ use use', TypeUse.ofCursor? place = some use ∧ TypeUse.ofCursor? place' = some use' ∧
        SameUse (place, use) (place', use') := by
  have hkind : place.focus.kind = place'.focus.kind := h.focus.kind_eq
  by_cases hliteral : place.focus.kind = "object_type"
  · right
    have hcount := TypeUse.memberCount_of_commented h.focus
    exact ⟨_, _, TypeUse.ofCursor?_of_object_type hliteral,
      TypeUse.ofCursor?_of_object_type (hkind ▸ hliteral), h, Or.inr ⟨rfl, rfl⟩, hcount⟩
  · cases hname : isNameKind place.focus.kind with
    | true =>
      rw [TypeUse.ofCursor?_of_isNameKind hname,
        TypeUse.ofCursor?_of_isNameKind (hkind ▸ hname), ← h.isReference_eq hname hbinding]
      cases isReference place with
      | true =>
        right
        exact ⟨_, _, rfl, rfl, h, Or.inl ⟨rfl, rfl⟩, rfl⟩
      | false =>
        left
        exact ⟨rfl, rfl⟩
    | false =>
      left
      simp only [TypeUse.ofCursor?, ← hkind, if_neg hliteral]
      rw [← isNameKind, hname, Bool.false_and, Bool.false_and]
      exact ⟨rfl, rfl⟩

end Cursor.Commented

/-- The uses at other places than those of names that `infer` introduces. -/
def otherUses (t : Tree) : List (Cursor × TypeUse) :=
  (usesAt t).filter fun call => !call.1.isBinding

/-- Comments put into a tree do not change the uses of types, one kind of places apart. -/
theorem forall₂_otherUses {t t' : Tree} (h : t.Commented t') :
    List.Forall₂ SameUse (otherUses t) (otherUses t') := by
  rw [otherUses, otherUses, usesAt, usesAt, List.filter_filterMap, List.filter_filterMap]
  refine h.padded_places.forall₂_filterMap ?_ ?_
  · intro place place' hplace
    cases hbinding : place.isBinding with
    | true =>
      left
      have hbinding' : place'.isBinding = true := hplace.isBinding_eq ▸ hbinding
      cases TypeUse.ofCursor? place <;> cases TypeUse.ofCursor? place' <;>
        simp [hbinding, hbinding']
    | false =>
      have hbinding' : place'.isBinding = false := hplace.isBinding_eq ▸ hbinding
      rcases hplace.ofCursor?_cases hbinding with ⟨hnone, hnone'⟩ | ⟨use, use', huse, huse', hsame⟩
      · left
        simp [hnone, hnone']
      · right
        exact ⟨_, _, by simp [huse, hbinding], by simp [huse', hbinding'], hsame⟩
  · intro place hplace
    simp [TypeUse.ofCursor?_of_isCommentLeaf hplace]

/-- A name that `infer` introduces is used as a reference if a comment comes before it. -/
theorem mem_usesAt_of_isBinding {t : Tree} {place : Cursor} (hplace : place ∈ t.places)
    (hbinding : place.isBinding = true) (use : TypeUse) :
    (place, use) ∈ usesAt t ↔ use = .reference place.focus ∧ place.comesFirst = false := by
  have hname := Cursor.isNameKind_of_isBinding hbinding
  rw [mem_usesAt_iff, TypeUse.ofCursor?_of_isNameKind hname,
    Cursor.isReference_of_isBinding hbinding]
  cases place.comesFirst with
  | true => simp
  | false => simp [hplace, eq_comm]

/-- With nothing put in front of the names that `infer` introduces, none of them is used. -/
theorem otherUses_eq_usesAt {t : Tree}
    (h : ∀ place ∈ t.places, place.isBinding = true → place.comesFirst = true) :
    otherUses t = usesAt t := by
  refine List.filter_eq_self.2 ?_
  rintro ⟨place, use⟩ hmem
  cases hbinding : place.isBinding with
  | false => rfl
  | true =>
    have hplace := (mem_usesAt_iff.1 hmem).1
    have hused := ((mem_usesAt_of_isBinding hplace hbinding use).1 hmem).2
    rw [h place hplace hbinding] at hused
    cases hused

/-- Comments put among the children of any nodes leave the uses of types as they are, at
corresponding places and with as many members, except for the names that `infer` introduces: these
are used if and only if a comment comes before them. So all uses are as before as long as no comment
is put in front of such a name. -/
theorem sameUses_of_commented {t t' : Tree} (h : t.Commented t') :
    (usesAt t).map Prod.snd = typeUses t ∧ (usesAt t').map Prod.snd = typeUses t' ∧
    List.Forall₂ SameUse (otherUses t) (otherUses t') ∧
    (∀ place ∈ t'.places, place.isBinding = true → ∀ use,
      (place, use) ∈ usesAt t' ↔ use = .reference place.focus ∧ place.comesFirst = false) ∧
    ((∀ place ∈ t'.places, place.isBinding = true → place.comesFirst = true) →
      List.Forall₂ SameUse (usesAt t) (usesAt t')) := by
  have hothers := forall₂_otherUses h
  refine ⟨map_snd_usesAt t, map_snd_usesAt t', hothers, ?_, ?_⟩
  · intro place hplace hbinding use
    exact mem_usesAt_of_isBinding hplace hbinding use
  · intro hfirst'
    have hfirst : ∀ place ∈ t.places, place.isBinding = true → place.comesFirst = true := by
      intro place hplace hbinding
      rcases h.padded_places.exists_of_mem place hplace with ⟨place', hplace', hcommented⟩
      exact hcommented.comesFirst_of_comesFirst
        (hfirst' place' hplace' (hcommented.isBinding_eq ▸ hbinding))
    rw [otherUses_eq_usesAt hfirst, otherUses_eq_usesAt hfirst'] at hothers
    exact hothers

/-- The tree of `Map<infer K, {}>`. -/
def plainMapTree : Tree :=
  .node ⟨"generic_type", none, 0, 16⟩
    [.node ⟨"type_identifier", some "name", 0, 3⟩ [],
     .node ⟨"type_arguments", some "type_arguments", 3, 16⟩
      [.node ⟨"infer_type", none, 4, 11⟩ [.node ⟨"type_identifier", none, 10, 11⟩ []],
       .node ⟨"object_type", none, 13, 15⟩ []]]

/-- The tree of `Map</* k */ infer K, { /* v */ }>`. -/
def commentedMapTree : Tree :=
  .node ⟨"generic_type", none, 0, 33⟩
    [.node ⟨"type_identifier", some "name", 0, 3⟩ [],
     .node ⟨"type_arguments", some "type_arguments", 3, 33⟩
      [.node ⟨"comment", none, 4, 11⟩ [],
       .node ⟨"infer_type", none, 12, 19⟩ [.node ⟨"type_identifier", none, 18, 19⟩ []],
       .node ⟨"object_type", none, 21, 32⟩ [.node ⟨"comment", none, 23, 30⟩ []]]]

theorem commented_plainMapTree : plainMapTree.Commented commentedMapTree := by
  repeat' first
    | exact Padded.nil
    | refine Padded.item (Tree.Commented.node rfl rfl ?_) ?_
    | refine Padded.extra ⟨rfl, rfl, rfl⟩ ?_
    | refine Tree.Commented.node rfl rfl ?_

/-- No comment stands between `infer` and its name, so all uses correspond. -/
theorem sameUses_plainMapTree :
    plainMapTree.Commented commentedMapTree ∧
      (∀ place ∈ commentedMapTree.places, place.isBinding = true → place.comesFirst = true) ∧
      List.Forall₂ SameUse (usesAt plainMapTree) (usesAt commentedMapTree) ∧
      (usesAt plainMapTree).map (fun call => call.2.node.label.start) = [0, 13] ∧
      (usesAt commentedMapTree).map (fun call => call.2.node.label.start) = [0, 21] := by
  have hfirst : ∀ place ∈ commentedMapTree.places,
      place.isBinding = true → place.comesFirst = true := by
    have hall : (commentedMapTree.places.all fun place => !place.isBinding || place.comesFirst) =
        true := rfl
    intro place hplace hbinding
    simpa [hbinding] using List.all_eq_true.1 hall place hplace
  rcases sameUses_of_commented commented_plainMapTree with ⟨-, -, -, -, hsame⟩
  exact ⟨commented_plainMapTree, hfirst, hsame hfirst, rfl, rfl⟩

/-- The tree of `type U<T> = T extends Array<infer E> ? E : never;`. -/
def inferTree : Tree :=
  .node ⟨"program", none, 0, 49⟩
    [.node ⟨"type_alias_declaration", none, 0, 49⟩
      [.node ⟨"type_identifier", some "name", 5, 6⟩ [],
       .node ⟨"type_parameters", some "type_parameters", 6, 9⟩
        [.node ⟨"type_parameter", none, 7, 8⟩ [.node ⟨"type_identifier", some "name", 7, 8⟩ []]],
       .node ⟨"conditional_type", some "value", 12, 48⟩
        [.node ⟨"type_identifier", some "left", 12, 13⟩ [],
         .node ⟨"generic_type", some "right", 22, 36⟩
          [.node ⟨"type_identifier", some "name", 22, 27⟩ [],
           .node ⟨"type_arguments", some "type_arguments", 27, 36⟩
            [.node ⟨"infer_type", none, 28, 35⟩ [.node ⟨"type_identifier", none, 34, 35⟩ []]]],
         .node ⟨"type_identifier", some "consequence", 39, 40⟩ [],
         .node ⟨"predefined_type", some "alternative", 43, 48⟩ []]]]

/-- The same with `/* c */` between `infer` and the name that it introduces. -/
def commentedInferTree : Tree :=
  .node ⟨"program", none, 0, 57⟩
    [.node ⟨"type_alias_declaration", none, 0, 57⟩
      [.node ⟨"type_identifier", some "name", 5, 6⟩ [],
       .node ⟨"type_parameters", some "type_parameters", 6, 9⟩
        [.node ⟨"type_parameter", none, 7, 8⟩ [.node ⟨"type_identifier", some "name", 7, 8⟩ []]],
       .node ⟨"conditional_type", some "value", 12, 56⟩
        [.node ⟨"type_identifier", some "left", 12, 13⟩ [],
         .node ⟨"generic_type", some "right", 22, 44⟩
          [.node ⟨"type_identifier", some "name", 22, 27⟩ [],
           .node ⟨"type_arguments", some "type_arguments", 27, 44⟩
            [.node ⟨"infer_type", none, 28, 43⟩
              [.node ⟨"comment", none, 34, 41⟩ [], .node ⟨"type_identifier", none, 42, 43⟩ []]]],
         .node ⟨"type_identifier", some "consequence", 47, 48⟩ [],
         .node ⟨"predefined_type", some "alternative", 51, 56⟩ []]]]

theorem commented_inferTree : inferTree.Commented commentedInferTree := by
  repeat' first
    | exact Padded.nil
    | refine Padded.item (Tree.Commented.node rfl rfl ?_) ?_
    | refine Padded.extra ⟨rfl, rfl, rfl⟩ ?_
    | refine Tree.Commented.node rfl rfl ?_

/-- The name that `infer` introduces is used in the tree with the comment, and in the other one it
is not. -/
theorem uses_depend_on_comment :
    inferTree.Commented commentedInferTree ∧
      (typeUses inferTree).map (fun use => use.node.label.start) = [12, 22, 22, 39] ∧
      (typeUses commentedInferTree).map (fun use => use.node.label.start) =
        [12, 22, 22, 42, 47] ∧
      ((usesAt commentedInferTree).filter fun call => call.1.isBinding).map
        (fun call => call.2.node.label.start) = [42] ∧
      ¬ List.Forall₂ SameUse (usesAt inferTree) (usesAt commentedInferTree) := by
  refine ⟨commented_inferTree, ?_, ?_, rfl, ?_⟩
  · rw [← map_snd_usesAt]
    rfl
  · rw [← map_snd_usesAt]
    rfl
  · intro hsame
    have hlength := hsame.length_eq
    exact absurd hlength (by decide)

end TypeNameLint
