import TypeNameLint.Proofs.Tree.Places

/-!
# References — the places at which a name refers to a type

The test of a place goes through the kinds of its parent one after the other. Here the same places
are described by what must not be the case: each condition stands alone, whatever the others say.
This file defines:

* `Cursor.IsCalledName`: the child that its parent calls `name`;
* `Cursor.RefersBelow`: names that refer to a type below a given parent;
* `Cursor.IsTypeReference`, `Cursor.IsEmptyLiteral`: the two kinds of places at which a type is
  looked up by its text.
-/

namespace TypeNameLint
namespace Cursor

/-! ## The conditions -/

/-- Several children can carry the field `name`; the first of them is the one that counts. -/
def IsCalledName (place : Cursor) (parent : Crumb) : Prop :=
  place.focus.label.field = some "name" ∧
    ∀ sibling ∈ parent.left, sibling.label.field ≠ some "name"

/-- The conditions under which a name refers to a type: it is neither a part of a longer name, nor
in a heritage clause, nor the head of an instantiation in such a clause, nor a name that its parent
declares or binds. -/
structure RefersBelow (place : Cursor) (parent : Crumb) (above : List Crumb) : Prop where
  whole : parent.label.kind ≠ "nested_type_identifier"
  outside_heritage : isHeritageClause parent.label.kind = false
  no_heritage_head : parent.label.kind = "generic_type" → place.IsCalledName parent →
    ∀ outer ∈ above.head?, isHeritageClause outer.label.kind = false
  not_declared : isDeclaration parent.label.kind = true → ¬ place.IsCalledName parent
  not_bound : parent.label.kind = "infer_type" → parent.left ≠ []

/-- A name, qualified name or instantiation that refers to a type. -/
def IsTypeReference (place : Cursor) : Prop :=
  place.focus.kind ∈ ["type_identifier", "nested_type_identifier", "generic_type"] ∧
    ∃ parent above, place.crumbs = parent :: above ∧ place.RefersBelow parent above

/-- A type literal in which nothing but comments is written. -/
def IsEmptyLiteral (place : Cursor) : Prop :=
  place.focus.kind = "object_type" ∧ ∀ child ∈ place.focus.children, child.kind = "comment"

/-! ## The tests -/

theorem isNameOf_iff {place : Cursor} {parent : Crumb} :
    isNameOf place.focus parent = true ↔ place.IsCalledName parent := by
  simp [isNameOf, hasNameField, IsCalledName]

/-- The kinds of parents that the test asks about exclude one another. -/
theorem isDeclaration_eq_false_of_kind {kind : String}
    (h : kind = "generic_type" ∨ kind = "infer_type") : isDeclaration kind = false := by
  rcases h with rfl | rfl <;> decide

theorem all_not_isHeritageClause_iff {outer? : Option Crumb} :
    (outer?.all fun outer => !isHeritageClause outer.label.kind) = true ↔
      ∀ outer ∈ outer?, isHeritageClause outer.label.kind = false := by
  cases outer? <;> simp

theorem isReference_iff_refersBelow {place : Cursor} {parent : Crumb} {above : List Crumb}
    (h : place.crumbs = parent :: above) :
    isReference place = true ↔ place.RefersBelow parent above := by
  have hname := @isNameOf_iff place parent
  have houter := @all_not_isHeritageClause_iff above.head?
  have hkind := @isDeclaration_eq_false_of_kind parent.label.kind
  have hbound : (!parent.left.isEmpty) = true ↔ parent.left ≠ [] := by simp
  have hapart : parent.label.kind = "generic_type" → parent.label.kind ≠ "infer_type" := by
    rintro hgeneric hinfer
    exact absurd (hgeneric.symm.trans hinfer) (by decide)
  -- The test goes through the kinds of parents in turn; no two of them apply at once.
  rw [isReference, h]
  constructor
  · intro htest
    constructor <;> grind
  · rintro ⟨hwhole, houtside, hhead, hdeclared, hinfer⟩
    grind

/-- The test accepts a place of a known kind exactly if the name there refers to a type. -/
theorem isReference_iff {place : Cursor} :
    isReference place = true ↔
      ∃ parent above, place.crumbs = parent :: above ∧ place.RefersBelow parent above := by
  cases hcrumbs : place.crumbs with
  | nil => simp [isReference, hcrumbs]
  | cons parent above =>
    rw [isReference_iff_refersBelow hcrumbs]
    constructor
    · exact fun hrefers => ⟨parent, above, rfl, hrefers⟩
    · rintro ⟨_, _, heq, hrefers⟩
      cases heq
      exact hrefers

/-- The test asks for the kinds of the two nearest ancestors, for the name of the parent, and, below
`infer`, for what comes first. -/
theorem isReference_congr {t t' : Tree} {parent parent' : Crumb} {above above' : List Crumb}
    (hkind : parent.label.kind = parent'.label.kind)
    (hnamed : isNameOf t parent = isNameOf t' parent')
    (houter : (above.head?.all fun outer => !isHeritageClause outer.label.kind) =
      above'.head?.all fun outer => !isHeritageClause outer.label.kind)
    (hfirst : parent.label.kind = "infer_type" → parent.left.isEmpty = parent'.left.isEmpty) :
    isReference ⟨t, parent :: above⟩ = isReference ⟨t', parent' :: above'⟩ := by
  by_cases hinfer : parent.label.kind = "infer_type"
  · simp only [isReference, ← hkind, hnamed, houter, hfirst hinfer]
  · simp only [isReference, ← hkind, hnamed, houter, if_neg hinfer]

end Cursor

/-! ## Uses -/

namespace TypeUse

theorem memberCount_literal_pos_iff {t : Tree} :
    (literal t).memberCount > 0 ↔ ∃ child ∈ t.children, child.kind ≠ "comment" := by
  simp [memberCount, List.countP_pos_iff]

theorem node_of_ofCursor? {place : Cursor} {use : TypeUse} (h : ofCursor? place = some use) :
    use.node = place.focus := by
  simp only [ofCursor?] at h
  split at h
  · cases h
    rfl
  · split at h
    · cases h
      rfl
    · cases h

/-- A name that refers to a type is used as a reference, which has no members. -/
theorem ofCursor?_of_isTypeReference {place : Cursor} (h : place.IsTypeReference) :
    ofCursor? place = some (reference place.focus) := by
  rcases h with ⟨hkind, hrefers⟩
  have haccepted := Cursor.isReference_iff.2 hrefers
  -- A kind that names refer with is not that of a literal.
  have hliteral : place.focus.kind ≠ "object_type" := by
    rintro hliteral
    exact absurd (hliteral ▸ hkind) (by decide)
  simp only [ofCursor?, if_neg hliteral, haccepted, Bool.and_true, List.contains_iff_mem, hkind,
    if_true]

theorem ofCursor?_of_object_type {place : Cursor} (h : place.focus.kind = "object_type") :
    ofCursor? place = some (literal place.focus) := by
  simp [ofCursor?, h]

/-- Where no type is looked up there is no use, or one that has members. -/
theorem memberCount_pos_of_ofCursor? {place : Cursor} {use : TypeUse}
    (hliteral : ¬ place.IsEmptyLiteral) (hreference : ¬ place.IsTypeReference)
    (h : ofCursor? place = some use) : use.memberCount > 0 := by
  -- A literal is used in any place, and anything else only as a reference.
  by_cases hkind : place.focus.kind = "object_type"
  · rw [ofCursor?_of_object_type hkind] at h
    cases h
    obtain ⟨child, hchild, hmember⟩ : ∃ child ∈ place.focus.children, child.kind ≠ "comment" := by
      simpa [Cursor.IsEmptyLiteral, hkind] using hliteral
    exact memberCount_literal_pos_iff.2 ⟨child, hchild, hmember⟩
  · exfalso
    simp only [ofCursor?, if_neg hkind] at h
    split at h
    · rename_i htest
      simp only [Bool.and_eq_true, List.contains_iff_mem] at htest
      exact hreference ⟨htest.1, Cursor.isReference_iff.1 htest.2⟩
    · cases h

end TypeUse
end TypeNameLint
