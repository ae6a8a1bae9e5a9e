import TypeNameLint.Proofs.Text.Offsets
import TypeNameLint.Tree.TypeUse

/-!
# Places — the recursive traversal of a tree, and trees that fit a source

The walk of a cursor goes from place to place and keeps no list of what is still to come. Here the
same places are listed by recursion on the tree. This file defines:

* `Tree.places`: every node with its surroundings, each node before its children;
* `Tree.Spells`, `Tree.spelledAt`: the text of a node, cut out of the source, and its location;
* `Tree.WellFormed`: trees whose spans are texts of the source, nested as the nodes are;

and proves that the walk from the top passes exactly these places, in this order.
-/

namespace TypeNameLint
namespace Tree

/-! ## Places -/

mutual

/-- The places of a tree that stands in some surroundings: each node before its children. -/
def placesBelow (crumbs : List Crumb) : Tree → List Cursor
  | node label children =>
    ⟨node label children, crumbs⟩ :: forestPlaces label crumbs [] children

/-- The places of the children of a node from one of them on. The children before it are given
from the nearest on. -/
def forestPlaces (label : Label) (crumbs : List Crumb) (left : List Tree) :
    List Tree → List Cursor
  | [] => []
  | t :: ts => t.placesBelow (⟨label, left, ts⟩ :: crumbs) ++
      forestPlaces label crumbs (t :: left) ts

end

/-- The places of a tree, in document order. -/
def places (t : Tree) : List Cursor := t.placesBelow []

mutual

theorem map_focus_placesBelow (crumbs : List Crumb) :
    ∀ t : Tree, (t.placesBelow crumbs).map Cursor.focus = t.preorder
  | node label children => by
    simp only [placesBelow, preorder, List.map_cons,
      map_focus_forestPlaces label crumbs [] children]

theorem map_focus_forestPlaces (label : Label) (crumbs : List Crumb) (left : List Tree) :
    ∀ ts : List Tree,
      (forestPlaces label crumbs left ts).map Cursor.focus = forestPreorder ts
  | [] => rfl
  | t :: ts => by
    simp only [forestPlaces, forestPreorder, List.map_append,
      map_focus_placesBelow _ t, map_focus_forestPlaces label crumbs (t :: left) ts]

end

/-- The nodes at the places are the nodes of the tree, in document order. -/
theorem map_focus_places (t : Tree) : t.places.map Cursor.focus = t.preorder :=
  map_focus_placesBelow [] t

theorem focus_mem_preorder {t : Tree} {place : Cursor} (h : place ∈ t.places) :
    place.focus ∈ t.preorder := by
  rw [← map_focus_places]
  exact List.mem_map_of_mem h

end Tree

/-! ## The walk -/

namespace Cursor

theorem walk_eq (c : Cursor) :
    c.walk = c :: (c.next?.map walk).getD [] := by
  rw [walk]
  split <;> rename_i h <;> simp [h]

/-- What the walk still passes after the nodes of a tree in some surroundings. -/
def remaining (t : Tree) (crumbs : List Crumb) : List Cursor :=
  ((climb t crumbs).map walk).getD []

mutual

/-- The walk passes a tree before it goes on to what surrounds the tree. -/
theorem walk_eq_placesBelow_append (crumbs : List Crumb) :
    ∀ t : Tree, walk ⟨t, crumbs⟩ = t.placesBelow crumbs ++ remaining t crumbs
  | .node label [] => by
    rw [walk_eq]
    rfl
  | .node label (t :: ts) => by
    -- A node with children is followed by the first of them.
    have hnext : next? ⟨.node label (t :: ts), crumbs⟩ = some ⟨t, ⟨label, [], ts⟩ :: crumbs⟩ := rfl
    have hchildren := walk_eq_forestPlaces_append label crumbs [] t ts
    rw [walk_eq, hnext, Tree.placesBelow]
    simpa using hchildren
termination_by t => sizeOf t

/-- The same from one of several siblings on. -/
theorem walk_eq_forestPlaces_append (label : Label) (crumbs : List Crumb) (left : List Tree) :
    ∀ (t : Tree) (ts : List Tree),
      walk ⟨t, ⟨label, left, ts⟩ :: crumbs⟩ =
        Tree.forestPlaces label crumbs left (t :: ts) ++
          remaining (.node label (left.reverse ++ t :: ts)) crumbs
  | t, [] => by
    -- After the last sibling the walk goes on behind the parent.
    have hclimb : remaining t (⟨label, left, []⟩ :: crumbs) =
        remaining (.node label (left.reverse ++ [t])) crumbs := rfl
    rw [walk_eq_placesBelow_append, hclimb]
    simp [Tree.forestPlaces]
  | t, s :: ts => by
    -- Otherwise the next sibling comes first.
    have hclimb : remaining t (⟨label, left, s :: ts⟩ :: crumbs) =
        walk ⟨s, ⟨label, t :: left, ts⟩ :: crumbs⟩ := rfl
    rw [walk_eq_placesBelow_append, hclimb,
      walk_eq_forestPlaces_append label crumbs (t :: left) s ts]
    simp [Tree.forestPlaces]
termination_by t ts => sizeOf (t :: ts)

end

/-- From the top the walk passes all places of the tree, and nothing else. -/
theorem walk_ofTree_eq_places (t : Tree) : (ofTree t).walk = t.places := by
  have htop : remaining t [] = [] := rfl
  rw [ofTree, walk_eq_placesBelow_append, htop, List.append_nil]
  rfl

end Cursor

/-! ## Trees of a source -/

namespace Tree

/-- The text of a node, cut out of the source. What stands before the node is split at the start of
its line: `lines` are whole lines, and `line` is the part of the node's own line in front of it. -/
structure Spells (source : List Char) (label : Label) (lines line text after : List Char) :
    Prop where
  source_eq : source = lines ++ line ++ text ++ after
  whole_lines : lines = [] ∨ lines.getLast? = some '\n'
  same_line : '\n' ∉ line
  start_eq : label.start = Text.byteLength lines + Text.byteLength line
  stop_eq : label.stop = label.start + Text.byteLength text

/-- The location of a node that is spelled so: lines and columns count from one, and a column
counts the bytes since the start of its line. -/
def spelledAt (file : Path) (lines line text : List Char) : Location where
  file := file
  line := lines.count '\n' + 1
  column := Text.byteLength line + 1
  offset := Text.byteLength lines + Text.byteLength line
  length := Text.byteLength text

/-- Trees that a parser makes of a source: the span of every node is that of a text, children lie
inside their parent and in document order, and offsets are machine words. -/
structure WellFormed (source : List Char) (tree : Tree) : Prop where
  span : ∀ t ∈ tree.preorder, Text.IsSpan source t.label.start t.label.stop
  word : ∀ t ∈ tree.preorder, t.label.stop < Location.wordSize
  inside : ∀ t ∈ tree.preorder, ∀ child ∈ t.children,
    t.label.start ≤ child.label.start ∧ child.label.stop ≤ t.label.stop
  inOrder : ∀ t ∈ tree.preorder, t.children.Pairwise fun a b => a.label.stop ≤ b.label.start

instance (source : List Char) (tree : Tree) : Decidable (tree.WellFormed source) :=
  decidable_of_iff
    ((∀ t ∈ tree.preorder, Text.IsSpan source t.label.start t.label.stop) ∧
      (∀ t ∈ tree.preorder, t.label.stop < Location.wordSize) ∧
      (∀ t ∈ tree.preorder, ∀ child ∈ t.children,
        t.label.start ≤ child.label.start ∧ child.label.stop ≤ t.label.stop) ∧
      ∀ t ∈ tree.preorder, t.children.Pairwise fun a b => a.label.stop ≤ b.label.start)
    ⟨fun ⟨span, word, inside, inOrder⟩ => ⟨span, word, inside, inOrder⟩,
      fun ⟨span, word, inside, inOrder⟩ => ⟨span, word, inside, inOrder⟩⟩

/-- A node whose span is that of a text has one. -/
theorem exists_spells {source : List Char} {label : Label}
    (h : Text.IsSpan source label.start label.stop) :
    ∃ lines line text after, Spells source label lines line text after := by
  rcases h with ⟨before, text, after, rfl, hstart, hstop⟩
  rcases Text.exists_lines_append before with ⟨lines, line, rfl, hlines, hline⟩
  refine ⟨lines, line, text, after, rfl, hlines, hline, ?_, hstop.symm⟩
  rw [← hstart, Text.byteLength_append]

namespace Spells

variable {source lines line text after : List Char} {label : Label}

theorem nodeText_eq (h : Spells source label lines line text after) :
    nodeText source label = String.ofList text := by
  have hslice := Text.slice?_append (lines ++ line) text after
  rw [Text.byteLength_append, ← h.start_eq, ← h.stop_eq, ← h.source_eq] at hslice
  rw [nodeText, hslice]
  rfl

theorem locationOf_eq (h : Spells source label lines line text after) (file : Path) :
    locationOf file source label = spelledAt file lines line text := by
  have hposition := Text.positionAt_append (text ++ after) h.whole_lines h.same_line
  have hsource : lines ++ line ++ (text ++ after) = source := by
    rw [h.source_eq, List.append_assoc (lines ++ line)]
  rw [hsource, ← h.start_eq] at hposition
  have hlength : label.stop - label.start = Text.byteLength text := by
    rw [h.stop_eq]
    omega
  simp only [locationOf, spelledAt, hposition, hlength]
  rw [h.start_eq]

end Spells
end Tree
end TypeNameLint
