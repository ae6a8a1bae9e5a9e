import TypeNameLint.Tree.Basic

/-!
# Tree.Cursor — a place in a tree, and the walk through all places

A cursor holds a subtree together with its surroundings: for every ancestor its label and the
siblings to the left and right of the way down. It moves to the first child, to the next sibling
and to the parent. This file defines:

- `Crumb`, `Cursor`: the place;
- `firstChild?`, `nextSibling?`, `parent?`: the moves;
- `next?`: the move to the next node in document order;
- `walk`: every place from here on, in document order.
-/

namespace TypeNameLint

/-- An ancestor of a place: its label, and the siblings of the child on the way down, those on the
left from the nearest on. -/
structure Crumb where
  label : Label
  left : List Tree
  right : List Tree
  deriving Repr

/-- A subtree and its surroundings, from the parent upwards. -/
structure Cursor where
  focus : Tree
  crumbs : List Crumb
  deriving Repr

namespace Cursor

def ofTree (t : Tree) : Cursor := ⟨t, []⟩

/-! ## Moves -/

/-- The first child. -/
def firstChild? (c : Cursor) : Option Cursor :=
  match c.focus with
  | .node _ [] => none
  | .node label (t :: ts) => some ⟨t, ⟨label, [], ts⟩ :: c.crumbs⟩

def nextSibling? (c : Cursor) : Option Cursor :=
  match c.crumbs with
  | ⟨label, left, t :: right⟩ :: above => some ⟨t, ⟨label, c.focus :: left, right⟩ :: above⟩
  | _ => none

def parent? (c : Cursor) : Option Cursor :=
  match c.crumbs with
  | [] => none
  | ⟨label, left, right⟩ :: above => some ⟨.node label (left.reverse ++ c.focus :: right), above⟩

/-! ## The walk -/

/-- The next sibling of the place or of its nearest ancestor that has one. -/
def climb (t : Tree) : List Crumb → Option Cursor
  | [] => none
  -- The last child is put back into its parent before the search goes on there.
  | ⟨label, left, []⟩ :: above => climb (.node label (left.reverse ++ [t])) above
  | ⟨label, left, s :: right⟩ :: above => some ⟨s, ⟨label, t :: left, right⟩ :: above⟩

/-- The next place in document order. -/
def next? (c : Cursor) : Option Cursor :=
  match c.firstChild? with
  | some child => some child
  | none => climb c.focus c.crumbs

/-- The number of nodes to the right of the way down to a place. -/
def pendingAbove : List Crumb → Nat
  | [] => 0
  | crumb :: above => Tree.forestSize crumb.right + pendingAbove above

def pending (c : Cursor) : Nat :=
  c.focus.size + pendingAbove c.crumbs

/-- Climbing reaches the nodes to the right of the way down, and loses none of them. -/
theorem pending_of_climb {t : Tree} {crumbs : List Crumb} {d : Cursor}
    (h : climb t crumbs = some d) : d.pending = pendingAbove crumbs := by
  induction crumbs generalizing t with
  | nil => simp [climb] at h
  | cons crumb above ih =>
    obtain ⟨label, left, right⟩ := crumb
    cases right with
    | nil =>
      rw [climb] at h
      rw [ih h]
      simp [pendingAbove, Tree.forestSize]
    | cons s right =>
      simp only [climb, Option.some.injEq] at h
      subst h
      simp [pending, pendingAbove, Tree.forestSize, Nat.add_assoc]

/-- Each step leaves one node behind. -/
theorem pending_of_next {c d : Cursor} (h : c.next? = some d) : d.pending + 1 = c.pending := by
  obtain ⟨⟨label, children⟩, crumbs⟩ := c
  cases children with
  | nil =>
    simp only [next?, firstChild?] at h
    rw [pending_of_climb h]
    simp [pending, Tree.size, Tree.forestSize, Nat.add_comm]
  | cons t ts =>
    simp only [next?, firstChild?, Option.some.injEq] at h
    subst h
    simp [pending, pendingAbove, Tree.size, Tree.forestSize]
    omega

/-- Every place from here on, in document order. -/
def walk (c : Cursor) : List Cursor :=
  match _h : c.next? with
  | none => [c]
  | some d => c :: d.walk
termination_by c.pending
decreasing_by
  have := pending_of_next _h
  omega

end Cursor
end TypeNameLint
