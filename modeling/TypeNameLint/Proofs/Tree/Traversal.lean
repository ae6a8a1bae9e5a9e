import TypeNameLint.Proofs.Tree.Places
import Mathlib.Data.List.Lex

/-!
# Traversal — the loop of cursor moves passes every node once

The walk keeps nothing but a cursor: it goes to the first child, else to the next sibling, else up
to the parent, from where the children are not entered again. Each turn of this loop is a single
move. A node is addressed by the indices of the children on the way down to it; in the order of
these addresses each node comes before its children, and these from the left to the right. This
file defines:

* `Loop`, `Loop.step?`, `Loop.Returns`: the loop, one turn of it, and its end;
* `Loop.todo`, `Loop.turns`: what is still to be passed, and how many turns that takes;
* `Cursor.descend?`, `Cursor.address`: the place at an address, and the address of a place.

The main result is `walk_passes_once`.
-/

namespace TypeNameLint

/-! ## The loop -/

/-- Whether the node at the cursor is still to be passed, or all of it is passed already. -/
inductive Phase where
  | arriving
  | leaving

/-- The state of the loop: the cursor, and the places passed so far. -/
structure Loop where
  cursor : Cursor
  phase : Phase
  passed : List Cursor

namespace Loop

def start (t : Tree) : Loop := ⟨.ofTree t, .arriving, []⟩

/-- One turn of the loop, with one move of the cursor at most; without a result it returns. -/
def step? (loop : Loop) : Option Loop :=
  match loop.phase with
  | .arriving =>
    match loop.cursor.firstChild? with
    | some child => some ⟨child, .arriving, loop.passed ++ [loop.cursor]⟩
    | none => some ⟨loop.cursor, .leaving, loop.passed ++ [loop.cursor]⟩
  | .leaving =>
    match loop.cursor.nextSibling? with
    | some sibling => some ⟨sibling, .arriving, loop.passed⟩
    | none => loop.cursor.parent?.map fun parent => ⟨parent, .leaving, loop.passed⟩

/-- The loop returns after a number of turns, with the places that it has passed by then. -/
inductive Returns : Loop → Nat → List Cursor → Prop
  | now {loop : Loop} (stops : loop.step? = none) : Returns loop 0 loop.passed
  | later {loop next : Loop} {turns : Nat} {places : List Cursor}
      (step : loop.step? = some next) (rest : Returns next turns places) :
      Returns loop (turns + 1) places

/-! ## What is still to come -/

/-- The places still to be passed. -/
def todo (loop : Loop) : List Cursor :=
  match loop.phase with
  | .arriving => loop.cursor.walk
  | .leaving => Cursor.remaining loop.cursor.focus loop.cursor.crumbs

/-- The turns it takes to pass what is to the right of the way down, and to climb out of it. -/
def turnsAbove : List Crumb → Nat
  | [] => 0
  | crumb :: above => 2 * Tree.forestSize crumb.right + 1 + turnsAbove above

/-- The turns still to come: a node below the cursor takes one to be passed and one to be left. -/
def turns (loop : Loop) : Nat :=
  match loop.phase with
  | .arriving =>
    2 * Tree.forestSize loop.cursor.focus.children + 1 + turnsAbove loop.cursor.crumbs
  | .leaving => turnsAbove loop.cursor.crumbs

/-- A turn takes places from those to come to those passed, and leaves one turn less to come; the
loop stops only when there is none left. -/
theorem step_cases (loop : Loop) :
    (loop.step? = none ∧ loop.turns = 0 ∧ loop.todo = []) ∨
      ∃ next, loop.step? = some next ∧ next.turns + 1 = loop.turns ∧
        next.passed ++ next.todo = loop.passed ++ loop.todo := by
  rcases loop with ⟨⟨⟨label, children⟩, crumbs⟩, phase, passed⟩
  cases phase with
  | arriving =>
    right
    cases children with
    | nil =>
      refine ⟨_, rfl, ?_, ?_⟩
      · simp [turns, Tree.children, Tree.forestSize, Nat.add_comm]
      · rw [todo, todo, Cursor.walk_eq]
        simp [Cursor.next?, Cursor.firstChild?, Cursor.remaining]
    | cons t ts =>
      rcases t with ⟨label', children'⟩
      refine ⟨_, rfl, ?_, ?_⟩
      · simp only [turns, turnsAbove, Tree.children, Tree.forestSize, Tree.size]
        omega
      · simp only [todo]
        rw [Cursor.walk_eq ⟨.node label (.node label' children' :: ts), crumbs⟩]
        simp [Cursor.next?, Cursor.firstChild?]
  | leaving =>
    cases crumbs with
    | nil => exact Or.inl ⟨rfl, rfl, rfl⟩
    | cons crumb above =>
      right
      rcases crumb with ⟨label', left, right⟩
      cases right with
      | nil =>
        refine ⟨_, rfl, ?_, rfl⟩
        simp [turns, turnsAbove, Tree.forestSize, Nat.add_comm]
      | cons s ss =>
        rcases s with ⟨label'', children''⟩
        refine ⟨_, rfl, ?_, rfl⟩
        simp only [turns, turnsAbove, Tree.children, Tree.forestSize, Tree.size]
        omega

/-- From any state the loop returns, with all that is to come passed in this order. -/
theorem returns_of_turns {n : Nat} :
    ∀ loop : Loop, loop.turns = n → Returns loop n (loop.passed ++ loop.todo) := by
  induction n with
  | zero =>
    intro loop hturns
    rcases loop.step_cases with ⟨hstop, -, htodo⟩ | ⟨next, -, hless, -⟩
    · rw [htodo, List.append_nil]
      exact Returns.now hstop
    · omega
  | succ n ih =>
    intro loop hturns
    rcases loop.step_cases with ⟨-, hzero, -⟩ | ⟨next, hstep, hless, hsame⟩
    · omega
    · rw [← hsame]
      exact Returns.later hstep (ih next (by omega))

/-- From the top of a tree the loop passes each node in one turn, and leaves each node below the
top in another one. -/
theorem returns_start (t : Tree) :
    Returns (start t) (2 * t.size - 1) (Cursor.ofTree t).walk := by
  have hturns : (start t).turns = 2 * t.size - 1 := by
    rcases t with ⟨label, children⟩
    simp only [turns, start, turnsAbove, Cursor.ofTree, Tree.children, Tree.size]
    omega
  exact returns_of_turns (start t) hturns

end Loop

/-! ## Addresses -/

namespace Cursor

/-- The child at an index. -/
def child? (c : Cursor) (i : Nat) : Option Cursor :=
  c.focus.children[i]?.map fun child =>
    ⟨child, ⟨c.focus.label, (c.focus.children.take i).reverse, c.focus.children.drop (i + 1)⟩ ::
      c.crumbs⟩

/-- The place that is reached from here by the children at the given indices. -/
def descend? (c : Cursor) : List Nat → Option Cursor
  | [] => some c
  | i :: address => (c.child? i).bind fun child => child.descend? address

/-- The indices of the children on the way from the top to a place. -/
def address (c : Cursor) : List Nat :=
  (c.crumbs.map fun crumb => crumb.left.length).reverse

theorem address_of_child? {c d : Cursor} {i : Nat} (h : c.child? i = some d) :
    d.address = c.address ++ [i] := by
  rcases Option.map_eq_some_iff.1 h with ⟨child, hchild, rfl⟩
  have hlt : i < c.focus.children.length := (List.getElem?_eq_some_iff.1 hchild).1
  simp [address, Nat.min_eq_left (Nat.le_of_lt hlt)]

theorem address_of_descend? {c d : Cursor} {a : List Nat} (h : c.descend? a = some d) :
    d.address = c.address ++ a := by
  induction a generalizing c with
  | nil =>
    cases h
    simp
  | cons i a ih =>
    rcases Option.bind_eq_some_iff.1 h with ⟨child, hchild, hrest⟩
    rw [ih hrest, address_of_child? hchild, List.append_assoc]
    rfl

end Cursor

namespace Tree

mutual

/-- The addresses of the nodes of a tree, each before those of its children. -/
def addresses : Tree → List (List Nat)
  | node _ children => [] :: forestAddresses 0 children

/-- The addresses of the nodes of siblings from the one with index `i` on. -/
def forestAddresses (i : Nat) : List Tree → List (List Nat)
  | [] => []
  | t :: ts => t.addresses.map (i :: ·) ++ forestAddresses (i + 1) ts

end

theorem child?_append (label : Label) (left : List Tree) (t : Tree) (ts : List Tree)
    (crumbs : List Crumb) :
    Cursor.child? ⟨node label (left.reverse ++ t :: ts), crumbs⟩ left.length =
      some ⟨t, ⟨label, left, ts⟩ :: crumbs⟩ := by
  have hlength : left.length = left.reverse.length := List.length_reverse.symm
  simp only [Cursor.child?, children, Tree.label, hlength]
  simp [List.drop_append]

mutual

/-- The places below a node are those at the addresses, in the same order. -/
theorem map_descend?_addresses (crumbs : List Crumb) :
    ∀ t : Tree, t.addresses.map (Cursor.descend? ⟨t, crumbs⟩) = (t.placesBelow crumbs).map some
  | node label children => by
    have hchildren := map_descend?_forestAddresses label crumbs [] children
    rw [addresses, placesBelow, List.map_cons, List.map_cons]
    exact congrArg _ hchildren

theorem map_descend?_forestAddresses (label : Label) (crumbs : List Crumb) (left : List Tree) :
    ∀ ts : List Tree,
      (forestAddresses left.length ts).map
          (Cursor.descend? ⟨node label (left.reverse ++ ts), crumbs⟩) =
        (forestPlaces label crumbs left ts).map some
  | [] => rfl
  | t :: ts => by
    have hhere : (t.addresses.map (left.length :: ·)).map
        (Cursor.descend? ⟨node label (left.reverse ++ t :: ts), crumbs⟩) =
          (t.placesBelow (⟨label, left, ts⟩ :: crumbs)).map some := by
      rw [← map_descend?_addresses (⟨label, left, ts⟩ :: crumbs) t, List.map_map]
      refine List.map_congr_left fun a _ => ?_
      rw [Function.comp_apply, Cursor.descend?, child?_append]
      rfl
    have hrest := map_descend?_forestAddresses label crumbs (t :: left) ts
    simp only [List.length_cons, List.reverse_cons, List.append_assoc, List.cons_append,
      List.nil_append] at hrest
    rw [forestAddresses, forestPlaces, List.map_append, List.map_append, hhere, hrest]

end

mutual

/-- The addresses of a tree are in lexicographic order. -/
theorem pairwise_addresses : ∀ t : Tree, t.addresses.Pairwise (· < ·)
  | node _ children => by
    rw [addresses, List.pairwise_cons]
    refine ⟨?_, pairwise_forestAddresses 0 children⟩
    intro a ha
    rcases exists_of_mem_forestAddresses 0 children a ha with ⟨i, rest, -, rfl⟩
    exact List.nil_lt_cons i rest

theorem pairwise_forestAddresses (i : Nat) :
    ∀ ts : List Tree, (forestAddresses i ts).Pairwise (· < ·)
  | [] => List.Pairwise.nil
  | t :: ts => by
    rw [forestAddresses, List.pairwise_append]
    refine ⟨?_, pairwise_forestAddresses (i + 1) ts, ?_⟩
    · exact List.pairwise_map.2 ((pairwise_addresses t).imp fun hab => List.cons_lt_cons_iff.2
        (Or.inr ⟨rfl, hab⟩))
    · intro a ha b hb
      rcases List.mem_map.1 ha with ⟨rest, -, rfl⟩
      rcases exists_of_mem_forestAddresses (i + 1) ts b hb with ⟨j, rest', hj, rfl⟩
      exact List.cons_lt_cons_iff.2 (Or.inl hj)

/-- The addresses of siblings start with their indices. -/
theorem exists_of_mem_forestAddresses (i : Nat) :
    ∀ (ts : List Tree), ∀ a ∈ forestAddresses i ts, ∃ j rest, i ≤ j ∧ a = j :: rest
  | [], a, ha => by cases ha
  | t :: ts, a, ha => by
    rw [forestAddresses, List.mem_append] at ha
    rcases ha with ha | ha
    · rcases List.mem_map.1 ha with ⟨rest, -, rfl⟩
      exact ⟨i, rest, Nat.le_refl i, rfl⟩
    · rcases exists_of_mem_forestAddresses (i + 1) ts a ha with ⟨j, rest, hj, rfl⟩
      exact ⟨j, rest, by omega, rfl⟩

end

/-! ## Places and addresses -/

theorem cons_mem_forestAddresses {rest : List Nat} {child : Tree} (hrest : rest ∈ child.addresses) :
    ∀ {ts : List Tree} (i j : Nat), ts[i]? = some child → (j + i) :: rest ∈ forestAddresses j ts
  | [], i, j, h => by simp at h
  | t :: ts, 0, j, h => by
    cases h
    rw [forestAddresses, List.mem_append]
    exact Or.inl (List.mem_map_of_mem hrest)
  | t :: ts, i + 1, j, h => by
    have htail := cons_mem_forestAddresses hrest i (j + 1) (by simpa using h)
    rw [forestAddresses, List.mem_append, ← Nat.add_assoc, Nat.add_right_comm]
    exact Or.inr htail

/-- The addresses that lead somewhere are addresses of nodes. -/
theorem mem_addresses_of_descend? {a : List Nat} {crumbs : List Crumb} {t : Tree} {place : Cursor}
    (h : Cursor.descend? ⟨t, crumbs⟩ a = some place) : a ∈ t.addresses := by
  induction a generalizing t crumbs with
  | nil =>
    rcases t with ⟨label, children⟩
    exact List.mem_cons_self
  | cons i a ih =>
    rcases t with ⟨label, children⟩
    rcases Option.bind_eq_some_iff.1 h with ⟨child, hchild, hrest⟩
    rcases Option.map_eq_some_iff.1 hchild with ⟨inner, hinner, rfl⟩
    rw [addresses]
    refine List.mem_cons_of_mem _ ?_
    have hmem := cons_mem_forestAddresses (ih hrest) i 0 hinner
    rw [Nat.zero_add] at hmem
    exact hmem

theorem descend?_eq_some_iff {t : Tree} {a : List Nat} {place : Cursor} :
    (Cursor.ofTree t).descend? a = some place ↔ place ∈ t.places ∧ place.address = a := by
  have hplaces := map_descend?_addresses [] t
  constructor
  · intro h
    refine ⟨?_, by simpa [Cursor.ofTree, Cursor.address] using Cursor.address_of_descend? h⟩
    have hmem := List.mem_map_of_mem (f := Cursor.descend? ⟨t, []⟩) (mem_addresses_of_descend? h)
    rw [hplaces] at hmem
    rcases List.mem_map.1 hmem with ⟨found, hfound, heq⟩
    rw [← Option.some.inj (heq.trans h)]
    exact hfound
  · rintro ⟨hmem, rfl⟩
    have hsome : some place ∈ t.addresses.map (Cursor.descend? ⟨t, []⟩) := by
      rw [hplaces]
      exact List.mem_map_of_mem hmem
    rcases List.mem_map.1 hsome with ⟨a, -, ha⟩
    have haddress : place.address = a := by
      simpa [Cursor.ofTree, Cursor.address] using Cursor.address_of_descend? ha
    rw [haddress]
    exact ha

/-- The places are listed by their addresses. -/
theorem map_address_places (t : Tree) : t.places.map Cursor.address = t.addresses := by
  have hsome : (t.places.map Cursor.address).map some = t.addresses.map some := by
    calc
      (t.places.map Cursor.address).map some
          = (t.places.map some).map (Option.map Cursor.address) := by
            rw [List.map_map, List.map_map]
            rfl
      _ = (t.addresses.map (Cursor.descend? ⟨t, []⟩)).map (Option.map Cursor.address) := by
            rw [places, map_descend?_addresses]
      _ = t.addresses.map some := by
            rw [List.map_map]
            refine List.map_congr_left fun a ha => ?_
            have hmem := List.mem_map_of_mem (f := Cursor.descend? ⟨t, []⟩) ha
            rw [map_descend?_addresses] at hmem
            rcases List.mem_map.1 hmem with ⟨place, -, hplace⟩
            have haddress := Cursor.address_of_descend? hplace.symm
            rw [Function.comp_apply, ← hplace, Option.map_some, haddress]
            rfl
  exact List.map_injective_iff.2 (fun _ _ => Option.some.inj) hsome

end Tree

/-- From the top of a tree the loop returns after two turns for each node below the top and one for
the top itself. It has then passed what a recursive traversal passes, which are the places at all
addresses of the tree, each of them once, a node before its children and these from left to right.
So types are used as the recursive traversal finds them. -/
theorem walk_passes_once (t : Tree) :
    Loop.Returns (Loop.start t) (2 * t.size - 1) (Cursor.ofTree t).walk ∧
    (Cursor.ofTree t).walk = t.places ∧
    (∀ a place, (Cursor.ofTree t).descend? a = some place ↔
      place ∈ (Cursor.ofTree t).walk ∧ place.address = a) ∧
    (∀ a, ((Cursor.ofTree t).walk.map Cursor.address).count a =
      if ((Cursor.ofTree t).descend? a).isSome then 1 else 0) ∧
    ((Cursor.ofTree t).walk.map Cursor.address).Pairwise (· < ·) ∧
    typeUses t = t.places.filterMap TypeUse.ofCursor? := by
  have hwalk := Cursor.walk_ofTree_eq_places t
  have horder : (t.places.map Cursor.address).Pairwise (· < ·) := by
    rw [Tree.map_address_places]
    exact Tree.pairwise_addresses t
  have honce : (t.places.map Cursor.address).Nodup := horder.imp fun hab => ne_of_lt hab
  refine ⟨Loop.returns_start t, hwalk, ?_, ?_, ?_, ?_⟩
  · intro a place
    rw [hwalk]
    exact Tree.descend?_eq_some_iff
  · intro a
    rw [hwalk, honce.count]
    have hmem : a ∈ t.places.map Cursor.address ↔ ((Cursor.ofTree t).descend? a).isSome := by
      rw [Option.isSome_iff_exists, List.mem_map]
      exact exists_congr fun place => Tree.descend?_eq_some_iff.symm
    simp only [hmem]
  · rw [hwalk]
    exact horder
  · rw [typeUses, hwalk]

end TypeNameLint
