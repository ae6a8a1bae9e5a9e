/-!
# Tree.Basic — syntax trees

A tree holds the named nodes of a parsed source: every node has a kind, perhaps a field name under
which its parent knows it, and the byte span of its text. This file defines:

- `Label`, `Tree`: nodes and trees;
- `Tree.size`, `Tree.preorder`: the nodes of a tree;
- `Row`, `Tree.ofRows?`: a tree from the list of its nodes with their depths.
-/

namespace TypeNameLint

/-- What a node is, apart from its children: its kind, its field in the parent, and its span. -/
structure Label where
  kind : String
  field : Option String
  start : Nat
  stop : Nat
  deriving DecidableEq, Repr, Inhabited

/-- A node with its children in document order. -/
inductive Tree where
  | node (label : Label) (children : List Tree)
  deriving Repr, Inhabited

namespace Tree

/-! ## Parts -/

def label : Tree → Label
  | node label _ => label

def children : Tree → List Tree
  | node _ children => children

def kind (t : Tree) : String := t.label.kind

mutual

def size : Tree → Nat
  | node _ children => forestSize children + 1

def forestSize : List Tree → Nat
  | [] => 0
  | t :: ts => t.size + forestSize ts

end

mutual

/-- Every subtree of a tree, in document order: each node before its children. -/
def preorder : Tree → List Tree
  | node label children => node label children :: forestPreorder children

/-- Every subtree of several trees, in document order. -/
def forestPreorder : List Tree → List Tree
  | [] => []
  | t :: ts => t.preorder ++ forestPreorder ts

end

/-! ## Trees from rows -/

/-- A node of a listed tree: its depth below the top, and its label. -/
structure Row where
  depth : Nat
  label : Label
  deriving Repr

/-- The forest of the rows read so far with one more row in front: the trees that are deeper than
the row and follow it at once become its children. -/
def addRow (row : Row) (forest : List (Nat × Tree)) : List (Nat × Tree) :=
  let deeper := fun (entry : Nat × Tree) => decide (row.depth < entry.1)
  (row.depth, node row.label ((forest.takeWhile deeper).map Prod.snd)) :: forest.dropWhile deeper

/-- The tree whose nodes are listed in document order, each with its depth. -/
def ofRows? (rows : List Row) : Option Tree :=
  ((rows.foldr addRow []).head?).map Prod.snd

end Tree
end TypeNameLint
